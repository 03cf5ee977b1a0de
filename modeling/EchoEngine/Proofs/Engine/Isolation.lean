import EchoEngine.Proofs.Engine.Runs

/-!
# Agents do not see each other

What an agent is and what becomes of its tasks does not depend on the tasks of other agents: a run from which all
executions of tasks meant for others are deleted ends with the same agent, and has given the same answers to its
tasks (`isolated_run`).

Two engines are alike to an agent if they agree on the agent itself and on all that a handler of its tasks can be
(`AlikeTo`).  The tracker is not among this, though all agents share it and every execution writes to it: of all
tasks only a reflection reads it, so reflections of the agent are left out.
-/

namespace EchoEngine

namespace EngineEvent

/-- Whether an event is anything but the execution of a task that is meant for another agent. -/
def concerns (id : AgentId) : EngineEvent → Bool
  | execute t _ _ _ => t.agent = id
  | _ => true

/-- An event does not make an agent reflect. -/
def Unreflective (id : AgentId) : EngineEvent → Prop
  | execute t _ _ _ => t.agent = id → t.type ≠ .reflect
  | _ => True

end EngineEvent

namespace Engine

/-- Two engines differ in nothing that an agent's tasks read, reflections apart, and neither in the agent. -/
structure AlikeTo (id : AgentId) (e e' : Engine) : Prop where
  settings : e'.settings = e.settings
  tools : e'.tools = e.tools
  plugins : e'.plugins = e.plugins
  backend : e'.backend = e.backend
  agentSettings : e'.agents.settings = e.agents.settings
  agent : e'.agents.get? id = e.agents.get? id

variable {id : AgentId} {e e' e'' : Engine}

theorem AlikeTo.refl (id : AgentId) (e : Engine) : AlikeTo id e e :=
  ⟨rfl, rfl, rfl, rfl, rfl, rfl⟩

theorem AlikeTo.symm (h : AlikeTo id e e') : AlikeTo id e' e :=
  ⟨h.settings.symm, h.tools.symm, h.plugins.symm, h.backend.symm, h.agentSettings.symm, h.agent.symm⟩

theorem AlikeTo.trans (h : AlikeTo id e e') (h' : AlikeTo id e' e'') : AlikeTo id e e'' :=
  ⟨h'.settings.trans h.settings, h'.tools.trans h.tools, h'.plugins.trans h.plugins,
    h'.backend.trans h.backend, h'.agentSettings.trans h.agentSettings, h'.agent.trans h.agent⟩

/-- Steps that an agent sees nothing of leave engines alike to it. -/
theorem AlikeTo.of_unseen (h : AlikeTo id e e') {s s' : Engine} (hs : AlikeTo id e s) (hs' : AlikeTo id e' s') :
    AlikeTo id s s' :=
  hs.symm.trans (h.trans hs')

theorem alikeTo_set_tracker (id : AgentId) (e : Engine) (tracker : Tracker Float) :
    AlikeTo id e { e with tracker } :=
  ⟨rfl, rfl, rfl, rfl, rfl, rfl⟩

/-! ### The end of a task -/

variable {t : Task} {agent : AgentId} {now : Timestamp}

theorem alikeTo_report (id : AgentId) (e : Engine) (t : Task) (a : Agent) (completed : Bool) (summary : String) :
    AlikeTo id e (e.report t a completed summary) :=
  alikeTo_set_tracker id e _

theorem alikeTo_commit_of_ne (h : id ≠ agent) (output : String) : AlikeTo id e (e.commit t agent output now) :=
  ⟨rfl, rfl, rfl, rfl, rfl, AgentStore.get?_update_of_ne _ _ h⟩

theorem AlikeTo.commit (h : AlikeTo id e e') (output : String) :
    AlikeTo id (e.commit t id output now) (e'.commit t id output now) := by
  refine ⟨h.settings, h.tools, h.plugins, h.backend, h.agentSettings, ?_⟩
  simp only [Engine.commit, AgentStore.get?_update, h.agent]

theorem alikeTo_finish_of_ne (h : id ≠ agent) (a : Agent) (result : Except Error String) :
    AlikeTo id e (e.finish t a agent now result).engine := by
  cases result with
  | ok output =>
    have hcommit : AlikeTo id e (e.commit t agent output now) := alikeTo_commit_of_ne h output
    simp only [finish]
    split
    · exact hcommit
    · exact hcommit.trans (alikeTo_report id _ _ _ _ _)
  | error err => exact alikeTo_report id e _ _ _ _

/-- Two executions have left the same task behind with the same result, and engines that are alike to an agent. -/
structure EndAlike (id : AgentId) (x x' : Execution) : Prop where
  task : x'.task = x.task
  result : x'.result = x.result
  engine : AlikeTo id x.engine x'.engine

theorem AlikeTo.finish (h : AlikeTo id e e') (a : Agent) (result : Except Error String) :
    EndAlike id (e.finish t a id now result) (e'.finish t a id now result) := by
  cases result with
  | ok output =>
    have hcommit : AlikeTo id (e.commit t id output now) (e'.commit t id output now) := h.commit output
    simp only [Engine.finish]
    split
    · exact ⟨rfl, rfl, hcommit⟩
    · exact ⟨rfl, rfl, hcommit.of_unseen (alikeTo_report id _ _ _ _ _) (alikeTo_report id _ _ _ _ _)⟩
  | error err => exact ⟨rfl, rfl, h.of_unseen (alikeTo_report id _ _ _ _ _) (alikeTo_report id _ _ _ _ _)⟩

/-! ### The way there -/

theorem AlikeTo.dispatch (h : AlikeTo id e e') (ht : t.type ≠ .reflect) (q : Request) :
    e'.dispatch t q = e.dispatch t q := by
  unfold Engine.dispatch
  cases htype : t.type with
  | reflect => exact absurd htype ht
  | plugin => simp only [runPlugin, h.plugins]
  | toolCall => simp only [runTool, h.tools]
  | analyze => simp only [h.backend]

theorem AlikeTo.output (h : AlikeTo id e e') (ht : t.type ≠ .reflect) (a : Agent) (o : ExecutionOptions) :
    e'.output t a o = e.output t a o := by
  simp only [Engine.output, Engine.request, handlerLabel, h.dispatch ht, h.settings, h.backend, h.agentSettings]

theorem AlikeTo.find (h : AlikeTo id e e') : e'.agents.find id = e.agents.find id := by
  simp only [AgentStore.find, h.agent]

/-- Of the execution of a task for one agent another one sees nothing. -/
theorem alikeTo_execute_of_ne (ht : t.agent ≠ id) (agent : AgentId) (o : ExecutionOptions) (now : Timestamp) :
    AlikeTo id e (e.execute t agent o now).engine := by
  unfold execute
  split
  · exact .refl id e
  · split
    · exact .refl id e
    · rename_i hagent
      have hne : id ≠ agent := fun heq => ht ((not_not.1 hagent).trans heq.symm)
      split
      · exact .refl id e
      · split
        · exact .refl id e
        · exact alikeTo_finish_of_ne hne _ _

/-- Engines that are alike to an agent execute its tasks alike. -/
theorem AlikeTo.execute (h : AlikeTo id e e') (hid : t.agent = id) (ht : t.type ≠ .reflect) (agent : AgentId)
    (o : ExecutionOptions) (now : Timestamp) : EndAlike id (e.execute t agent o now) (e'.execute t agent o now) := by
  unfold Engine.execute
  split
  · exact ⟨rfl, rfl, h⟩
  · split
    · exact ⟨rfl, rfl, h⟩
    · rename_i hagent
      obtain rfl : agent = id := (not_not.1 hagent).symm.trans hid
      rw [h.find]
      cases e.agents.find agent with
      | error err => exact ⟨rfl, rfl, h⟩
      | ok a =>
        cases hmove : t.moveTo .running with
        | error err => exact ⟨rfl, rfl, h⟩
        | ok running =>
          have hrunning : running.type ≠ .reflect := by
            rwa [Task.type_of_moveTo hmove]
          dsimp only
          rw [h.output hrunning]
          exact h.finish a _

/-! ### Events -/

/-- An introspection writes to the tracker alone. -/
private theorem alikeTo_introspect (id : AgentId) (e : Engine) (world : Files.World) (root : String)
    (coherence novelty : Float) : AlikeTo id e (e.step (.introspect world root coherence novelty)) := by
  simp only [step, introspect]
  cases Weights.new coherence novelty with
  | error err => exact .refl id e
  | ok weights =>
    cases hscan : e.scanner.scan world root weights with
    | error err =>
      simp only [bind, Except.bind, hscan]
      exact .refl id e
    | ok snapshot =>
      simp only [bind, Except.bind, hscan]
      exact alikeTo_set_tracker id e _

/-- Of an event that does not concern it an agent sees nothing. -/
theorem alikeTo_step_of_not_concerns {event : EngineEvent} (h : event.concerns id = false) :
    AlikeTo id e (e.step event) := by
  cases event with
  | execute t agent o now => exact alikeTo_execute_of_ne (of_decide_eq_false h) agent o now
  | _ => cases h

/-- Engines that are alike to an agent stay so with every event but its reflections. -/
theorem AlikeTo.step (h : AlikeTo id e e') {event : EngineEvent} (hconcerns : event.concerns id)
    (hquiet : event.Unreflective id) : AlikeTo id (e.step event) (e'.step event) := by
  have hcreate : ∀ id' type label now,
      AlikeTo id (e.createAgent id' type label now).1 (e'.createAgent id' type label now).1 := by
    intro id' type label now
    refine ⟨h.settings, h.tools, h.plugins, h.backend, h.agentSettings, ?_⟩
    simp only [createAgent, AgentStore.get?_create, h.agentSettings, h.agent]
  cases event with
  | registerTool handler =>
    simp only [Engine.step, registerTool, h.tools]
    cases e.tools.register handler with
    | error err => exact h
    | ok tools => exact { h with tools := rfl }
  | registerPlugin handler =>
    simp only [Engine.step, registerPlugin, h.plugins]
    cases e.plugins.register handler with
    | error err => exact h
    | ok plugins => exact { h with plugins := rfl }
  | registerDefaultTools world root =>
    simp only [Engine.step, registerDefaultTools, h.tools]
    exact { h with tools := rfl }
  | registerDefaultPlugins =>
    simp only [Engine.step, registerDefaultPlugins, h.plugins]
    exact { h with plugins := rfl }
  | createAgent id' type label now => exact hcreate id' type label now
  | createAgentNamed id' typeName label now =>
    simp only [Engine.step, createAgentNamed]
    cases AgentType.ofName typeName with
    | error err => exact h
    | ok type => exact hcreate id' type label now
  | start now => exact h.of_unseen (alikeTo_set_tracker id e _) (alikeTo_set_tracker id e' _)
  | refresh now => exact h.of_unseen (alikeTo_set_tracker id e _) (alikeTo_set_tracker id e' _)
  | introspect world root coherence novelty =>
    exact h.of_unseen (alikeTo_introspect id e world root coherence novelty)
      (alikeTo_introspect id e' world root coherence novelty)
  | execute t agent o now =>
    have hid : t.agent = id := of_decide_eq_true hconcerns
    exact (h.execute hid (hquiet hid) agent o now).engine

/-! ### Runs -/

/-- What an execution of a task of an agent has come to: the task as it is left behind, and the result. -/
def answer? (id : AgentId) : Engine × EngineEvent → Option (Task × TaskResult)
  | (e, .execute t agent o now) =>
    if t.agent = id then some ((e.execute t agent o now).task, (e.execute t agent o now).result) else none
  | _ => none

/-- What the tasks of an agent have come to, in order. -/
def answers (e : Engine) (id : AgentId) (es : List EngineEvent) : List (Task × TaskResult) :=
  (e.trace es).filterMap (answer? id)

theorem answer?_of_not_concerns {event : EngineEvent} (h : event.concerns id = false) :
    answer? id (e, event) = none := by
  cases event with
  | execute t agent o now => exact if_neg (of_decide_eq_false h)
  | _ => rfl

theorem AlikeTo.answer? (h : AlikeTo id e e') {event : EngineEvent} (hquiet : event.Unreflective id) :
    Engine.answer? id (e', event) = Engine.answer? id (e, event) := by
  cases event with
  | execute t agent o now =>
    simp only [Engine.answer?]
    split
    · rename_i hid
      have hend := h.execute hid (hquiet hid) agent o now
      rw [hend.task, hend.result]
    · rfl
  | _ => rfl

/-- Two engines that are alike to an agent, of which one lives through events and the other only through those
that concern the agent, give the same answers to its tasks and end alike. -/
theorem AlikeTo.run (h : AlikeTo id e e') {es : List EngineEvent} (hes : ∀ event ∈ es, event.Unreflective id) :
    AlikeTo id (e.run es) (e'.run (es.filter (·.concerns id))) ∧
      e'.answers id (es.filter (·.concerns id)) = e.answers id es := by
  induction es generalizing e e' with
  | nil => exact ⟨h, rfl⟩
  | cons event es ih =>
    rw [List.forall_mem_cons] at hes
    obtain ⟨hquiet, hes⟩ := hes
    cases hconcerns : event.concerns id with
    | true =>
      obtain ⟨hrun, hanswers⟩ := ih (h.step hconcerns hquiet) hes
      rw [List.filter_cons_of_pos hconcerns]
      refine ⟨hrun, ?_⟩
      simp only [Engine.answers, trace, List.filterMap_cons, h.answer? hquiet] at hanswers ⊢
      rw [hanswers]
    | false =>
      obtain ⟨hrun, hanswers⟩ := ih ((alikeTo_step_of_not_concerns hconcerns).symm.trans h) hes
      rw [List.filter_cons_of_neg (by simp [hconcerns])]
      refine ⟨hrun, ?_⟩
      rw [hanswers, Engine.answers, Engine.answers, trace, List.filterMap_cons, answer?_of_not_concerns hconcerns]

/-- Without the executions of tasks that are meant for others a run ends with the same agent, context, memory and
all, and its tasks have come to the same.  The tasks of the agent do not reflect. -/
theorem isolated_run (e : Engine) (id : AgentId) (es : List EngineEvent)
    (hes : ∀ event ∈ es, event.Unreflective id) :
    (e.run (es.filter (·.concerns id))).agents.get? id = (e.run es).agents.get? id ∧
      e.answers id (es.filter (·.concerns id)) = e.answers id es := by
  obtain ⟨hrun, hanswers⟩ := (AlikeTo.refl id e).run hes
  exact ⟨hrun.agent, hanswers⟩

/-! ### A run of two agents -/

def sampleCrowd : List EngineEvent :=
  [.registerTool sampleTool, .createAgent ⟨"agent-1"⟩ .general "reader" ⟨0, 0⟩,
    .createAgent ⟨"agent-2"⟩ .general "writer" ⟨0, 0⟩,
    .execute (.new "task-1" .analyze "read" ⟨"agent-1"⟩) ⟨"agent-1"⟩ ⟨none, false⟩ ⟨1, 0⟩,
    .execute (.new "task-2" .reflect "write" ⟨"agent-2"⟩) ⟨"agent-2"⟩ ⟨none, false⟩ ⟨2, 0⟩,
    .execute ((Task.new "task-3" .toolCall "" ⟨"agent-1"⟩).withParameter "tool_name" (.text "recall"))
      ⟨"agent-1"⟩ ⟨none, false⟩ ⟨3, 0⟩]

/-- The reader recalls the input and the output of its own task, and nothing of the writer. -/
theorem isolated_run_sampleCrowd : (∀ event ∈ sampleCrowd, event.Unreflective ⟨"agent-1"⟩) ∧
    (sampleCrowd.filter (·.concerns ⟨"agent-1"⟩)).length = 5 ∧
    (sampleEngine.run (sampleCrowd.filter (·.concerns ⟨"agent-1"⟩))).agents.get? ⟨"agent-1"⟩
      = (sampleEngine.run sampleCrowd).agents.get? ⟨"agent-1"⟩ ∧
    sampleEngine.answers ⟨"agent-1"⟩ (sampleCrowd.filter (·.concerns ⟨"agent-1"⟩))
      = sampleEngine.answers ⟨"agent-1"⟩ sampleCrowd ∧
    (sampleEngine.answers ⟨"agent-1"⟩ sampleCrowd).map (·.2.output) = ["read", "read, read"] := by
  have hquiet : ∀ event ∈ sampleCrowd, event.Unreflective ⟨"agent-1"⟩ := by
    simp [sampleCrowd, EngineEvent.Unreflective, Task.new, Task.withParameter]
  obtain ⟨hagent, hanswers⟩ := isolated_run sampleEngine ⟨"agent-1"⟩ sampleCrowd hquiet
  exact ⟨hquiet, rfl, hagent, hanswers, by decide +kernel⟩

end Engine

end EchoEngine
