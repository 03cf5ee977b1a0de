import EchoEngine.Proofs.Agent.Recall
import EchoEngine.Proofs.Engine.Execution

/-!
# Agents through a run

An engine lives through registrations, creations of agents, starts, refreshes, introspections and executions.
Of all these only creations and completed tasks leave a trace in an agent: at the end of any run an agent is as
it was created, and its state is what it recalls of its own completed tasks since then (`recalls_run`).  So
what a handler is told of the context is the end of that list too.

Which tasks have been completed is read off the results of the executions, each by the engine that the events
before it have led to (`completedBy`).
-/

namespace EchoEngine

/-- What an engine lives through. -/
inductive EngineEvent where
  | registerTool (h : Handler)
  | registerPlugin (h : Handler)
  | registerDefaultTools (world : Files.World) (root : String)
  | registerDefaultPlugins
  | createAgent (id : AgentId) (type : AgentType) (label : String) (now : Timestamp)
  | createAgentNamed (id : AgentId) (typeName label : String) (now : Timestamp)
  | start (now : Timestamp)
  | refresh (now : Timestamp)
  | introspect (world : Files.World) (root : String) (coherence novelty : Float)
  | execute (t : Task) (agent : AgentId) (o : ExecutionOptions) (now : Timestamp)

/-- What is settled about an agent when it is created. -/
structure Birth where
  type : AgentType
  label : String
  time : Timestamp

/-- An agent that has completed tasks since it was created. -/
def Birth.agent (b : Birth) (settings : AgentSettings) (id : AgentId) (cs : List Completion) : Agent :=
  { Agent.new settings id b.type b.label b.time with state := .recalled settings cs }

theorem Birth.agent_nil (b : Birth) (settings : AgentSettings) (id : AgentId) :
    b.agent settings id [] = Agent.new settings id b.type b.label b.time := by
  rw [agent, AgentState.recalled_nil]
  rfl

/-- The creation of the agent with an id. -/
def EngineEvent.birth? (id : AgentId) : EngineEvent → Option Birth
  | createAgent id' type label now => if id' = id then some ⟨type, label, now⟩ else none
  | createAgentNamed id' typeName label now =>
    match AgentType.ofName typeName with
    | .ok type => if id' = id then some ⟨type, label, now⟩ else none
    | .error _ => none
  | _ => none

theorem AgentStore.get?_create (s : AgentStore) (id other : AgentId) (type : AgentType) (label : String)
    (now : Timestamp) : (s.create id type label now).1.get? other
      = if id = other then some (Agent.new s.settings id type label now) else s.get? other := by
  have htext : id.text = other.text ↔ id = other := by
    cases id
    cases other
    simp
  simp only [create, put, get?, Std.ExtTreeMap.getElem?_insert, Std.compare_eq_iff_eq, Agent.new, htext]

namespace Engine

/-- The engine after an event; what is refused changes nothing. -/
def step (e : Engine) : EngineEvent → Engine
  | .registerTool h => (e.registerTool h).toOption.getD e
  | .registerPlugin h => (e.registerPlugin h).toOption.getD e
  | .registerDefaultTools world root => (e.registerDefaultTools world root).1
  | .registerDefaultPlugins => e.registerDefaultPlugins.1
  | .createAgent id type label now => (e.createAgent id type label now).1
  | .createAgentNamed id typeName label now =>
    ((e.createAgentNamed id typeName label now).toOption.map Prod.fst).getD e
  | .start now => (e.start now).1
  | .refresh now => (e.refresh now).1
  | .introspect world root coherence novelty =>
    ((e.introspect world root coherence novelty).toOption.map Prod.fst).getD e
  | .execute t agent o now => (e.execute t agent o now).engine

def run (e : Engine) (es : List EngineEvent) : Engine :=
  es.foldl step e

/-- The events of a run, each with the engine that it meets. -/
def trace (e : Engine) : List EngineEvent → List (Engine × EngineEvent)
  | [] => []
  | event :: es => (e, event) :: (e.step event).trace es

/-- The task that an agent completes with an event. -/
def completion? (id : AgentId) : Engine × EngineEvent → Option Completion
  | (e, .execute t agent o now) =>
    if agent = id ∧ (e.execute t agent o now).result.isCompleted then
      some ⟨t, (e.execute t agent o now).result.output, now⟩
    else none
  | _ => none

/-- The latest creation of the agent with an id. -/
def birthIn? (es : List EngineEvent) (id : AgentId) : Option Birth :=
  es.reverse.findSome? (EngineEvent.birth? id)

/-- The tasks that an agent has completed since its latest creation, in order. -/
def completedBy (e : Engine) (id : AgentId) (es : List EngineEvent) : List Completion :=
  ((e.trace es).rtakeWhile fun p => (p.2.birth? id).isNone).filterMap (completion? id)

/-! ### One more event -/

theorem run_concat (e : Engine) (es : List EngineEvent) (event : EngineEvent) :
    e.run (es ++ [event]) = (e.run es).step event := by
  simp [run]

theorem trace_concat (e : Engine) (es : List EngineEvent) (event : EngineEvent) :
    e.trace (es ++ [event]) = e.trace es ++ [(e.run es, event)] := by
  induction es generalizing e with
  | nil => rfl
  | cons first es ih => exact congrArg ((e, first) :: ·) (ih (e.step first))

theorem birthIn?_concat (es : List EngineEvent) (event : EngineEvent) (id : AgentId) :
    birthIn? (es ++ [event]) id = (event.birth? id).or (birthIn? es id) := by
  rw [birthIn?, List.reverse_append, List.reverse_singleton, List.singleton_append, List.findSome?_cons]
  cases event.birth? id <;> rfl

theorem completedBy_concat (e : Engine) (id : AgentId) (es : List EngineEvent) (event : EngineEvent) :
    e.completedBy id (es ++ [event]) = if (event.birth? id).isNone
      then e.completedBy id es ++ (completion? id (e.run es, event)).toList else [] := by
  rw [completedBy, trace_concat, List.rtakeWhile_concat]
  split
  · rw [List.filterMap_append, completedBy]
    cases hcompletion : completion? id (e.run es, event) <;> simp [hcompletion]
  · rfl

/-! ### What an event does to an agent -/

/-- An execution either commits a completed task to its agent, or changes no agent. -/
theorem agents_execute (e : Engine) (t : Task) (agent : AgentId) (o : ExecutionOptions) (now : Timestamp) :
    ((e.execute t agent o now).result.isCompleted = true ∧ (e.execute t agent o now).engine.agents
        = e.agents.update agent fun s => s.commit t (e.execute t agent o now).result.output now) ∨
      ((e.execute t agent o now).result.isCompleted = false ∧
        (e.execute t agent o now).engine.agents = e.agents) := by
  by_cases hreach : e.Reaches t agent
  · obtain ⟨a, -, hrun⟩ := execute_of_reaches o now hreach
    cases hout : e.output { t with status := .running } a o with
    | ok s =>
      rw [hout, finish_ok _ _ _ _ _ rfl] at hrun
      rw [hrun]
      exact .inl ⟨rfl, rfl⟩
    | error err =>
      rw [hout, finish_error _ _ _ _ _ rfl] at hrun
      rw [hrun]
      exact .inr ⟨rfl, rfl⟩
  · obtain ⟨err, hrun⟩ := execute_of_not_reaches o now hreach
    rw [hrun]
    exact .inr ⟨rfl, rfl⟩

/-- Only creations and executions touch the agents. -/
private theorem agents_step (e : Engine) (event : EngineEvent) :
    (e.step event).agents = match event with
      | .createAgent id type label now => (e.agents.create id type label now).1
      | .createAgentNamed id typeName label now =>
        match AgentType.ofName typeName with
        | .ok type => (e.agents.create id type label now).1
        | .error _ => e.agents
      | .execute t agent o now => (e.execute t agent o now).engine.agents
      | _ => e.agents := by
  cases event with
  | registerTool h =>
    simp only [step, registerTool]
    cases e.tools.register h <;> rfl
  | registerPlugin h =>
    simp only [step, registerPlugin]
    cases e.plugins.register h <;> rfl
  | createAgentNamed id typeName label now =>
    simp only [step, createAgentNamed]
    cases AgentType.ofName typeName <;> rfl
  | introspect world root coherence novelty =>
    simp only [step, introspect]
    cases Weights.new coherence novelty with
    | error err => rfl
    | ok weights =>
      cases hscan : e.scanner.scan world root weights with
      | error err =>
        simp only [bind, Except.bind, hscan]
        rfl
      | ok snapshot =>
        simp only [bind, Except.bind, hscan]
        rfl
  | _ => rfl

private theorem settings_step (e : Engine) (event : EngineEvent) :
    (e.step event).agents.settings = e.agents.settings := by
  rw [agents_step]
  split
  · rfl
  · split <;> rfl
  · rename_i t agent o now
    rcases agents_execute e t agent o now with ⟨-, hagents⟩ | ⟨-, hagents⟩
    · rw [hagents]
      rfl
    · rw [hagents]
  · rfl

/-- The agent after an event: a new one, or the old one with one more task that it has completed. -/
private theorem get?_step (e : Engine) (event : EngineEvent) (id : AgentId) :
    (e.step event).agents.get? id =
      ((event.birth? id).map fun b => b.agent e.agents.settings id []).or
        ((e.agents.get? id).map fun a => { a with
          state := ((completion? id (e, event)).map fun c =>
            a.state.commit c.task c.output c.time).getD a.state }) := by
  have hcreate : ∀ id' type label now, (e.agents.create id' type label now).1.get? id
      = ((if id' = id then some ⟨type, label, now⟩ else none : Option Birth).map fun b =>
          b.agent e.agents.settings id []).or (e.agents.get? id) := by
    intro id' type label now
    rw [AgentStore.get?_create]
    split
    · rename_i hid
      rw [hid, Option.map_some, Birth.agent_nil]
      rfl
    · rfl
  rw [agents_step]
  cases event with
  | createAgent id' type label now => simpa [EngineEvent.birth?, completion?] using hcreate id' type label now
  | createAgentNamed id' typeName label now =>
    cases htype : AgentType.ofName typeName with
    | ok type => simpa [EngineEvent.birth?, completion?, htype] using hcreate id' type label now
    | error err => simp [EngineEvent.birth?, completion?, htype]
  | execute t agent o now =>
    simp only [EngineEvent.birth?, completion?, Option.map_none, Option.none_or]
    by_cases hagent : agent = id
    · subst hagent
      rcases agents_execute e t agent o now with ⟨hcompleted, hagents⟩ | ⟨hcompleted, hagents⟩
      · rw [hagents, AgentStore.get?_update]
        simp [hcompleted]
      · rw [hagents]
        simp [hcompleted]
    · have hother : (e.execute t agent o now).engine.agents.get? id = e.agents.get? id := by
        rcases agents_execute e t agent o now with ⟨-, hagents⟩ | ⟨-, hagents⟩
        · rw [hagents]
          exact AgentStore.get?_update_of_ne _ _ (Ne.symm hagent)
        · rw [hagents]
      simp [hother, hagent]
  | _ => simp [EngineEvent.birth?, completion?]

/-! ### Runs -/

private theorem Birth.agent_concat (b : Birth) (settings : AgentSettings) (id : AgentId) (cs : List Completion)
    (c : Option Completion) :
    ({ b.agent settings id cs with
      state := (c.map fun c => (b.agent settings id cs).state.commit c.task c.output c.time).getD
        (b.agent settings id cs).state } : Agent) = b.agent settings id (cs ++ c.toList) := by
  cases c with
  | none => simp
  | some c => simp [Birth.agent, AgentState.commit_recalled]

private theorem settings_run (e : Engine) (es : List EngineEvent) :
    (e.run es).agents.settings = e.agents.settings :=
  List.foldlRecOn (motive := fun e' : Engine => e'.agents.settings = e.agents.settings) _ _ rfl
    fun e' he' event _ => (settings_step e' event).trans he'

/-- At the end of a run an agent is as it was created, with what it recalls of its own completed tasks. -/
theorem get?_run {e : Engine} {settings : AgentSettings} (he : e.agents = .new settings)
    (es : List EngineEvent) (id : AgentId) :
    (e.run es).agents.get? id
      = (birthIn? es id).map fun b => b.agent settings id (e.completedBy id es) := by
  induction es using List.reverseRecOn with
  | nil => simp [run, he, birthIn?, AgentStore.new, AgentStore.get?]
  | append_singleton es event ih =>
    have hsettings : (e.run es).agents.settings = settings := by
      rw [settings_run, he]
      rfl
    rw [run_concat, get?_step, hsettings, ih, birthIn?_concat, completedBy_concat]
    cases event.birth? id with
    | some b => rfl
    | none =>
      simp only [Option.map_none, Option.none_or, Option.isNone_none, if_true, Option.map_map]
      congr 1
      funext b
      exact Birth.agent_concat b settings id _ _

/-! ### What a handler is told -/

/-- What becomes of the answer to a task. -/
def conclude (e : Engine) (t : Task) (o : ExecutionOptions) :
    Option (Except Error String) → Except Error String
  | none => .error (timeoutError (o.deadline.getD e.settings.execution.timeout))
  | some (.error err) => .error err
  | some (.ok s) =>
    if Text.isBlankText s then .error (.handler (e.handlerLabel t) "handler returned empty output") else .ok s

theorem output_eq (e : Engine) (t : Task) (a : Agent) {o : ExecutionOptions} (ho : o.cancelled = false) :
    e.output t a o = e.conclude t o (e.dispatch t (e.request t a)) := by
  rw [output, ho, if_neg Bool.false_ne_true]
  cases e.dispatch t (e.request t a) with
  | none => rfl
  | some answer => cases answer <;> rfl

/-- The handler that a task asks for by name, and that is there for it: an enabled tool or a plugin. -/
inductive Selects (e : Engine) (t : Task) (name : String) (h : Handler) : Prop where
  | tool (htype : t.type = .toolCall) (hname : t.parameters.getText "tool_name" = .ok name)
      (hfound : e.tools.get? name = some h) (henabled : h.enabled = true)
  | plugin (htype : t.type = .plugin) (hname : t.parameters.getText "plugin_name" = .ok name)
      (hfound : e.plugins.get? name = some h)

/-- A handler is given the request as it is, and answers for the task. -/
theorem dispatch_of_selects {e : Engine} {t : Task} {name : String} {h : Handler} (hselects : e.Selects t name h)
    (q : Request) : e.dispatch t q = (h.run q t.parameters).map fun r => r.output name := by
  cases hselects with
  | tool htype hname hfound henabled =>
    have hfind : e.tools.find name = .ok h := by rw [Registry.find, hfound]
    rw [dispatch, htype]
    simp only [runTool, hname, hfind, henabled, if_true]
  | plugin htype hname hfound =>
    have hfind : e.plugins.find name = .ok h := by rw [Registry.find, hfound]
    rw [dispatch, htype]
    simp only [runPlugin, hname, hfind]

/-- What an agent that has completed tasks tells a handler about a task. -/
def requestAfter (settings : AgentSettings) (b : Birth) (id : AgentId) (cs : List Completion) (t : Task) :
    Request where
  agent := id
  agentName := b.type.name ++ "-" ++ b.label
  task := t.id
  input := t.input
  recent :=
    let items := (AgentState.recalled settings cs).context.items
    (items.rtake (min settings.handlerItems items.length)).map (·.content)

private theorem request_agent {e : Engine} {settings : AgentSettings} (he : e.agents.settings = settings)
    (b : Birth) (id : AgentId) (cs : List Completion) (t : Task) :
    e.request t (b.agent settings id cs) = requestAfter settings b id cs t := by
  rw [request, ContextWindow.recent_eq, he]
  rfl

/-- All that settings leave open in a new engine is how its scanner reads them. -/
theorem eq_of_withBackend {settings : Settings} {backend : Backend} {e : Engine}
    (h : withBackend settings backend = .ok e) : ∃ scanner, e = {
      settings, scanner, backend
      tools := .empty .tool
      plugins := .empty .plugin
      agents := .new settings.agents
      tracker := .new settings.cognition settings.graph } := by
  unfold withBackend at h
  cases hvalid : settings.validate with
  | error err =>
    rw [hvalid] at h
    cases h
  | ok =>
    cases hscanner : Scanner.new settings.introspection with
    | error err =>
      rw [hvalid, hscanner] at h
      cases h
    | ok scanner =>
      rw [hvalid, hscanner] at h
      cases h
      exact ⟨scanner, rfl⟩

/-- A new engine has no agents. -/
theorem agents_withBackend {settings : Settings} {backend : Backend} {e : Engine}
    (h : withBackend settings backend = .ok e) : e.agents = .new settings.agents := by
  obtain ⟨scanner, rfl⟩ := eq_of_withBackend h
  rfl

/-- At the end of a run that starts without agents, an agent is as it was created, and its state is what it
recalls of its own completed tasks.  It has interacted if there are any, and has counted all items that had to go, up
to what 64 bits can count.  What is told of the context is the end of what is recalled of it, and the tool or plugin
that a task selects is told just that. -/
theorem recalls_run (settings : AgentSettings) (e : Engine) (he : e.agents = .new settings)
    (es : List EngineEvent) (id : AgentId) :
    (e.run es).agents.get? id
      = (birthIn? es id).map (fun b => b.agent settings id (e.completedBy id es)) ∧
    ((AgentState.recalled settings (e.completedBy id es)).lastInteraction.isSome ↔
      0 < (e.completedBy id es).length) ∧
    (2 * (e.completedBy id es).length < UInt64.size →
      (AgentState.recalled settings (e.completedBy id es)).context.evicted
        = 2 * (e.completedBy id es).length - max settings.contextCapacity 1) ∧
    ∀ b, birthIn? es id = some b → ∀ (t : Task) (o : ExecutionOptions) (now : Timestamp),
      t.status = .pending → t.agent = id → o.cancelled = false →
        (e.run es).execute t id o now = (e.run es).finish { t with status := .running }
          (b.agent settings id (e.completedBy id es)) id now
          ((e.run es).conclude { t with status := .running } o ((e.run es).dispatch
            { t with status := .running } (requestAfter settings b id (e.completedBy id es) t))) ∧
        ∀ name h, (e.run es).Selects t name h →
          (e.run es).dispatch { t with status := .running } (requestAfter settings b id (e.completedBy id es) t)
            = (h.run (requestAfter settings b id (e.completedBy id es) t) t.parameters).map
                fun r => r.output name := by
  have hget := get?_run he es id
  refine ⟨hget, AgentState.isSome_lastInteraction_recalled settings _, AgentState.evicted_recalled settings, ?_⟩
  intro b hb t o now hpending hagent ho
  rw [hb, Option.map_some] at hget
  have hreach : (e.run es).Reaches t id := ⟨hpending, hagent, by rw [hget]; rfl⟩
  obtain ⟨a, ha, hexecute⟩ := execute_of_reaches o now hreach
  rw [hget] at ha
  cases ha
  have hsettings : (e.run es).agents.settings = settings := by
    rw [settings_run, he]
    rfl
  refine ⟨?_, fun name h hselects => ?_⟩
  · rw [hexecute, output_eq _ _ _ ho, request_agent hsettings]
    rfl
  · -- a task selects the same when it is running
    have hrunning : (e.run es).Selects { t with status := .running } name h := by
      cases hselects with
      | tool htype hname hfound henabled => exact .tool htype hname hfound henabled
      | plugin htype hname hfound => exact .plugin htype hname hfound
    exact dispatch_of_selects hrunning _

/-! ### A run of one agent -/

/-- A tool that answers with what an agent has talked about lately. -/
def sampleTool : Handler where
  name := "recall"
  description := ""
  operations := []
  schema := none
  readOnly := true
  enabled := true
  run q _ := some (.text (", ".intercalate q.recent))

def sampleEvents : List EngineEvent :=
  [.registerTool sampleTool, .createAgent ⟨"agent-1"⟩ .general "reader" ⟨0, 0⟩,
    .execute (.new "task-1" .analyze "read" ⟨"agent-1"⟩) ⟨"agent-1"⟩ ⟨none, false⟩ ⟨1, 0⟩,
    .execute (.new "task-2" .analyze " " ⟨"agent-1"⟩) ⟨"agent-1"⟩ ⟨none, false⟩ ⟨2, 0⟩]

/-- A task that asks the tool. -/
def sampleQuestion : Task :=
  (Task.new "task-3" .toolCall "" ⟨"agent-1"⟩).withParameter "tool_name" (.text "recall")

/-- The agent completes the first task only, since the output of the second one is blank.  So the tool is told of the
input and the output of the first one. -/
theorem recalls_run_sampleEvents :
    (sampleEngine.run sampleEvents).agents.get? ⟨"agent-1"⟩
      = some ((⟨.general, "reader", ⟨0, 0⟩⟩ : Birth).agent .standard ⟨"agent-1"⟩
          [⟨.new "task-1" .analyze "read" ⟨"agent-1"⟩, "read", ⟨1, 0⟩⟩]) ∧
    (sampleEngine.run sampleEvents).Selects sampleQuestion "recall" sampleTool ∧
    ((sampleEngine.run sampleEvents).execute sampleQuestion ⟨"agent-1"⟩ ⟨none, false⟩ ⟨3, 0⟩).result
      = .completed "task-3" "read, read" := by
  have hcompleted : sampleEngine.completedBy ⟨"agent-1"⟩ sampleEvents
      = [⟨.new "task-1" .analyze "read" ⟨"agent-1"⟩, "read", ⟨1, 0⟩⟩] := rfl
  have hselects : (sampleEngine.run sampleEvents).Selects sampleQuestion "recall" sampleTool := .tool rfl rfl rfl rfl
  obtain ⟨hrun, -, -, hexecutes⟩ := recalls_run .standard sampleEngine rfl sampleEvents ⟨"agent-1"⟩
  obtain ⟨hexecute, htold⟩ := hexecutes _ rfl sampleQuestion ⟨none, false⟩ ⟨3, 0⟩ rfl rfl rfl
  rw [hcompleted] at hrun hexecute htold
  rw [htold "recall" sampleTool hselects] at hexecute
  refine ⟨hrun, hselects, ?_⟩
  rw [hexecute]
  rfl

end Engine

end EchoEngine
