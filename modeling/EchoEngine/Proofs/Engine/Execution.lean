import EchoEngine.Engine.Execution
import EchoEngine.Proofs.Agent.Recall
import EchoEngine.Proofs.Cognition.History

/-!
# Executions are all or nothing

A task reaches a handler of an engine if it is pending, meant for the agent it is given to, and that
agent is stored. An execution of such a task ends in one of two ways: it completes, the agent commits
the output and one completed outcome is recorded (`CompletesWith`), or it fails and only one failed
outcome is recorded (`FailsWith`). A task that reaches no handler fails and leaves the engine as it
was. The moves between statuses that an execution makes on its way are never refused.

What one commit adds to the state of an agent is two items of context and one memory (`Committed`), and what one
record adds to the tracker is one outcome, in the window and in the tally of the agent (`Recorded`).
-/

namespace EchoEngine

namespace Engine

/-- Whether a task given to an agent gets as far as running. -/
def Reaches (e : Engine) (t : Task) (agent : AgentId) : Prop :=
  t.status = .pending ∧ t.agent = agent ∧ (e.agents.get? agent).isSome

/-- The state of an agent has one more task in its context and in its memory. -/
structure Committed (s : AgentState) (c : Completion) (s' : AgentState) : Prop where
  /-- Input and output are the newest items of the context. -/
  items : s'.context.items = (s.context.items ++ c.items).rtake (s.context.lengthAfter 2)
  memory : s'.memory = match s.memoryCapacity with
    | some n => (s.memory ++ [c.entry]).rtake (max n 1)
    | none => s.memory ++ [c.entry]
  lastInteraction : s'.lastInteraction = some c.time

/-- The tracker has one more outcome of an agent. -/
structure Recorded (t : Tracker Float) (agent : AgentId) (completed : Bool) (t' : Tracker Float) : Prop where
  /-- The oldest outcome goes if the window is full. -/
  outcomes : t'.outcomes = t.outcomes.drop (if t.settings.outcomeWindow ≤ t.outcomes.length then 1 else 0) ++ [completed]
  tally : ∃ successes failures, t.tallies[agent.text]?.getD ⟨0, 0⟩ = ⟨successes, failures⟩ ∧
    t'.tallies[agent.text]? = some (if completed then ⟨successes + 1, failures⟩ else ⟨successes, failures + 1⟩)
  tallies : ∀ other, other ≠ agent.text → t'.tallies[other]? = t.tallies[other]?
  completed : t'.completed = t.completed + if completed then 1 else 0

/-- What an execution that completes with an output leaves behind. -/
structure CompletesWith (e : Engine) (t : Task) (agent : AgentId) (now : Timestamp) (output : String)
    (x : Execution) : Prop where
  result : x.result = ⟨t.id, .completed, output, none⟩
  visible : ∃ c ∈ output.toList, ¬Text.isBlank c
  task : x.task = { t with status := .completed }
  reached : e.Reaches t agent
  /-- The state of the agent is the old one after one commit, and one completed outcome is recorded. -/
  engine : ∃ a, e.agents.get? agent = some a ∧
    x.engine.agents.get? agent = some { a with state := a.state.commit t output now } ∧
    Committed a.state ⟨t, output, now⟩ (a.state.commit t output now) ∧
    Recorded e.tracker a.id true x.engine.tracker ∧
    x.engine = { e with
      agents := e.agents.update agent fun s => s.commit t output now
      tracker := e.tracker.record ⟨a.id, t.id, t.type, true, t.input ++ " " ++ output⟩ }

/-- What an execution that fails with an error leaves behind. -/
structure FailsWith (e : Engine) (t : Task) (agent : AgentId) (err : Error) (x : Execution) : Prop where
  result : x.result = ⟨t.id, .failed, "", some (.ofError err)⟩
  task : x.task = { t with status := if t.status = .pending then .failed else t.status }
  /-- No stored agent changes. -/
  agents : x.engine.agents = e.agents
  graph : x.engine.tracker.graph = e.tracker.graph
  thoughts : x.engine.tracker.state.thoughts = e.tracker.state.thoughts
  /-- A failed outcome is recorded for a task that has been running. -/
  recorded : e.Reaches t agent → ∃ a, e.agents.get? agent = some a ∧
    Recorded e.tracker a.id false x.engine.tracker ∧
    x.engine = { e with tracker := e.tracker.record ⟨a.id, t.id, t.type, false, ""⟩ }
  /-- For any other task the engine stays as it was. -/
  unrecorded : ¬e.Reaches t agent → x.engine = e

/-! ### What is added -/

theorem committed_commit (s : AgentState) (t : Task) (output : String) (now : Timestamp) :
    Committed s ⟨t, output, now⟩ (s.commit t output now) where
  items := by
    have hpushed : (s.commit t output now).context = s.context.pushAll (Completion.items ⟨t, output, now⟩) := rfl
    rw [hpushed, ContextWindow.pushAll_eq]
    rfl
  memory := by
    unfold AgentState.commit AgentState.keepNewest
    cases s.memoryCapacity <;> rfl
  lastInteraction := rfl

theorem recorded_record (t : Tracker Float) (o : Outcome) : Recorded t o.agent o.completed (t.record o) := by
  obtain ⟨-, houtcomes, htallies, -⟩ := Tracker.record_kept t o
  constructor
  case outcomes =>
    rw [houtcomes, Tracker.remember]
    split <;> rfl
  case tally =>
    rw [htallies, Std.ExtTreeMap.getElem?_insert_self]
    exact ⟨_, _, rfl, rfl⟩
  case tallies =>
    intro other hother
    rw [htallies, Std.ExtTreeMap.getElem?_insert, if_neg]
    rw [Std.compare_eq_iff_eq]
    exact Ne.symm hother
  case completed =>
    unfold Tracker.record
    dsimp only
    split <;> rfl

/-! ### The output -/

/-- The output of a task holds a character that is not white space. -/
theorem exists_visible_of_output {e : Engine} {t : Task} {a : Agent} {o : ExecutionOptions} {s : String}
    (h : e.output t a o = .ok s) : ∃ c ∈ s.toList, ¬Text.isBlank c := by
  unfold output at h
  split at h
  · cases h
  · split at h
    · cases h
    · cases h
    · split at h
      · cases h
      · rename_i hblank
        cases h
        simpa [Text.isBlankText] using hblank

/-! ### The last step -/

theorem finish_ok (e : Engine) {t : Task} (a : Agent) (agent : AgentId) (now : Timestamp)
    (s : String) (h : t.status = .running) :
    e.finish t a agent now (.ok s) = ⟨(e.commit t agent s now).report t a true (t.input ++ " " ++ s),
      { t with status := .completed }, .completed t.id s⟩ := by
  have hmove : t.moveTo .completed = .ok { t with status := .completed } :=
    Task.moveTo_of_precedes (by rw [h]; rfl)
  simp only [finish, hmove]
  rfl

theorem finish_error (e : Engine) {t : Task} (a : Agent) (agent : AgentId) (now : Timestamp)
    (err : Error) (h : t.status = .running) :
    e.finish t a agent now (.error err) =
      ⟨e.report t a false "", { t with status := .failed }, .failed t.id err⟩ := by
  have hmove : t.moveIfForward .failed = { t with status := .failed } :=
    Task.moveIfForward_of_precedes (by rw [h]; rfl)
  simp only [finish, hmove]
  rfl

/-! ### The way to the handler -/

theorem execute_of_reaches {e : Engine} {t : Task} {agent : AgentId} (o : ExecutionOptions)
    (now : Timestamp) (h : e.Reaches t agent) :
    ∃ a, e.agents.get? agent = some a ∧
      e.execute t agent o now = e.finish { t with status := .running } a agent now
        (e.output { t with status := .running } a o) := by
  obtain ⟨hpending, hagent, hstored⟩ := h
  obtain ⟨a, ha⟩ := Option.isSome_iff_exists.1 hstored
  have hfind : e.agents.find agent = .ok a := by simp [AgentStore.find, ha]
  have hmove : t.moveTo .running = .ok { t with status := .running } :=
    Task.moveTo_of_precedes (by rw [hpending]; rfl)
  refine ⟨a, ha, ?_⟩
  simp [execute, hpending, hagent, hfind, hmove]

theorem execute_of_not_reaches {e : Engine} {t : Task} {agent : AgentId} (o : ExecutionOptions)
    (now : Timestamp) (h : ¬e.Reaches t agent) :
    ∃ err, e.execute t agent o now =
      ⟨e, { t with status := if t.status = .pending then .failed else t.status }, .failed t.id err⟩ := by
  by_cases hpending : t.status = .pending
  · have hreject : ∀ err, e.reject t err = ⟨e, { t with status := .failed }, .failed t.id err⟩ := by
      intro err
      have hmove : t.moveIfForward .failed = { t with status := .failed } :=
        Task.moveIfForward_of_precedes (by rw [hpending]; rfl)
      simp [reject, hmove]
    by_cases hagent : t.agent = agent
    · have hnone : e.agents.get? agent = none := by
        rw [Option.eq_none_iff_forall_ne_some]
        intro a ha
        exact h ⟨hpending, hagent, by simp [ha]⟩
      exact ⟨.notFound "agent" agent.text, by
        simp [execute, hpending, hagent, AgentStore.find, hnone, hreject]⟩
    · exact ⟨.agentMismatch t.agent.text agent.text, by simp [execute, hpending, hagent, hreject]⟩
  · refine ⟨.invalidState ("task " ++ t.id ++ " is " ++ t.status.name
      ++ ", only pending tasks can be executed"), ?_⟩
    simp [execute, hpending]

/-- An execution completes with an output that is committed and recorded once, or fails without a
trace but for one failed outcome of a task that has been running; no other agent than the one it is
given to changes. Of the agent that a caller holds, only the id is looked at. -/
theorem execute_all_or_nothing (e : Engine) (t : Task) (held : Agent) (o : ExecutionOptions)
    (now : Timestamp) :
    ((∃ output, CompletesWith e t held.id now output (e.execute t held.id o now)) ∨
      (∃ err, FailsWith e t held.id err (e.execute t held.id o now))) ∧
    ∀ other, other ≠ held.id → (e.execute t held.id o now).engine.agents.get? other = e.agents.get? other := by
  by_cases hreach : e.Reaches t held.id
  · obtain ⟨a, ha, hrun⟩ := execute_of_reaches o now hreach
    cases hout : e.output { t with status := .running } a o with
    | ok s =>
      rw [hout, finish_ok _ _ _ _ _ rfl] at hrun
      refine ⟨.inl ⟨s, ?_⟩, ?_⟩
      · rw [hrun]
        exact {
          result := rfl
          visible := exists_visible_of_output hout
          task := rfl
          reached := hreach
          engine := ⟨a, ha, by simp [report, commit, AgentStore.get?_update, ha]; rfl,
            committed_commit a.state t s now,
            recorded_record e.tracker ⟨a.id, t.id, t.type, true, t.input ++ " " ++ s⟩, rfl⟩ }
      · intro other hother
        rw [hrun]
        exact AgentStore.get?_update_of_ne _ _ hother
    | error err =>
      rw [hout, finish_error _ _ _ _ _ rfl] at hrun
      refine ⟨.inr ⟨err, ?_⟩, ?_⟩
      · rw [hrun]
        exact {
          result := rfl
          task := by simp [hreach.1]
          agents := rfl
          graph := rfl
          thoughts := rfl
          recorded := fun _ => ⟨a, ha, recorded_record e.tracker ⟨a.id, t.id, t.type, false, ""⟩, rfl⟩
          unrecorded := fun h => absurd hreach h }
      · intro other _
        rw [hrun]
        rfl
  · obtain ⟨err, hrun⟩ := execute_of_not_reaches o now hreach
    rw [hrun]
    refine ⟨.inr ⟨err, ?_⟩, fun _ _ => rfl⟩
    exact {
      result := rfl
      task := rfl
      agents := rfl
      graph := rfl
      thoughts := rfl
      recorded := fun h => absurd h hreach
      unrecorded := fun _ => rfl }

/-! ### Two executions to look at -/

/-- An engine whose backend repeats what it is given. -/
def sampleEngine : Engine where
  settings := .standard
  scanner := ⟨.standard, []⟩
  tools := .empty .tool
  plugins := .empty .plugin
  agents := .new .standard
  tracker := .new .standard .standard
  backend := ⟨"repeat", true, fun s _ => some (.ok s)⟩

/-- Such an engine with one agent. -/
def sampleReader : Engine :=
  (sampleEngine.createAgent ⟨"agent-1"⟩ .general "reader" ⟨0, 0⟩).1

/-- An analysis by that agent. -/
def sampleAnalysis (input : String) : Task :=
  .new "task-1" .analyze input ⟨"agent-1"⟩

def sampleExecution (input : String) : Execution :=
  sampleReader.execute (sampleAnalysis input) ⟨"agent-1"⟩ ⟨none, false⟩ ⟨1, 0⟩

/-- A word is repeated, and a blank is no output. -/
theorem execute_all_or_nothing_sampleReader :
    CompletesWith sampleReader (sampleAnalysis "read") ⟨"agent-1"⟩ ⟨1, 0⟩ "read" (sampleExecution "read") ∧
      ∃ err, FailsWith sampleReader (sampleAnalysis " ") ⟨"agent-1"⟩ err (sampleExecution " ") := by
  have hends (input : String) := (execute_all_or_nothing sampleReader (sampleAnalysis input)
    (Agent.new .standard ⟨"agent-1"⟩ .general "reader" ⟨0, 0⟩) ⟨none, false⟩ ⟨1, 0⟩).1
  have hread : (sampleExecution "read").result = .completed "task-1" "read" := by decide
  have hblank : (sampleExecution " ").result.status = .failed := by decide
  constructor
  · rcases hends "read" with ⟨output, hcompletes⟩ | ⟨err, hfails⟩
    · obtain rfl : output = "read" := congrArg TaskResult.output (hcompletes.result.symm.trans hread)
      exact hcompletes
    · exact absurd (hfails.result.symm.trans hread) (by simp [TaskResult.completed])
  · rcases hends " " with ⟨output, hcompletes⟩ | hfails
    · have hcompleted : TaskStatus.completed = .failed :=
        (congrArg TaskResult.status hcompletes.result).symm.trans hblank
      exact absurd hcompleted (by decide)
    · exact hfails

end Engine

end EchoEngine
