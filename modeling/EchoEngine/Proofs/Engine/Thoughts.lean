import EchoEngine.Proofs.Cognition.Backend
import EchoEngine.Proofs.Cognition.History
import EchoEngine.Proofs.Engine.Runs

/-!
# Thoughts

An engine that analyzes in its own process thinks once with each reflection and each analysis that it completes.
Which tasks these are is known from their input and two of their parameters alone (`Backend.Accepts`): any other
reflection or analysis that gets as far as its handler fails with its first fault (`Backend.Refuses`), and a blank
output is never what it fails with (`thinks_execute`).
-/

namespace EchoEngine.Engine

/-- What an execution of a reflection or an analysis leaves behind. -/
structure Thinks (e : Engine) (t : Task) (x : Execution) : Prop where
  completed_iff : x.result.isCompleted = true ↔ Backend.Accepts t.input t.parameters
  /-- A task that does not complete fails with its first fault. -/
  refused : x.result.isCompleted = false →
    ∃ err, Backend.Refuses t.input t.parameters err ∧ x.result = ⟨t.id, .failed, "", some (.ofError err)⟩
  not_handler : ∀ failure, x.result.failure = some failure → failure.kind ≠ .handler
  thoughts : x.engine.tracker.state.thoughts
    = e.tracker.state.thoughts + if x.result.isCompleted then 1 else 0

variable {e : Engine} {t : Task} {o : ExecutionOptions} {err : Error}

/-! ### The output -/

/-- A reflection says no less than the analysis in it. -/
theorem isBlankText_reflection {analysis : String} (h : Text.isBlankText analysis = false) :
    Text.isBlankText (e.tracker.reflection analysis) = false := by
  unfold Tracker.reflection
  repeat rw [Text.isBlankText_append]
  rw [h]
  simp only [Bool.false_and]

/-- What the local backend makes of the input is the answer, or the start of it. -/
theorem dispatch_localEcho (hbackend : e.backend = .localEcho) (htype : t.type.isCognitive = true) (q : Request) :
    e.dispatch t q = some ((Backend.analyzeLocally t.input t.parameters).map
      (if t.type = .reflect then e.tracker.reflection else id)) := by
  unfold dispatch
  rw [hbackend]
  cases hkind : t.type with
  | reflect => rfl
  | analyze => exact congrArg some (id_map (Backend.analyzeLocally t.input t.parameters)).symm
  | plugin | toolCall =>
    rw [hkind] at htype
    cases htype

theorem output_of_accepts (hbackend : e.backend = .localEcho) (htype : t.type.isCognitive = true)
    (ho : o.cancelled = false) (h : Backend.Accepts t.input t.parameters) (a : Agent) :
    ∃ s, e.output t a o = .ok s := by
  obtain ⟨depth, scope, hok⟩ := Backend.analyzeLocally_of_accepts h
  have hsummary := Backend.isBlankText_summarize t.input depth scope
  rw [output_eq e t a ho, dispatch_localEcho hbackend htype, hok]
  refine ⟨_, if_neg ?_⟩
  rw [Bool.not_eq_true]
  split
  · exact isBlankText_reflection hsummary
  · exact hsummary

theorem output_of_refuses (hbackend : e.backend = .localEcho) (htype : t.type.isCognitive = true)
    (ho : o.cancelled = false) (h : Backend.Refuses t.input t.parameters err) (a : Agent) :
    e.output t a o = .error err := by
  rw [output_eq e t a ho, dispatch_localEcho hbackend htype, Backend.analyzeLocally_of_refuses h]
  rfl

/-! ### The execution -/

/-- A pending reflection or analysis that is given to its own stored agent and not called off, completes if the local
backend accepts its input and parameters, and then it is one thought.  Otherwise it fails with its first fault and is
no thought.  This backend always answers, so that no deadline passes. -/
theorem thinks_execute (e : Engine) (hbackend : e.backend = .localEcho) (t : Task) (hpending : t.status = .pending)
    (htype : t.type = .reflect ∨ t.type = .analyze) (hstored : (e.agents.get? t.agent).isSome)
    (o : ExecutionOptions) (ho : o.cancelled = false) (now : Timestamp) :
    e.Thinks t (e.execute t t.agent o now) := by
  have hcognitive : t.type.isCognitive = true := by rcases htype with h | h <;> rw [h] <;> rfl
  obtain ⟨a, -, hrun⟩ := execute_of_reaches o now ⟨hpending, rfl, hstored⟩
  rcases Backend.accepts_or_refuses t.input t.parameters with haccepts | ⟨err, hrefuses⟩
  · obtain ⟨s, hs⟩ := output_of_accepts (t := { t with status := .running }) hbackend hcognitive ho haccepts a
    rw [hs, finish_ok _ _ _ _ _ rfl] at hrun
    rw [hrun]
    exact {
      completed_iff := iff_of_true rfl haccepts
      refused := nofun
      not_handler := nofun
      thoughts := by
        refine (Tracker.thoughts_record _ _).trans ?_
        simp only [hcognitive]
        rfl }
  · have herr := output_of_refuses (t := { t with status := .running }) hbackend hcognitive ho hrefuses a
    rw [herr, finish_error _ _ _ _ _ rfl] at hrun
    rw [hrun]
    exact {
      completed_iff := iff_of_false nofun hrefuses.not_accepts
      refused := fun _ => ⟨err, hrefuses, rfl⟩
      not_handler := by
        rintro failure ⟨⟩
        exact hrefuses.kind_ne_handler
      thoughts := Tracker.thoughts_record _ _ }

/-- An engine that analyzes in its own process, with one agent. -/
def sampleThinker : Engine :=
  (({ sampleEngine with backend := .localEcho } : Engine).createAgent ⟨"agent-1"⟩ .general "thinker" ⟨0, 0⟩).1

/-- A reflection of that agent on a text without terms and sentences. -/
def sampleThought (p : Parameters) : Task :=
  { Task.new "task-1" .reflect "?!" ⟨"agent-1"⟩ with parameters := p }

def sampleDeep : Parameters :=
  .insert .empty "depth_level" (.text "deep")

/-- A depth and a scope that are no texts. -/
def sampleFaulty : Parameters :=
  .insert (.insert .empty "depth_level" .null) "analysis_scope" (.int 3)

def sampleThinking (p : Parameters) : Execution :=
  sampleThinker.execute (sampleThought p) ⟨"agent-1"⟩ ⟨none, false⟩ ⟨1, 0⟩

/-- A deep reflection is one thought.  A depth that is null is a fault, and the scope behind it goes unblamed. -/
theorem thinks_execute_sampleThought :
    (sampleThinker.agents.get? ⟨"agent-1"⟩).isSome ∧
    (sampleThinking sampleDeep).result.isCompleted = true ∧
    (sampleThinking sampleDeep).engine.tracker.state.thoughts = 1 ∧
    (sampleThinking sampleFaulty).result.failure =
      some (.ofError (.parameterType "depth_level" "string" "null")) ∧
    (sampleThinking sampleFaulty).engine.tracker.state.thoughts = 0 := by
  have hstored : (sampleThinker.agents.get? ⟨"agent-1"⟩).isSome := by
    have hcreated := AgentStore.get?_create sampleEngine.agents ⟨"agent-1"⟩ ⟨"agent-1"⟩ .general "thinker" ⟨0, 0⟩
    rw [if_pos rfl] at hcreated
    exact Option.isSome_of_eq_some hcreated
  have hthinks (p : Parameters) : sampleThinker.Thinks (sampleThought p) (sampleThinking p) :=
    thinks_execute sampleThinker rfl (sampleThought p) rfl (.inl rfl) hstored ⟨none, false⟩ rfl ⟨1, 0⟩
  have hdeep := hthinks sampleDeep
  have hnull := hthinks sampleFaulty
  have hvisible : Backend.Visible "?!" := ⟨'?', by decide, by decide⟩
  have hcompleted := hdeep.completed_iff.2 ⟨hvisible, .inr ⟨"deep", by decide, rfl⟩, .inl rfl⟩
  have hrefuses : Backend.Refuses "?!" sampleFaulty (.parameterType "depth_level" "string" "null") :=
    .depthKind (v := .null) hvisible rfl fun _ => nofun
  have hfailed := Bool.eq_false_iff.2 (mt hnull.completed_iff.1 hrefuses.not_accepts)
  refine ⟨hstored, hcompleted, ?_, ?_, ?_⟩
  · rw [hdeep.thoughts, hcompleted]
    rfl
  · obtain ⟨err, herr, hresult⟩ := hnull.refused hfailed
    rw [hresult, hrefuses.unique herr]
  · rw [hnull.thoughts, hfailed]
    rfl

end EchoEngine.Engine
