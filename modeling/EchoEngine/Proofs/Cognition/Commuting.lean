import EchoEngine.Proofs.Cognition.History
import EchoEngine.Proofs.Memory.Commuting

/-!
# Outcomes and introspections in either order

Recording an outcome and folding a snapshot keep different things, except for the graph and for its size
in the state.  The graph is the same in either order, so the whole tracker is, and the fold reports the
same (`fold_record_run`).
-/

namespace EchoEngine

variable {α : Type}

/-- The root of a folded snapshot starts with a slash. -/
def TrackerEvent.Rooted : TrackerEvent α → Prop
  | fold s => IsPath s.root
  | _ => True

theorem TrackerEvent.rooted_memoriesIn {es : List (TrackerEvent α)} (hes : ∀ e ∈ es, e.Rooted) :
    ∀ e ∈ memoriesIn es, e.Rooted := by
  intro m hm
  obtain ⟨e, he, hem⟩ := List.mem_filterMap.1 hm
  cases m with
  | record agent task summary => trivial
  | fold s =>
    obtain rfl : e = .fold s := by
      cases e with
      | fold s' => simpa [memory?] using hem
      | record o => simp [memory?] at hem
      | start _ _ => simp [memory?] at hem
      | refresh _ _ => simp [memory?] at hem
    exact hes _ he

namespace Tracker

variable [Scalar α]

/-- Where the graph is the same in either order, the tracker is. -/
private theorem fold_record_of_graph {t : Tracker α} {o : Outcome} {s : Snapshot α}
    (h : ((t.graph.record o.agent o.task o.summary).graph.fold (.ofSnapshot s)).graph
        = ((t.graph.fold (.ofSnapshot s)).graph.record o.agent o.task o.summary).graph ∧
      ((t.graph.record o.agent o.task o.summary).graph.fold (.ofSnapshot s)).created
        = (t.graph.fold (.ofSnapshot s)).created) :
    (t.record o).fold s = ((t.fold s).1.record o, (t.fold s).2) := by
  obtain ⟨hgraph, hcreated⟩ := h
  cases hcompleted : o.completed with
  | false => simp [Tracker.record, Tracker.fold, publish, hcompleted]
  | true => simp [Tracker.record, Tracker.fold, publish, hcompleted, hgraph, hcreated]

/-- An outcome and an introspection leave the same tracker in either order, and the introspection reports
the same.  The roots of snapshots start with a slash, as those of all scanned trees do. -/
theorem fold_record_run (settings : CognitionSettings) (graph : GraphSettings)
    (es : List (TrackerEvent α)) (hes : ∀ e ∈ es, e.Rooted) (o : Outcome) (s : Snapshot α)
    (hs : IsPath s.root) :
    ((run settings graph es).record o).fold s
      = (((run settings graph es).fold s).1.record o, ((run settings graph es).fold s).2) := by
  have hmemories := TrackerEvent.rooted_memoriesIn hes
  apply fold_record_of_graph
  rw [graph_run]
  exact MemoryGraph.fold_record (MemoryGraph.sound_replay graph hmemories)
    (MemoryGraph.apart_replay graph hmemories) (MemoryGraph.partnered_replay graph hmemories).1
    (FoldPlan.closed_ofSnapshot s hs) o.agent o.task o.summary

/-! ### A run with room for one memory -/

def sampleOutcome (task : String) : Outcome :=
  ⟨⟨"agent-1"⟩, task, .analyze, true, "parse the tree"⟩

def sampleHistory : List (TrackerEvent Float) :=
  [.start [] ⟨0, 0⟩, .record (sampleOutcome "task-1"),
    .fold (MemoryGraph.sampleTree [("src/parse_tree.rs", 0.5)])]

/-- The second outcome drops the memory of the first one. -/
theorem fold_record_run_sampleHistory :
    ((run .standard ⟨true, true, 1, 8, 1⟩ sampleHistory).record (sampleOutcome "task-2")).fold
        (MemoryGraph.sampleTree [("src/print_tree.rs", 0.25)])
      = (((run .standard ⟨true, true, 1, 8, 1⟩ sampleHistory).fold
            (MemoryGraph.sampleTree [("src/print_tree.rs", 0.25)])).1.record (sampleOutcome "task-2"),
          ((run .standard ⟨true, true, 1, 8, 1⟩ sampleHistory).fold
            (MemoryGraph.sampleTree [("src/print_tree.rs", 0.25)])).2) := by
  have hrooted : ∀ e ∈ sampleHistory, e.Rooted := by
    simp [sampleHistory, TrackerEvent.Rooted, MemoryGraph.sampleTree, IsPath]
  exact fold_record_run .standard ⟨true, true, 1, 8, 1⟩ sampleHistory hrooted (sampleOutcome "task-2") _ rfl

end Tracker

end EchoEngine
