import EchoEngine.Proofs.Cognition.Checks
import EchoEngine.Proofs.Cognition.Commuting

/-!
# The published size of memory

The state carries a copy of the size of the memory graph.  Every event leaves the copy in step with the graph
(`published_step`): a task that fails changes neither, and a start clears the state but publishes the graph that
it keeps.  The edges of a well-formed graph are pairs of its nodes, so the copy never shows more connections than
its nodes allow, and the check of it does not fail as long as the product it computes is not cut off
(`resonates_run`).
-/

namespace EchoEngine

variable {α : Type}

namespace Tracker

/-- The size that the state shows is that of the graph. -/
def Published (t : Tracker α) : Prop :=
  t.state.resonance = ⟨t.graph.nodeCount, t.graph.edgeCount, t.graph.hyperedgeCount⟩

/-- The size that the state shows is that of the graph, and its connections fit its nodes. -/
structure Resonates (t : Tracker α) : Prop where
  published : t.Published
  connections_le :
    t.state.resonance.connections ≤ t.state.resonance.nodes * (t.state.resonance.nodes - 1) / 2

private theorem Published.resonates {t : Tracker α} (h : t.Published) (hgraph : t.graph.WellFormed) :
    t.Resonates := by
  refine ⟨h, ?_⟩
  rw [h]
  exact hgraph.edgeCount_le

variable [Scalar α]

theorem published_new (settings : CognitionSettings) (graph : GraphSettings) :
    (new settings graph : Tracker α).Published := by
  simp [Published, new, fresh, State.initial, Resonance.empty, MemoryGraph.empty, MemoryGraph.nodeCount,
    MemoryGraph.hyperedgeCount]

theorem published_step {t : Tracker α} (h : t.Published) (e : TrackerEvent α) : (t.step e).Published := by
  cases e with
  | start probes now => rfl
  | refresh probes now => rfl
  | record o =>
    unfold step Tracker.record
    dsimp only
    split
    · rfl
    · -- a failed task leaves the graph and the copy as they were
      exact h
  | fold s => rfl

theorem published_run (settings : CognitionSettings) (graph : GraphSettings) (es : List (TrackerEvent α)) :
    (run settings graph es).Published :=
  List.foldlRecOn _ _ (published_new settings graph) fun _ ht e _ => published_step ht e

/-- Whatever a tracker has lived through, it shows the size of its graph, with no more connections than the nodes
allow, and the check of the size does not fail.  The roots of snapshots start with a slash. -/
theorem resonates_run (settings : CognitionSettings) (graph : GraphSettings) (es : List (TrackerEvent Float))
    (hes : ∀ e ∈ es, e.Rooted) :
    (run settings graph es).Resonates ∧
      ((run settings graph es).graph.nodeCount ≤ 2 ^ 32 → ∀ i now, ∃ c,
        (Diagnostics.run (run settings graph es).state i now).check? "memory_resonance" = some c ∧
          c.status ≠ .fail) := by
  have hpublished := published_run settings graph es
  have hgraph : (run settings graph es).graph.WellFormed := by
    rw [graph_run]
    exact (MemoryGraph.sound_replay graph (TrackerEvent.rooted_memoriesIn hes)).wellFormed
  have hresonates := hpublished.resonates hgraph
  refine ⟨hresonates, fun hnodes i now => ⟨_, Diagnostics.check?_memoryResonance _ i now, ?_⟩⟩
  have hshown : (run settings graph es).state.resonance.nodes ≤ 2 ^ 32 := by
    rw [hpublished]
    exact hnodes
  rw [Diagnostics.status_memoryResonance hshown hresonates.connections_le]
  split <;> decide

/-- The tree, its directory and its file, an agent and its memory are five nodes. -/
theorem resonates_run_sampleHistory :
    (run .standard ⟨true, true, 1, 8, 1⟩ sampleHistory).Resonates ∧
      (run .standard ⟨true, true, 1, 8, 1⟩ sampleHistory).graph.nodeCount = 5 ∧
      ∀ i now, ∃ c, (Diagnostics.run (run .standard ⟨true, true, 1, 8, 1⟩ sampleHistory).state i now).check?
        "memory_resonance" = some c ∧ c.status ≠ .fail := by
  have hrooted : ∀ e ∈ sampleHistory, e.Rooted := by
    simp [sampleHistory, TrackerEvent.Rooted, MemoryGraph.sampleTree, IsPath]
  have hnodes : (run .standard ⟨true, true, 1, 8, 1⟩ sampleHistory).graph.nodeCount = 5 := by
    decide +kernel
  have hrun := resonates_run .standard ⟨true, true, 1, 8, 1⟩ sampleHistory hrooted
  exact ⟨hrun.1, hnodes, hrun.2 (by rw [hnodes]; decide)⟩

end Tracker

end EchoEngine
