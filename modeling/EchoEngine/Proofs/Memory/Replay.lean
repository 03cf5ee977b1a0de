import EchoEngine.Proofs.Memory.Recording

/-!
# Replaying events

A graph is reached by folding snapshots and recording memories, in any order, from the empty graph.
If the roots of the snapshots start with a slash, every graph that is reached is well formed, and so is
every stage of dropping memories on the way; no count of edges is ever taken below zero
(`wellFormed_replay`).  What a graph holds about paths is held by every graph reached from it later.
-/

namespace EchoEngine

variable {α : Type}

/-- What a memory graph lives through. -/
inductive MemoryEvent (α : Type) where
  | fold (s : Snapshot α)
  | record (agent : AgentId) (task summary : String)

/-- The root of a folded snapshot starts with a slash. -/
def MemoryEvent.Rooted : MemoryEvent α → Prop
  | fold s => IsPath s.root
  | record _ _ _ => True

namespace MemoryGraph

variable [Scalar α]

def apply (g : MemoryGraph α) : MemoryEvent α → MemoryGraph α
  | .fold s => (g.fold (.ofSnapshot s)).graph
  | .record agent task summary => (g.record agent task summary).graph

/-- The graph after events from a graph. -/
def applyAll (g : MemoryGraph α) (es : List (MemoryEvent α)) : MemoryGraph α :=
  es.foldl apply g

/-- The graph after events from the empty graph. -/
def replay (settings : GraphSettings) (es : List (MemoryEvent α)) : MemoryGraph α :=
  (empty settings).applyAll es

theorem replay_concat (settings : GraphSettings) (es : List (MemoryEvent α)) (e : MemoryEvent α) :
    replay settings (es ++ [e]) = (replay settings es).apply e := by
  simp [replay, applyAll]

theorem Sound.apply {g : MemoryGraph α} (h : g.Sound ∅) {e : MemoryEvent α} (he : e.Rooted) :
    (g.apply e).Sound ∅ := by
  cases e with
  | fold s => exact h.fold (FoldPlan.closed_ofSnapshot s he)
  | record agent task summary => exact h.record agent task summary

theorem extends_apply {g : MemoryGraph α} (h : g.Sound ∅) (e : MemoryEvent α) : g.Extends (g.apply e) := by
  cases e with
  | fold s => exact extends_fold g _
  | record agent task summary => exact (sameOnPaths_record h agent task summary).extends

theorem Sound.applyAll {g : MemoryGraph α} (h : g.Sound ∅) {es : List (MemoryEvent α)}
    (hes : ∀ e ∈ es, e.Rooted) : (g.applyAll es).Sound ∅ :=
  List.foldlRecOn _ _ h fun _ hg e he => hg.apply (hes e he)

theorem extends_applyAll {g : MemoryGraph α} (h : g.Sound ∅) {es : List (MemoryEvent α)}
    (hes : ∀ e ∈ es, e.Rooted) : g.Extends (g.applyAll es) := by
  have hboth : (g.applyAll es).Sound ∅ ∧ g.Extends (g.applyAll es) :=
    List.foldlRecOn (motive := fun g' : MemoryGraph α => g'.Sound ∅ ∧ g.Extends g') _ _
      ⟨h, .refl g⟩ fun _ hg e he => ⟨hg.1.apply (hes e he), hg.2.trans (extends_apply hg.1 e)⟩
  exact hboth.2

theorem sound_replay (settings : GraphSettings) {es : List (MemoryEvent α)} (hes : ∀ e ∈ es, e.Rooted) :
    (replay settings es).Sound ∅ :=
  (sound_empty settings).applyAll hes

theorem settings_replay (settings : GraphSettings) {es : List (MemoryEvent α)}
    (hes : ∀ e ∈ es, e.Rooted) : (replay settings es).settings = settings :=
  (extends_applyAll (sound_empty settings) hes).settings

/-- What holds of the empty graph and what folding and recording keep holds of every graph that is reached. -/
theorem replay_induction {P : List (MemoryEvent α) → MemoryGraph α → Prop} (settings : GraphSettings)
    {es : List (MemoryEvent α)} (hes : ∀ e ∈ es, e.Rooted) (hempty : P [] (empty settings))
    (hfold : ∀ es s, (∀ e ∈ es, e.Rooted) → (FoldPlan.ofSnapshot s).Closed → P es (replay settings es) →
      P (es ++ [.fold s]) ((replay settings es).fold (.ofSnapshot s)).graph)
    (hrecord : ∀ es agent task summary, (∀ e ∈ es, e.Rooted) → P es (replay settings es) →
      P (es ++ [.record agent task summary]) ((replay settings es).record agent task summary).graph) :
    P es (replay settings es) := by
  induction es using List.reverseRecOn with
  | nil => exact hempty
  | append_singleton es e ih =>
    have hold : ∀ e ∈ es, e.Rooted := (List.forall_mem_append.1 hes).1
    rw [replay_concat]
    cases e with
    | fold s => exact hfold es s hold (FoldPlan.closed_ofSnapshot s (hes (.fold s) (by simp))) (ih hold)
    | record agent task summary => exact hrecord es agent task summary hold (ih hold)

/-- Every graph that folding and recording reach is well formed.  So is every stage of the eviction that
ends a recording, at which no node has more edges than are counted, and a recording leaves no more
memories than there is capacity for. -/
theorem wellFormed_replay (settings : GraphSettings) (es : List (MemoryEvent α))
    (hes : ∀ e ∈ es, e.Rooted) :
    (replay settings es).WellFormed ∧
      ∀ agent task summary,
        (∀ n, (Nat.repeat dropOldest n ((replay settings es).remember agent task summary).graph).WellFormed ∧
          ∀ key, ((Nat.repeat dropOldest n
            ((replay settings es).remember agent task summary).graph).neighbors key).length
            ≤ (Nat.repeat dropOldest n ((replay settings es).remember agent task summary).graph).edgeCount) ∧
        ((replay settings es).record agent task summary).graph.memories.length
          ≤ settings.memoryCapacity := by
  have hreached := sound_replay settings hes
  refine ⟨hreached.wellFormed, fun agent task summary => ⟨fun n => ?_, ?_⟩⟩
  · have hstage := (hreached.remember agent task summary).repeat_dropOldest n
    exact ⟨hstage.wellFormed, hstage.toUndirected.length_neighbors_le⟩
  · have hsettings := (sameOnPaths_remember hreached agent task summary).settings
    rw [settings_replay settings hes] at hsettings
    have hle := length_memories_evict_le ((replay settings es).remember agent task summary).graph
    rwa [hsettings] at hle

/-! ### Runs to look at -/

def sampleTree (files : List (String × Float)) : Snapshot Float where
  root := "/tree"
  processed := files.length
  filtered := 0
  threshold := 0.0
  salient := files.map fun f => ⟨f.1, f.2, 0.5, 0.5, 1⟩
  skipped := []

def sampleRun : List (MemoryEvent Float) :=
  [.fold (sampleTree [("src/parse_tree.rs", 0.5)]), .record ⟨"agent-1"⟩ "task-1" "parse the tree",
    .fold (sampleTree [("src/print_tree.rs", 0.25)]), .record ⟨"agent-1"⟩ "task-2" "print the tree"]

/-- One tree twice, the directory of its file before the whole. -/
def nestedTrees : List (Snapshot Float) :=
  [{ sampleTree [("parse_tree.rs", 0.5)] with root := "/tree/src" }, sampleTree [("src/parse_tree.rs", 0.5)]]

theorem rooted_sampleRun : ∀ e ∈ sampleRun, e.Rooted := by
  simp [sampleRun, sampleTree, MemoryEvent.Rooted, IsPath]

/-- With room for one memory, the second one drops the first. -/
theorem wellFormed_replay_sampleRun :
    (replay ⟨true, true, 1, 8, 1⟩ sampleRun).WellFormed ∧
      ((replay ⟨true, true, 1, 8, 1⟩ sampleRun).record ⟨"agent-1"⟩ "task-3" "").graph.memories.length ≤ 1 :=
  have h := wellFormed_replay ⟨true, true, 1, 8, 1⟩ sampleRun rooted_sampleRun
  ⟨h.1, (h.2 _ _ _).2⟩

end MemoryGraph

end EchoEngine
