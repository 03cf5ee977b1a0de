import EchoEngine.Proofs.Memory.Commuting
import EchoEngine.Proofs.Memory.Growth

/-!
# The order of files

A fold adds the files of a snapshot one after another, and then joins each of them to its partners.  Neither
depends on the order, as any two files can be added in either order (`addFile_comm`), and so can the edges from
them (`joinPartners_comm`).  So the graph that a fold leaves, and what it reports, are the same for snapshots
whose files differ in their order alone (`fold_perm_replay`).

What is noted of edges does not depend on the order, because an edge is noted at both of its ends: joining two
keys is noting each at the other one, even if they have been joined before (`adjacency_join`).  How many edges
there are then, and how much has been created, can be read off the graph.
-/

namespace EchoEngine

open Std (ExtTreeMap ExtTreeSet)

variable {α : Type}

/-! ### Enrolling in either order -/

namespace KeySets

theorem insert_comm (keys : ExtTreeSet String) (a b : String) :
    (keys.insert a).insert b = (keys.insert b).insert a := by
  apply ExtTreeSet.ext_mem
  intro x
  simp only [ExtTreeSet.mem_insert]
  exact or_left_comm

theorem enroll_comm (sets : KeySets) (name key name' key' : String) :
    (sets.enroll name key).enroll name' key' = (sets.enroll name' key').enroll name key := by
  apply ExtTreeMap.ext_getElem?
  intro x
  simp only [getElem?_enroll, members_enroll]
  by_cases hname : name = name'
  · subst hname
    rw [if_pos rfl, if_pos rfl, insert_comm]
    by_cases hx : name = x <;> simp [hx]
  · rw [if_neg hname, if_neg (Ne.symm hname)]
    by_cases hx : name = x
    · subst hx
      simp [Ne.symm hname]
    · simp [hx]

/-- The sets with each of two different keys in the set of the other one. -/
def link (sets : KeySets) (pair : String × String) : KeySets :=
  if pair.1 = pair.2 then sets else (sets.enroll pair.1 pair.2).enroll pair.2 pair.1

theorem link_comm (sets : KeySets) (p q : String × String) : (sets.link p).link q = (sets.link q).link p := by
  unfold link
  split
  · rfl
  · split
    · rfl
    · rw [enroll_comm _ p.2 p.1 q.1 q.2, enroll_comm _ p.1 p.2 q.1 q.2,
        enroll_comm _ p.2 p.1 q.2 q.1, enroll_comm _ p.1 p.2 q.2 q.1]

end KeySets

/-! ### Runs in another order -/

/-- Steps of two runs that can be taken in either order make runs that can. -/
private theorem foldl_comm {σ β γ : Type} {step : σ → β → σ} {step' : σ → γ → σ}
    (h : ∀ s x y, step' (step s x) y = step (step' s y) x) (xs : List β) (ys : List γ) (s : σ) :
    ys.foldl step' (xs.foldl step s) = xs.foldl step (ys.foldl step' s) := by
  induction xs generalizing s with
  | nil => rfl
  | cons x xs ih =>
    have hfirst : ys.foldl step' (step s x) = step (ys.foldl step' s) x :=
      List.foldl_hom (step · x) fun s' y => h s' x y
    rw [List.foldl_cons, ih, hfirst, List.foldl_cons]

/-- If any two steps can be taken in either order, where an invariant holds, so can all. -/
private theorem foldl_perm {σ β : Type} {step : σ → β → σ} {P : σ → Prop} {xs ys : List β} (hperm : xs.Perm ys)
    (hkeep : ∀ s x, P s → P (step s x))
    (hcomm : ∀ s, P s → ∀ x ∈ xs, ∀ y ∈ xs, step (step s x) y = step (step s y) x) {s : σ} (hs : P s) :
    xs.foldl step s = ys.foldl step s := by
  induction hperm generalizing s with
  | nil => rfl
  | cons x _ ih =>
    refine ih (fun s hs x hx y hy => ?_) (hkeep s x hs)
    exact hcomm s hs x (List.mem_cons_of_mem _ hx) y (List.mem_cons_of_mem _ hy)
  | swap x y xs =>
    rw [List.foldl_cons, List.foldl_cons, List.foldl_cons, List.foldl_cons]
    rw [hcomm s hs y List.mem_cons_self x (List.mem_cons_of_mem _ List.mem_cons_self)]
  | trans hfirst _ ih ih' =>
    refine (ih hcomm hs).trans (ih' (fun s hs x hx y hy => ?_) hs)
    exact hcomm s hs x (hfirst.mem_iff.2 hx) y (hfirst.mem_iff.2 hy)

/-! ### All but edges -/

namespace MemoryGraph

/-- Undirected graphs that differ in nothing but edges are equal if the same is noted of these. -/
theorem eq_of_rewired {g g' g'' : MemoryGraph α} (hrewired : g.Rewired g') (hrewired' : g.Rewired g'')
    (h : g'.Undirected) (h' : g''.Undirected) (hadjacency : g''.adjacency = g'.adjacency) : g'' = g' := by
  have hcount := h.edgeCount_eq h' hadjacency
  obtain ⟨_, _, rfl⟩ := hrewired
  obtain ⟨_, _, rfl⟩ := hrewired'
  dsimp only at hadjacency hcount
  rw [hadjacency, hcount]

/-- The graph with a file that is not joined to its directory. -/
def withFile (g : MemoryGraph α) (f : PlannedFile α) : MemoryGraph α :=
  { g with
    nodes := g.nodes.insert f.key (.met (g.node? f.key) (.ofFile f))
    hyperedges := g.hyperedges.enroll f.directory f.key
    carriers := f.topics.toList.foldl (fun sets topic => KeySets.enroll sets topic f.key) g.carriers }

theorem Rewired.withFile {g g' : MemoryGraph α} (h : g.Rewired g') (f : PlannedFile α) :
    (g.withFile f).Rewired (g'.withFile f) := by
  obtain ⟨adjacency, edgeCount, rfl⟩ := h
  exact ⟨adjacency, edgeCount, rfl⟩

theorem rewired_addFile (w : Growing α) (f : PlannedFile α) :
    (w.graph.withFile f).Rewired (w.addFile f).graph := by
  obtain ⟨adjacency, edgeCount, hjoined⟩ :=
    Growing.rewired_joinAncestor ((w.carry f.key f.topics).meet f.key (.ofFile f)) f.key f.directory
  refine ⟨adjacency, edgeCount, ?_⟩
  rw [Growing.addFile, Growing.gather, hjoined, Growing.graph_meet]
  rfl

theorem node?_withFile (g : MemoryGraph α) (f : PlannedFile α) (key : String) :
    (g.withFile f).node? key
      = if f.key = key then some (.met (g.node? f.key) (.ofFile f)) else g.node? key := by
  simp only [node?, withFile, ExtTreeMap.getElem?_insert, Std.compare_eq_iff_eq]

theorem withFile_comm (g : MemoryGraph α) {f f' : PlannedFile α} (hne : f.key ≠ f'.key) :
    (g.withFile f).withFile f' = (g.withFile f').withFile f := by
  refine MemoryGraph.ext rfl ?nodes rfl rfl ?hyperedges ?carriers rfl
  case nodes =>
    apply ExtTreeMap.ext_getElem?
    intro key
    change ((g.withFile f).withFile f').node? key = ((g.withFile f').withFile f).node? key
    simp only [node?_withFile, if_neg hne, if_neg hne.symm]
    by_cases hkey : f.key = key
    · subst hkey
      simp [hne.symm]
    · simp [hkey]
  case hyperedges => exact KeySets.enroll_comm _ _ _ _ _
  case carriers => exact foldl_comm (fun sets t t' => KeySets.enroll_comm sets t f.key t' f'.key) _ _ _

end MemoryGraph

/-! ### Edges -/

namespace Growing

open MemoryGraph

theorem adjacency_join {w : Growing α} (h : w.graph.Symmetric) (a b : String) :
    (w.join a b).graph.adjacency = w.graph.adjacency.link (a, b) := by
  rw [graph_join, KeySets.link]
  by_cases hsame : a = b
  · rw [if_pos (.inl hsame), if_pos hsame]
  · rw [if_neg hsame]
    split
    · rename_i hjoined
      -- both ends have been noted before
      have hab := hjoined.resolve_left hsame
      rw [KeySets.enroll_of_mem (adjacent_iff.1 hab), KeySets.enroll_of_mem (adjacent_iff.1 (h a b hab))]
    · rfl

theorem adjacency_joinAncestor {w : Growing α} (h : w.graph.Symmetric) (key parent : String) :
    (w.joinAncestor key parent).graph.adjacency
      = if w.graph.settings.ancestryEdges then w.graph.adjacency.link (key, parent)
        else w.graph.adjacency := by
  unfold joinAncestor
  split
  · exact adjacency_join h key parent
  · rfl

theorem adjacency_addFile {w : Growing α} (h : w.graph.Symmetric) (f : PlannedFile α) :
    (w.addFile f).graph.adjacency
      = if w.graph.settings.ancestryEdges then w.graph.adjacency.link (f.key, f.directory)
        else w.graph.adjacency := by
  have hmet : ((w.carry f.key f.topics).meet f.key (.ofFile f)).graph.Symmetric := by
    rw [graph_meet]
    exact h
  rw [addFile, gather]
  dsimp only
  rw [adjacency_joinAncestor hmet, graph_meet]
  rfl

theorem adjacency_joinPartners {w : Growing α} (h : w.graph.Undirected) (f : PlannedFile α) :
    (w.joinPartners f).graph.adjacency
      = (w.graph.partners f.key).foldl (fun sets other => sets.link (f.key, other)) w.graph.adjacency := by
  unfold joinPartners
  generalize w.graph.partners f.key = others
  induction others generalizing w with
  | nil => rfl
  | cons other others ih =>
    rw [List.foldl_cons, ih (h.join f.key other), adjacency_join h.symmetric]
    rfl

/-! ### Two files in either order -/

/-- What has been created is what has come to a graph since. -/
theorem Grown.eq_of_graph_eq {g : MemoryGraph α} {w v : Growing α} (h : Grown g w) (h' : Grown g v)
    (hgraph : w.graph = v.graph) : w = v := by
  obtain ⟨graph, ⟨nodes, edges⟩⟩ := w
  obtain ⟨graph', ⟨nodes', edges'⟩⟩ := v
  obtain rfl : graph = graph' := hgraph
  have hnodes := h.nodes.symm.trans h'.nodes
  have hedges := h.edges.symm.trans h'.edges
  dsimp only at hnodes hedges
  rw [Nat.add_left_cancel hnodes, Nat.add_left_cancel hedges]

variable {g : MemoryGraph α} {w : Growing α}

theorem addFile_comm (hgrown : Grown g w) (h : w.graph.Undirected) {f f' : PlannedFile α}
    (hne : f.key ≠ f'.key) : (w.addFile f).addFile f' = (w.addFile f').addFile f := by
  refine ((hgrown.addFile f).addFile f').eq_of_graph_eq ((hgrown.addFile f').addFile f) ?_
  have hrewired : ∀ p q : PlannedFile α,
      ((w.graph.withFile p).withFile q).Rewired ((w.addFile p).addFile q).graph := fun p q =>
    ((rewired_addFile w p).withFile q).trans (rewired_addFile (w.addFile p) q)
  have hsettings : ∀ p : PlannedFile α, (w.addFile p).graph.settings = w.graph.settings := fun p =>
    (rewired_addFile w p).settings
  have hfirst := hrewired f' f
  rw [withFile_comm _ hne.symm] at hfirst
  refine eq_of_rewired hfirst (hrewired f f') ((h.addFile f').addFile f) ((h.addFile f).addFile f') ?_
  rw [adjacency_addFile (h.addFile f).symmetric, adjacency_addFile (h.addFile f').symmetric,
    adjacency_addFile h.symmetric, adjacency_addFile h.symmetric, hsettings, hsettings]
  split
  · exact KeySets.link_comm _ _ _
  · rfl

theorem joinPartners_comm (hgrown : Grown g w) (h : w.graph.Undirected) (f f' : PlannedFile α) :
    (w.joinPartners f).joinPartners f' = (w.joinPartners f').joinPartners f := by
  refine ((hgrown.joinPartners f).joinPartners f').eq_of_graph_eq
    ((hgrown.joinPartners f').joinPartners f) ?_
  have hrewired : ∀ p q : PlannedFile α, w.graph.Rewired ((w.joinPartners p).joinPartners q).graph :=
    fun p q => (rewired_joinPartners w p).trans (rewired_joinPartners _ q)
  have hpartners : ∀ p q : PlannedFile α,
      (w.joinPartners p).graph.partners q.key = w.graph.partners q.key := by
    intro p q
    obtain ⟨_, _, heq⟩ := rewired_joinPartners w p
    rw [heq]
    rfl
  refine eq_of_rewired (hrewired f' f) (hrewired f f') ((h.joinPartners f').joinPartners f)
    ((h.joinPartners f).joinPartners f') ?_
  rw [adjacency_joinPartners (h.joinPartners f), adjacency_joinPartners (h.joinPartners f'),
    adjacency_joinPartners h, adjacency_joinPartners h, hpartners, hpartners]
  exact foldl_comm (fun sets a b => KeySets.link_comm sets (f.key, a) (f'.key, b)) _ _ _

end Growing

/-! ### Folds -/

/-- The directories of a plan do not depend on the order of the files. -/
theorem FoldPlan.directories_perm (root : String) {files files' : List (SalientFile α)}
    (hfiles : files.Perm files') : (ofFiles root files).directories = (ofFiles root files').directories := by
  by_cases hnil : files = []
  · subst hnil
    rw [hfiles.nil_eq]
  · have hnil' : files' ≠ [] := by
      rintro rfl
      exact hnil hfiles.eq_nil
    apply ExtTreeMap.ext_getElem?
    intro d
    apply Option.ext
    intro parent
    rw [getElem?_directories hnil, getElem?_directories hnil']
    simp only [hfiles.mem_iff]

namespace MemoryGraph

variable [Scalar α]

theorem fold_perm {g : MemoryGraph α} (h : g.Undirected) {plan plan' : FoldPlan α}
    (hdirectories : plan.directories = plan'.directories) (hfiles : plan.files.Perm plan'.files)
    (hkeys : (plan.files.map (·.key)).Nodup) : g.fold plan = g.fold plan' := by
  -- the directories are those of a plan without files
  have hstart : Growing.Grown g (Growing.addDirectories ⟨g, .none⟩ plan.directories) ∧
      (Growing.addDirectories ⟨g, .none⟩ plan.directories).graph.Undirected :=
    ⟨Growing.grown_enter g ⟨[], plan.directories⟩, h.enter ⟨[], plan.directories⟩⟩
  have hentered : g.enter plan = g.enter plan' := by
    rw [enter, enter, ← hdirectories]
    refine foldl_perm (P := fun w => Growing.Grown g w ∧ w.graph.Undirected) hfiles
      (fun w f hw => ⟨hw.1.addFile f, hw.2.addFile f⟩) ?_ hstart
    intro w hw f hf f' hf'
    by_cases hsame : f.key = f'.key
    · rw [List.inj_on_of_nodup_map hkeys hf hf' hsame]
    · exact Growing.addFile_comm hw.1 hw.2 hsame
  rw [fold, fold, ← hentered, Growing.joinTopics, Growing.joinTopics]
  split
  · exact foldl_perm (P := fun w => Growing.Grown g w ∧ w.graph.Undirected) hfiles
      (fun w f hw => ⟨hw.1.joinPartners f, hw.2.joinPartners f⟩)
      (fun w hw f _ f' _ => Growing.joinPartners_comm hw.1 hw.2 f f')
      ⟨Growing.grown_enter g plan, h.enter plan⟩
  · rfl

theorem undirected_replay (settings : GraphSettings) (es : List (MemoryEvent α)) :
    (replay settings es).Undirected :=
  List.foldlRecOn _ _ (undirected_empty settings) fun g hg e _ => by
    cases e with
    | fold s => exact hg.fold _
    | record agent task summary => exact hg.record agent task summary

/-- Folding snapshots of one root that list the same files in different orders leaves the same graph and
reports the same growth. -/
theorem fold_perm_replay (settings : GraphSettings) (es : List (MemoryEvent α)) {s s' : Snapshot α}
    (hroot : s.root = s'.root) (hfiles : s.salient.Perm s'.salient)
    (hpaths : (s.salient.map (·.path)).Nodup) :
    (replay settings es).fold (.ofSnapshot s) = (replay settings es).fold (.ofSnapshot s') := by
  refine fold_perm (undirected_replay settings es) ?_ ?_ ?_
  · rw [FoldPlan.ofSnapshot, FoldPlan.ofSnapshot, hroot]
    exact FoldPlan.directories_perm _ hfiles
  · rw [FoldPlan.ofSnapshot, FoldPlan.ofSnapshot, hroot]
    exact hfiles.map _
  · have hkeys : (FoldPlan.ofSnapshot s).files.map (·.key)
        = (s.salient.map (·.path)).map (FoldPlan.keyBelow (FoldPlan.rootKey s.root)) := by
      simp [FoldPlan.ofSnapshot, FoldPlan.ofFiles, FoldPlan.plannedFile]
    rw [hkeys]
    exact hpaths.map fun _ _ => FoldPlan.keyBelow_inj

/-- A tree with files in two directories is folded from either end, after two others. -/
theorem fold_perm_replay_sampleRun :
    (replay ⟨true, true, 1, 8, 1⟩ sampleRun).fold
        (.ofSnapshot (sampleTree [("src/parse_tree.rs", 0.5), ("doc/tree.md", 0.25)]))
      = (replay ⟨true, true, 1, 8, 1⟩ sampleRun).fold
        (.ofSnapshot (sampleTree [("doc/tree.md", 0.25), ("src/parse_tree.rs", 0.5)])) := by
  have hfiles : (sampleTree [("src/parse_tree.rs", 0.5), ("doc/tree.md", 0.25)]).salient.Perm
      (sampleTree [("doc/tree.md", 0.25), ("src/parse_tree.rs", 0.5)]).salient := .swap _ _ _
  exact fold_perm_replay ⟨true, true, 1, 8, 1⟩ sampleRun rfl hfiles (by decide)

end MemoryGraph

end EchoEngine
