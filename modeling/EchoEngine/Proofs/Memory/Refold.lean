import EchoEngine.Proofs.Memory.TopicEdges

/-!
# Folding again

A plan that the graph remembers creates nothing: its directories and files are met again, the edges by
ancestry are there, and so are those between partners, because no fold leaves partners apart.  All that
changes are the visits and weights of the nodes that the plan names.  Since folds and recordings
keep what has been remembered, this holds of every snapshot whose files have been folded before, by one
or by several snapshots, however long ago (`refold_replay`).
-/

namespace EchoEngine

open Std (ExtTreeSet)

variable {α : Type}

namespace MemoryGraph

/-- Two graphs differ in nothing but the visits and weights of some nodes. -/
structure Revisits (names : Set String) (g g' : MemoryGraph α) : Prop where
  settings : g'.settings = g.settings
  adjacency : g'.adjacency = g.adjacency
  edgeCount : g'.edgeCount = g.edgeCount
  hyperedges : g'.hyperedges = g.hyperedges
  carriers : g'.carriers = g.carriers
  memories : g'.memories = g.memories
  node : ∀ key, g'.node? key = g.node? key ∨
    key ∈ names ∧ ∃ n weight visits, g.node? key = some n ∧ g'.node? key = some { n with weight, visits }

variable {names : Set String}

theorem Revisits.refl (g : MemoryGraph α) : g.Revisits names g :=
  ⟨rfl, rfl, rfl, rfl, rfl, rfl, fun _ => .inl rfl⟩

theorem Revisits.trans {g g' g'' : MemoryGraph α} (h : g.Revisits names g') (h' : g'.Revisits names g'') :
    g.Revisits names g'' where
  settings := h'.settings.trans h.settings
  adjacency := h'.adjacency.trans h.adjacency
  edgeCount := h'.edgeCount.trans h.edgeCount
  hyperedges := h'.hyperedges.trans h.hyperedges
  carriers := h'.carriers.trans h.carriers
  memories := h'.memories.trans h.memories
  node key := by
    rcases h'.node key with hsame | ⟨hkey, n', weight, visits, hn', hn''⟩
    · rw [hsame]
      exact h.node key
    · rcases h.node key with hsame | ⟨-, n, weight', visits', hn, hmet⟩
      · rw [hsame] at hn'
        exact .inr ⟨hkey, n', weight, visits, hn', hn''⟩
      · rw [hmet] at hn'
        cases hn'
        exact .inr ⟨hkey, n, weight, visits, hn, hn''⟩

theorem Revisits.extends {g g' : MemoryGraph α} (h : g.Revisits names g') : g.Extends g' where
  settings := h.settings
  node key n _ hn := by
    rcases h.node key with hsame | ⟨-, n', weight, visits, hn', hmet⟩
    · exact ⟨n, hsame.trans hn, fun _ ht => ht⟩
    · rw [hn] at hn'
      cases hn'
      exact ⟨_, hmet, fun _ ht => ht⟩
  adjacent a b _ _ hab := by
    rw [adjacent_iff] at hab ⊢
    rwa [h.adjacency]
  hyperedge d key hkey := by rwa [h.hyperedges]
  carrier topic key hkey := by rwa [h.carriers]

theorem Revisits.partners_iff {g g' : MemoryGraph α} (h : g.Revisits names g') (a b : String) :
    g'.Partners a b ↔ g.Partners a b := by
  have hcommon : g'.common a b = g.common a b := by
    simp only [common, Distinctive, h.carriers, h.settings]
  constructor
  · exact fun hab => hab.of_common_subset h.settings.symm hcommon.subset
  · exact fun hab => hab.of_common_subset h.settings hcommon.superset

end MemoryGraph

/-! ### Steps that create nothing -/

namespace Growing

/-- Growth that has created nothing and changed nothing but visits and weights. -/
structure Idle (names : Set String) (w w' : Growing α) : Prop where
  created : w'.created = w.created
  graph : w.graph.Revisits names w'.graph

variable {names : Set String}

theorem Idle.refl (w : Growing α) : w.Idle names w :=
  ⟨rfl, .refl _⟩

theorem Idle.trans {w w' w'' : Growing α} (h : w.Idle names w') (h' : w'.Idle names w'') :
    w.Idle names w'' :=
  ⟨h'.created.trans h.created, h.graph.trans h'.graph⟩

private theorem revisit_of_subset {old new : MemoryNode α} (h : ∀ t ∈ new.topics, t ∈ old.topics) :
    old.revisit new = { old with weight := new.weight, visits := old.visits + 1 } := by
  have htopics : old.topics ∪ new.topics = old.topics := by
    apply ExtTreeSet.ext_mem
    intro t
    rw [ExtTreeSet.mem_union_iff]
    exact ⟨fun ht => ht.elim id (h t), .inl⟩
  rw [MemoryNode.revisit, htopics]

theorem idle_meet {w : Growing α} {key : String} (hkey : key ∈ names) {old n : MemoryNode α}
    (hold : w.graph.node? key = some old) (htopics : ∀ t ∈ n.topics, t ∈ old.topics) :
    w.Idle names (w.meet key n) := by
  constructor
  · rw [created_meet, if_pos (MemoryGraph.contains_iff.2 ⟨old, hold⟩)]
  · rw [graph_meet]
    refine ⟨rfl, rfl, rfl, rfl, rfl, rfl, fun k => ?_⟩
    have hnode := node?_meet w key n k
    rw [graph_meet] at hnode
    rw [hnode]
    split
    · rename_i hk
      subst hk
      rw [hold]
      exact .inr ⟨hkey, old, n.weight, old.visits + 1, rfl, congrArg some (revisit_of_subset htopics)⟩
    · exact .inl rfl

theorem joinAncestor_eq_self {w : Growing α} {a b : String} (h : w.graph.Linked a b) :
    w.joinAncestor a b = w := by
  unfold joinAncestor
  split
  · rename_i hsettings
    exact join_eq_self (h hsettings)
  · rfl

/-- A file that carries its topics already is added to no carriers. -/
theorem carry_eq_self {w : Growing α} {key : String} {topics : ExtTreeSet String}
    (h : ∀ t ∈ topics, key ∈ w.graph.carriers.members t) : w.carry key topics = w := by
  have hcarriers : topics.toList.foldl (fun sets topic => KeySets.enroll sets topic key) w.graph.carriers
      = w.graph.carriers :=
    List.foldlRecOn (motive := fun sets => sets = w.graph.carriers) _ _ rfl fun sets hsets t ht => by
      rw [hsets]
      exact KeySets.enroll_of_mem (h t (ExtTreeSet.mem_toList.1 ht))
  rw [carry]
  dsimp only
  rw [hcarriers]

theorem gather_eq_self {w : Growing α} {directory key : String}
    (h : key ∈ w.graph.hyperedges.members directory) : w.gather directory key = w := by
  rw [gather, KeySets.enroll_of_mem h]

theorem idle_addFile {w : Growing α} {f : PlannedFile α} (hf : f.key ∈ names)
    (h : w.graph.RemembersFile f) : w.Idle names (w.addFile f) := by
  obtain ⟨n, hn, htopics⟩ := h.node
  have hmeet : w.Idle names (w.meet f.key (.ofFile f)) := idle_meet hf hn htopics
  have hlinked : (w.meet f.key (.ofFile f)).graph.Linked f.key f.directory := by
    rw [graph_meet]
    exact h.linked
  have hgathered : f.key ∈ (w.meet f.key (.ofFile f)).graph.hyperedges.members f.directory := by
    rw [graph_meet]
    exact h.hyperedge
  rw [addFile, carry_eq_self h.carrier, joinAncestor_eq_self hlinked, gather_eq_self hgathered]
  exact hmeet

theorem idle_addDirectory [Scalar α] {w : Growing α} {d : String × Option String} (hd : d.1 ∈ names)
    (h : w.graph.RemembersDirectory d) : w.Idle names (w.addDirectory d) := by
  obtain ⟨n, hn⟩ := MemoryGraph.contains_iff.1 h.contains
  have hmeet : w.Idle names (w.meet d.1 (.ofDirectory d.2)) :=
    idle_meet hd hn (by simp [MemoryNode.ofDirectory])
  rcases addDirectory_cases w d with ⟨-, hw⟩ | ⟨parent, hparent, hw⟩
  · rw [hw]
    exact hmeet
  · have hlinked : (w.meet d.1 (.ofDirectory d.2)).graph.Linked d.1 parent := by
      rw [graph_meet]
      exact h.linked parent hparent
    rw [hw, joinAncestor_eq_self hlinked]
    exact hmeet

/-- Joining a file to partners that it is joined to already does nothing. -/
theorem joinPartners_eq_self {w : Growing α} {f : PlannedFile α}
    (h : ∀ other ∈ w.graph.partners f.key, w.graph.adjacent f.key other) : w.joinPartners f = w :=
  List.foldlRecOn (motive := fun w' => w' = w) _ _ rfl fun w' hw' other hother => by
    rw [hw']
    exact join_eq_self (.inr (h other hother))

theorem joinTopics_eq_self {w : Growing α} {files : List (PlannedFile α)}
    (h : w.graph.settings.topicEdges → ∀ f ∈ files, ∀ other ∈ w.graph.partners f.key,
      w.graph.adjacent f.key other) : w.joinTopics files = w := by
  unfold joinTopics
  split
  · rename_i htopics
    exact List.foldlRecOn (motive := fun w' => w' = w) _ _ rfl fun w' hw' f hf => by
      rw [hw']
      exact joinPartners_eq_self (h htopics f hf)
  · rfl

end Growing

/-! ### Plans that are remembered -/

namespace MemoryGraph

/-- The graph remembers the plan of files that plans it remembers name under the same root. -/
theorem remembers_ofFiles {g : MemoryGraph α} {root : String} {files : List (SalientFile α)}
    (h : ∀ f ∈ files, ∃ files', g.Remembers (.ofFiles root files') ∧ ∃ f' ∈ files', f'.path = f.path) :
    g.Remembers (.ofFiles root files) := by
  constructor
  · intro d parent hd
    by_cases hfiles : files = []
    · subst hfiles
      simp [FoldPlan.ofFiles] at hd
    · have hget := (FoldPlan.getElem?_directories hfiles d parent).1 hd
      rcases hget with ⟨rfl, rfl⟩ | ⟨hne, piece, above, ⟨f, hf, hway⟩, rfl, rfl⟩
      · obtain ⟨f, hf⟩ := List.exists_mem_of_ne_nil _ hfiles
        obtain ⟨files', hfiles', f', hf', -⟩ := h f hf
        exact hfiles'.directory _ _ ((FoldPlan.getElem?_directories (List.ne_nil_of_mem hf') _ _).2
          (.inl ⟨rfl, rfl⟩))
      · obtain ⟨files', hfiles', f', hf', hpath⟩ := h f hf
        rw [← hpath] at hway
        exact hfiles'.directory _ _ ((FoldPlan.getElem?_directories (List.ne_nil_of_mem hf') _ _).2
          (.inr ⟨hne, piece, above, ⟨f', hf', hway⟩, rfl, rfl⟩))
  · intro p hp
    obtain ⟨f, hf, rfl⟩ := List.mem_map.1 hp
    obtain ⟨files', hfiles', f', hf', hpath⟩ := h f hf
    have hremembered := hfiles'.file _ (List.mem_map_of_mem hf')
    -- the weight of a file is all that its path does not determine
    rw [FoldPlan.plannedFile, hpath] at hremembered
    exact ⟨hremembered.node, hremembered.carrier, hremembered.hyperedge, hremembered.linked⟩

variable [Scalar α]

/-- A plan that the graph remembers creates nothing. -/
theorem idle_fold {g : MemoryGraph α} (hindexed : g.Indexed) (hpartnered : g.Partnered)
    {plan : FoldPlan α} (hplan : plan.Closed) (h : g.Remembers plan) :
    Growing.Idle (named plan) ⟨g, .none⟩ (g.fold plan) := by
  have hentered : Growing.Idle (named plan) ⟨g, .none⟩ (g.enter plan) := by
    refine enter_induction (P := fun w => Growing.Idle (named plan) ⟨g, .none⟩ w) (.refl _) ?_ ?_
    · intro w d parent hd hw
      have hremembered := (h.mono hplan hw.graph.extends).directory d parent hd
      exact hw.trans (Growing.idle_addDirectory (.inl (FoldPlan.mem_of_getElem? hd)) hremembered)
    · intro w f hf hw
      have hremembered := (h.mono hplan hw.graph.extends).file f hf
      exact hw.trans (Growing.idle_addFile (.inr ⟨f, hf, rfl⟩) hremembered)
  -- carriers and settings are as before, so the partners are too, and they are joined
  have hjoined : g.fold plan = g.enter plan := by
    refine Growing.joinTopics_eq_self fun htopics f hf other hother => ?_
    rw [mem_partners (hindexed.enter plan) (hplan.file_path f hf), hentered.graph.partners_iff] at hother
    rw [hentered.graph.settings] at htopics
    rw [adjacent_iff, hentered.graph.adjacency, ← adjacent_iff]
    exact hpartnered htopics f.key other hother
  rw [hjoined]
  exact hentered

/-- What a run has folded is remembered at its end. -/
theorem remembers_replay (settings : GraphSettings) {es : List (MemoryEvent α)}
    (hes : ∀ e ∈ es, e.Rooted) {s : Snapshot α} (hs : .fold s ∈ es) :
    (replay settings es).Remembers (.ofSnapshot s) := by
  obtain ⟨before, after, rfl⟩ := List.append_of_mem hs
  have hbefore : ∀ e ∈ before, e.Rooted := fun e he => hes e (List.mem_append_left _ he)
  have hroot : IsPath s.root := hes (.fold s) hs
  have hplan := FoldPlan.closed_ofSnapshot s hroot
  have hafter : ∀ e ∈ after, e.Rooted := fun e he =>
    hes e (List.mem_append_right _ (List.mem_cons_of_mem _ he))
  have hsound : ((replay settings before).apply (.fold s)).Sound ∅ :=
    (sound_replay settings hbefore).apply hroot
  have hsplit : replay settings (before ++ .fold s :: after)
      = ((replay settings before).apply (.fold s)).applyAll after := by
    simp [replay, applyAll]
  rw [hsplit]
  exact (remembers_fold _ hplan).mono hplan (extends_applyAll hsound hafter)

/-- Folding a snapshot of files that have all been folded before, under the same root, creates nothing
and changes nothing but visits and weights of its files and the directories above them. -/
theorem refold_replay (settings : GraphSettings) (es : List (MemoryEvent α)) (hes : ∀ e ∈ es, e.Rooted)
    (s : Snapshot α)
    (hs : ∀ f ∈ s.salient, ∃ s', .fold s' ∈ es ∧ FoldPlan.rootKey s'.root = FoldPlan.rootKey s.root ∧
      ∃ f' ∈ s'.salient, f'.path = f.path) :
    ((replay settings es).fold (.ofSnapshot s)).created = ⟨0, 0⟩ ∧
      (replay settings es).Revisits (named (.ofSnapshot s))
        ((replay settings es).fold (.ofSnapshot s)).graph := by
  obtain ⟨hindexed, hpartnered⟩ := partnered_replay settings hes
  have hplan : (FoldPlan.ofSnapshot s).Closed := by
    cases hsalient : s.salient with
    | nil =>
      rw [FoldPlan.ofSnapshot, hsalient]
      constructor <;> simp [FoldPlan.ofFiles]
    | cons f files =>
      obtain ⟨s', hs', hroot, -⟩ := hs f (by rw [hsalient]; exact List.mem_cons_self)
      have hpath : IsPath (FoldPlan.rootKey s.root) := by
        rw [← hroot]
        exact FoldPlan.isPath_rootKey (hes _ hs')
      exact FoldPlan.closed_ofFiles hpath s.salient
  have hremembers : (replay settings es).Remembers (.ofSnapshot s) := by
    refine remembers_ofFiles fun f hf => ?_
    obtain ⟨s', hs', hroot, f', hf', hpath⟩ := hs f hf
    refine ⟨s'.salient, ?_, f', hf', hpath⟩
    rw [← hroot]
    exact remembers_replay settings hes hs'
  have hidle := idle_fold hindexed hpartnered hplan hremembers
  exact ⟨hidle.created, hidle.graph⟩

/-- Two files that two snapshots have folded are folded again by one, with other saliences. -/
theorem refold_replay_sampleRun :
    ((replay .standard sampleRun).fold
      (.ofSnapshot (sampleTree [("src/print_tree.rs", 0.75), ("src/parse_tree.rs", 0.75)]))).created
      = ⟨0, 0⟩ :=
  (refold_replay .standard sampleRun rooted_sampleRun _ (by simp [sampleRun, sampleTree])).1

end MemoryGraph

end EchoEngine
