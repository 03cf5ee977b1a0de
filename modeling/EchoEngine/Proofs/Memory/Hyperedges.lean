import EchoEngine.Proofs.Memory.EdgeOrigins

/-!
# Hyperedges

The hyperedges of a graph sort the files that have ever been folded by the directories that hold them
(`hyperedges_replay`).  A plan gives a file its key and its directory separately, but the directory is what is
above the key, so a file that comes by way of several roots stays in one hyperedge.  Nothing else adds to
hyperedges, and nothing takes from them: what is dropped are nodes and edges.
-/

namespace EchoEngine

open FoldPlan MemoryEvent

variable {α : Type}

namespace KeySets

/-- No name is bound to the empty set. -/
def Filled (sets : KeySets) : Prop :=
  ∀ (name : String) (keys : Std.ExtTreeSet String), sets[name]? = some keys → ∃ key, key ∈ keys

theorem filled_empty : Filled (∅ : KeySets) := by
  intro name keys h
  simp at h

theorem Filled.enroll {sets : KeySets} (h : sets.Filled) (name key : String) : (sets.enroll name key).Filled := by
  intro other keys hkeys
  rw [getElem?_enroll] at hkeys
  split at hkeys
  · cases hkeys
    exact ⟨key, by simp⟩
  · exact h other keys hkeys

theorem mem_members_iff {sets : KeySets} {name key : String} :
    key ∈ sets.members name ↔ ∃ keys, sets[name]? = some keys ∧ key ∈ keys := by
  rw [members]
  cases sets[name]? with
  | none => simp
  | some keys => simp

/-- What is bound are the names with a key in their sets. -/
theorem Filled.mem_iff {sets : KeySets} (h : sets.Filled) (name : String) :
    name ∈ sets ↔ ∃ key, key ∈ sets.members name := by
  simp only [mem_members_iff, Std.ExtTreeMap.mem_iff_isSome_getElem?, Option.isSome_iff_exists]
  constructor
  · rintro ⟨keys, hkeys⟩
    obtain ⟨key, hkey⟩ := h name keys hkeys
    exact ⟨key, keys, hkeys, hkey⟩
  · rintro ⟨-, keys, hkeys, -⟩
    exact ⟨keys, hkeys⟩

theorem encard_names (sets : KeySets) : {name | name ∈ sets}.encard = sets.size := by
  have hkeys : {name | name ∈ sets} = (sets.keys.toFinset : Set String) := by
    ext name
    simp
  rw [hkeys, Set.encard_coe_eq_coe_finsetCard, List.toFinset_card_of_nodup Std.ExtTreeMap.nodup_keys,
    Std.ExtTreeMap.length_keys]

end KeySets

namespace MemoryGraph

/-! ### Steps -/

theorem hyperedges_dropOldest (g : MemoryGraph α) : g.dropOldest.hyperedges = g.hyperedges := by
  unfold dropOldest
  split
  · rfl
  · rw [hyperedges_remove]

theorem hyperedges_repeat_dropOldest (g : MemoryGraph α) (n : Nat) :
    (Nat.repeat dropOldest n g).hyperedges = g.hyperedges := by
  induction n with
  | zero => rfl
  | succ n ih => rw [Nat.repeat, hyperedges_dropOldest, ih]

variable [Scalar α]

theorem hyperedges_record (g : MemoryGraph α) (agent : AgentId) (task summary : String) :
    (g.record agent task summary).graph.hyperedges = g.hyperedges := by
  rw [record]
  dsimp only
  rw [evict, hyperedges_repeat_dropOldest, remember, Growing.hyperedges_join, Growing.meetMemory]
  dsimp only
  rw [Growing.graph_meet, Growing.graph_meet]

/-- A fold enrolls its files, each under its directory. -/
theorem hyperedges_fold (g : MemoryGraph α) (plan : FoldPlan α) :
    (g.fold plan).graph.hyperedges
      = plan.files.foldl (fun sets f => KeySets.enroll sets f.directory f.key) g.hyperedges := by
  have hdirectories : (Growing.addDirectories ⟨g, .none⟩ plan.directories).graph.hyperedges = g.hyperedges := by
    refine List.foldlRecOn (motive := fun w : Growing α => w.graph.hyperedges = g.hyperedges) _ _ rfl ?_
    intro w hw d _
    rw [Growing.hyperedges_addDirectory, hw]
  have hfiles : (g.enter plan).graph.hyperedges
      = plan.files.foldl (fun sets f => KeySets.enroll sets f.directory f.key)
          (Growing.addDirectories ⟨g, .none⟩ plan.directories).graph.hyperedges :=
    (List.foldl_hom (fun w : Growing α => w.graph.hyperedges)
      fun w f => (Growing.hyperedges_addFile w f).symm).symm
  rw [fold, (rewired_joinTopics _ _).hyperedges, hfiles, hdirectories]

/-! ### Runs -/

/-- The files in a hyperedge are the folded files directly below its directory. -/
theorem mem_hyperedges_replay (settings : GraphSettings) (es : List (MemoryEvent α)) (d key : String) :
    key ∈ (replay settings es).hyperedges.members d ↔ key ∈ foldedFiles es ∧ d = parentKey key := by
  induction es using List.reverseRecOn with
  | nil => simp [replay, applyAll, empty, foldedFiles]
  | append_singleton es e ih =>
    rw [replay_concat]
    cases e with
    | fold s =>
      have hplanned : (∃ f ∈ (ofSnapshot s).files, d = f.directory ∧ key = f.key) ↔
          key ∈ (ofSnapshot s).files.map (·.key) ∧ d = parentKey key := by
        rw [List.mem_map]
        constructor
        · rintro ⟨p, hp, rfl, rfl⟩
          exact ⟨⟨p, hp, rfl⟩, Hangs.eq_parentKey (s := s) (.inr ⟨p, hp, rfl, rfl⟩)⟩
        · rintro ⟨⟨p, hp, rfl⟩, rfl⟩
          exact ⟨p, hp, (Hangs.eq_parentKey (s := s) (.inr ⟨p, hp, rfl, rfl⟩)).symm, rfl⟩
      rw [apply, hyperedges_fold, KeySets.mem_members_foldl_enroll, hplanned, ih, mem_foldedFiles_concat_fold,
        ← or_and_right, or_comm]
    | record agent task summary => rw [apply, hyperedges_record, ih, foldedFiles_concat_record]

theorem filled_replay (settings : GraphSettings) (es : List (MemoryEvent α)) :
    (replay settings es).hyperedges.Filled := by
  refine List.foldlRecOn (motive := fun g : MemoryGraph α => g.hyperedges.Filled) _ _ KeySets.filled_empty ?_
  intro g hg e _
  cases e with
  | fold s =>
    rw [apply, hyperedges_fold]
    exact List.foldlRecOn _ _ hg fun _ hsets f _ => hsets.enroll f.directory f.key
  | record agent task summary =>
    rw [apply, hyperedges_record]
    exact hg

/-- Hyperedges sort the folded files by the directories that are above their keys: every one of these files is in
one hyperedge, no hyperedge is empty, and there are as many as there are such directories. -/
theorem hyperedges_replay (settings : GraphSettings) (es : List (MemoryEvent α)) :
    (∀ d key, (∃ files, (replay settings es).hyperedge? d = some files ∧ key ∈ files) ↔
      key ∈ foldedFiles es ∧ d = parentKey key) ∧
    (∀ key ∈ foldedFiles es, ∃! d, ∃ files, (replay settings es).hyperedge? d = some files ∧ key ∈ files) ∧
    (∀ d files, (replay settings es).hyperedge? d = some files → ∃ key, key ∈ files) ∧
    (parentKey '' foldedFiles es).encard = (replay settings es).hyperedgeCount := by
  have hmem : ∀ d key, (∃ files, (replay settings es).hyperedge? d = some files ∧ key ∈ files) ↔
      key ∈ foldedFiles es ∧ d = parentKey key := fun d key =>
    KeySets.mem_members_iff.symm.trans (mem_hyperedges_replay settings es d key)
  have hfilled := filled_replay settings es
  refine ⟨hmem, ?_, hfilled, ?_⟩
  · intro key hkey
    refine ⟨parentKey key, (hmem _ key).2 ⟨hkey, rfl⟩, ?_⟩
    intro d hd
    exact ((hmem d key).1 hd).2
  · have hnames : parentKey '' foldedFiles es = {d | d ∈ (replay settings es).hyperedges} := by
      ext d
      rw [Set.mem_ofPred_eq, hfilled.mem_iff]
      simp only [mem_hyperedges_replay, Set.mem_image, eq_comm]
    rw [hnames, KeySets.encard_names]
    rfl

/-- The file that comes by way of two roots is in one hyperedge, the only one there is. -/
theorem hyperedges_replay_nestedTrees :
    "/tree/src/parse_tree.rs" ∈ foldedFiles (nestedTrees.map .fold) ∧
    (∃! d, ∃ files, (replay .standard (nestedTrees.map .fold)).hyperedge? d = some files ∧
      "/tree/src/parse_tree.rs" ∈ files) ∧
    (replay .standard (nestedTrees.map .fold)).hyperedgeCount = 1 := by
  have hplanned : ∀ s ∈ nestedTrees, (ofSnapshot s).files.map (·.key) = ["/tree/src/parse_tree.rs"] := by
    simp only [nestedTrees, List.forall_mem_cons, List.not_mem_nil, false_imp_iff, implies_true, and_true]
    exact ⟨by decide, by decide⟩
  have hmem : "/tree/src/parse_tree.rs" ∈ foldedFiles (nestedTrees.map .fold) :=
    ⟨_, List.mem_map_of_mem List.mem_cons_self, by rw [hplanned _ List.mem_cons_self]; simp⟩
  have hfolded : foldedFiles (nestedTrees.map .fold) = {"/tree/src/parse_tree.rs"} := by
    refine Set.eq_singleton_iff_unique_mem.2 ⟨hmem, ?_⟩
    rintro key ⟨s, hs, hkey⟩
    obtain ⟨s, hs, ⟨⟩⟩ := List.mem_map.1 hs
    rw [hplanned s hs] at hkey
    exact List.mem_singleton.1 hkey
  obtain ⟨-, honce, -, hcount⟩ := hyperedges_replay .standard (nestedTrees.map .fold)
  rw [hfolded, Set.image_singleton, Set.encard_singleton] at hcount
  exact ⟨hmem, honce _ hmem, Nat.cast_eq_one.1 hcount.symm⟩

end MemoryGraph

end EchoEngine
