import EchoEngine.Proofs.Memory.Keys

/-!
# What a fold plan holds

The way to a directory is the list of pieces that lead to it, the last one first, so the ways to the
directories above it are its suffixes.  A plan registers exactly the suffixes of the ways to its files
(`getElem?_directories`): a walk up may stop at the first known directory, because a known one never
lacks any above it.  Hence every parent in a plan is a directory of the plan (`closed_ofSnapshot`).
-/

namespace EchoEngine

open Std (ExtTreeMap)

namespace FoldPlan

/-! ### Registering -/

/-- Known directories are the root and what the ways that satisfy `ways` lead to, each with its parent. -/
def Holds (root : String) (known : ExtTreeMap String (Option String)) (ways : List String → Prop) : Prop :=
  ∀ d parent, known[d]? = some parent ↔ (d = root ∧ parent = none) ∨
    (d ≠ root ∧ ∃ piece above, ways (piece :: above) ∧ d = directoryKey root (piece :: above) ∧
      parent = some (directoryKey root above))

theorem Holds.congr {root : String} {known : ExtTreeMap String (Option String)}
    {ways ways' : List String → Prop} (h : Holds root known ways)
    (hways : ∀ piece above, directoryKey root (piece :: above) ≠ root →
      (ways (piece :: above) ↔ ways' (piece :: above))) : Holds root known ways' := by
  intro d parent
  rw [h d parent]
  apply or_congr_right
  apply and_congr_right
  intro hd
  constructor
  · rintro ⟨piece, above, hw, rfl, hp⟩
    exact ⟨piece, above, (hways _ _ hd).1 hw, rfl, hp⟩
  · rintro ⟨piece, above, hw, rfl, hp⟩
    exact ⟨piece, above, (hways _ _ hd).2 hw, rfl, hp⟩

/-- What a way leads to may be put to the known directories, unless another way leads there. -/
theorem Holds.insert {root : String} {known : ExtTreeMap String (Option String)}
    {ways : List String → Prop} (h : Holds root known ways) {piece : String} {above : List String}
    (hroot : directoryKey root (piece :: above) ≠ root)
    (hsame : ∀ q as, ways (q :: as) → directoryKey root (q :: as) = directoryKey root (piece :: above) →
      q :: as = piece :: above) :
    Holds root
      (known.insert (directoryKey root (piece :: above)) (some (directoryKey root above)))
      (fun way => ways way ∨ way = piece :: above) := by
  intro d parent
  rw [ExtTreeMap.getElem?_insert]
  simp only [Std.compare_eq_iff_eq]
  split
  · rename_i hd
    subst hd
    constructor
    · intro hp
      cases hp
      exact .inr ⟨hroot, piece, above, .inr rfl, rfl, rfl⟩
    · rintro (⟨he, -⟩ | ⟨-, q, as, hw, hkey, hp⟩)
      · exact absurd he hroot
      · have hway : q :: as = piece :: above := hw.elim (fun hw => hsame q as hw hkey.symm) id
        cases hway
        rw [hp]
  · rename_i hd
    rw [h d parent]
    apply or_congr_right
    apply and_congr_right
    intro _
    constructor
    · rintro ⟨q, as, hw, hdq, hp⟩
      exact ⟨q, as, .inl hw, hdq, hp⟩
    · rintro ⟨q, as, hw | hw, hdq, hp⟩
      · exact ⟨q, as, hw, hdq, hp⟩
      · cases hw
        exact absurd hdq.symm hd

/-- A known directory is the root or what one of the ways leads to. -/
theorem Holds.mem_iff {root : String} {known : ExtTreeMap String (Option String)} {ways : List String → Prop}
    (h : Holds root known ways) (d : String) :
    d ∈ known ↔ d = root ∨ ∃ piece above, ways (piece :: above) ∧ d = directoryKey root (piece :: above) := by
  rw [ExtTreeMap.mem_iff_isSome_getElem?, Option.isSome_iff_exists]
  constructor
  · rintro ⟨parent, hparent⟩
    rcases (h d parent).1 hparent with ⟨hd, -⟩ | ⟨-, piece, above, hw, hd, -⟩
    · exact .inl hd
    · exact .inr ⟨piece, above, hw, hd⟩
  · intro hd
    by_cases hroot : d = root
    · exact ⟨none, (h d none).2 (.inl ⟨hroot, rfl⟩)⟩
    · obtain ⟨piece, above, hw, hd⟩ := hd.resolve_left hroot
      exact ⟨_, (h d _).2 (.inr ⟨hroot, piece, above, hw, hd, rfl⟩)⟩

/-- Registering a way adds all its suffixes, provided that known suffixes come with theirs. -/
private theorem holds_register {root : String} {known : ExtTreeMap String (Option String)}
    {ways : List String → Prop} {pieces : List String} (h : Holds root known ways)
    (hpieces : Pieces pieces) (hways : ∀ way, ways way → Pieces way)
    (hclosed : ∀ way, way <:+ pieces → ways way → ∀ l, l <:+ way → l ≠ [] → ways l) :
    Holds root (register root known pieces) (fun way => ways way ∨ way <:+ pieces) := by
  induction pieces generalizing known ways with
  | nil =>
    refine h.congr ?_
    intro piece above _
    simp
  | cons piece above ih =>
    have habove : Pieces above := fun p hp => hpieces p (List.mem_cons_of_mem _ hp)
    simp only [register]
    split
    · -- the walk stops here: the way and its suffixes are known, or it leads to the root itself
      rename_i hknown
      rw [← ExtTreeMap.mem_iff_contains, ExtTreeMap.mem_iff_isSome_getElem?] at hknown
      obtain ⟨parent, hparent⟩ := Option.isSome_iff_exists.1 hknown
      refine h.congr ?_
      intro q as hne
      refine ⟨.inl, ?_⟩
      rintro (hw | hsuffix)
      · exact hw
      · rcases (h _ _).1 hparent with ⟨hroot, -⟩ | ⟨-, p, ps, hw, hkey, -⟩
        · obtain rfl := eq_nil_of_directoryKey_eq_root hroot
          rw [List.suffix_cons_iff] at hsuffix
          rcases hsuffix with heq | hsuffix
          · rw [heq] at hne
            exact absurd hroot hne
          · simp at hsuffix
        · have hway : p :: ps = piece :: above := directoryKey_inj (hways _ hw) hpieces hkey.symm
          rw [hway] at hw
          exact hclosed _ (List.suffix_refl _) hw _ hsuffix (by simp)
    · rename_i hnew
      rw [← ExtTreeMap.mem_iff_contains] at hnew
      have hroot : directoryKey root (piece :: above) ≠ root := by
        intro he
        exact hnew ((h.mem_iff _).2 (.inl he))
      have hsame : ∀ q as, ways (q :: as) → directoryKey root (q :: as) = directoryKey root (piece :: above) →
          q :: as = piece :: above := by
        intro q as hw hkey
        exact absurd ((h.mem_iff _).2 (.inr ⟨q, as, hw, hkey.symm⟩)) hnew
      have hrest := ih (h.insert hroot hsame) habove
        (by
          rintro way (hw | rfl)
          · exact hways way hw
          · exact hpieces)
        (by
          rintro way hsuffix (hw | rfl) l hl hne
          · exact .inl (hclosed way (hsuffix.trans (List.suffix_cons _ _)) hw l hl hne)
          · exact absurd hsuffix.length_le (by simp))
      refine hrest.congr ?_
      intro q as _
      rw [List.suffix_cons_iff, or_assoc]

variable {α : Type}

private theorem holds_registerAll {root : String} {known : ExtTreeMap String (Option String)}
    {ways : List String → Prop} (files : List (SalientFile α)) (h : Holds root known ways)
    (hways : ∀ way, ways way → Pieces way)
    (hclosed : ∀ way, ways way → ∀ l, l <:+ way → l ≠ [] → ways l) :
    Holds root (files.foldl (fun known f => register root known (directoryPieces f.path)) known)
      (fun way => ways way ∨ ∃ f ∈ files, way <:+ directoryPieces f.path) := by
  induction files generalizing known ways with
  | nil =>
    refine h.congr ?_
    intro piece above _
    simp
  | cons f files ih =>
    have hf := holds_register h (pieces_directoryPieces f.path) hways (fun way _ hw => hclosed way hw)
    have hrest := ih hf
      (by
        rintro way (hw | hw)
        · exact hways way hw
        · exact fun p hp => pieces_directoryPieces f.path p (hw.subset hp))
      (by
        rintro way (hw | hw) l hl hne
        · exact .inl (hclosed way hw l hl hne)
        · exact .inr (hl.trans hw))
    refine hrest.congr ?_
    intro q as _
    simp [or_assoc]

/-! ### The directories of a plan -/

/-- At first the root is all that is known. -/
theorem holds_root (root : String) :
    Holds root ((∅ : ExtTreeMap String (Option String)).insert root none) (fun _ => False) := by
  intro d parent
  rw [ExtTreeMap.getElem?_insert]
  simp only [Std.compare_eq_iff_eq]
  split
  · rename_i h
    simp [h, eq_comm]
  · rename_i h
    simp [Ne.symm h]

theorem holds_directories {root : String} {files : List (SalientFile α)} (hfiles : files ≠ []) :
    Holds root (ofFiles root files).directories (fun way => ∃ f ∈ files, way <:+ directoryPieces f.path) := by
  have hall := holds_registerAll files (holds_root root) (fun _ h => h.elim) (fun _ h => h.elim)
  have hdirs : (ofFiles root files).directories
      = files.foldl (fun known f => register root known (directoryPieces f.path))
          ((∅ : ExtTreeMap String (Option String)).insert root none) := by
    simp [ofFiles, hfiles]
  rw [hdirs]
  exact hall.congr (fun _ _ _ => by simp)

/-- The directories of a plan are the root, without a parent, and what the suffixes of the ways to its
files lead to, each with what the next shorter one leads to. -/
theorem getElem?_directories {root : String} {files : List (SalientFile α)} (hfiles : files ≠ [])
    (d : String) (parent : Option String) :
    (ofFiles root files).directories[d]? = some parent ↔ (d = root ∧ parent = none) ∨
      (d ≠ root ∧ ∃ piece above, (∃ f ∈ files, piece :: above <:+ directoryPieces f.path) ∧
        d = directoryKey root (piece :: above) ∧ parent = some (directoryKey root above)) :=
  holds_directories hfiles d parent

theorem root_mem_directories {root : String} {files : List (SalientFile α)} (hfiles : files ≠ []) :
    root ∈ (ofFiles root files).directories :=
  ((holds_directories hfiles).mem_iff root).2 (.inl rfl)

/-- Every suffix of the way to a file leads to a directory of the plan. -/
theorem directoryKey_mem_directories {root : String} {files : List (SalientFile α)} {f : SalientFile α}
    (hf : f ∈ files) {way : List String} (hway : way <:+ directoryPieces f.path) :
    directoryKey root way ∈ (ofFiles root files).directories := by
  have hfiles := List.ne_nil_of_mem hf
  cases way with
  | nil => exact root_mem_directories hfiles
  | cons piece above =>
    exact ((holds_directories hfiles).mem_iff _).2 (.inr ⟨piece, above, ⟨f, hf, hway⟩, rfl⟩)

/-! ### Closed plans -/

/-- A plan of paths that has the directory of every file and the parent of every directory. -/
structure Closed (plan : FoldPlan α) : Prop where
  path_of_mem : ∀ d ∈ plan.directories, IsPath d
  parent_mem : ∀ (d parent : String), plan.directories[d]? = some (some parent) → parent ∈ plan.directories
  file_path : ∀ f ∈ plan.files, IsPath f.key
  file_directory_mem : ∀ f ∈ plan.files, f.directory ∈ plan.directories

theorem mem_of_getElem? {directories : ExtTreeMap String (Option String)} {d : String}
    {parent : Option String} (h : directories[d]? = some parent) : d ∈ directories := by
  rw [ExtTreeMap.mem_iff_isSome_getElem?, h]
  rfl

theorem Closed.directory_path {plan : FoldPlan α} (h : plan.Closed) {d : String} {parent : Option String}
    (hd : plan.directories[d]? = some parent) : IsPath d :=
  h.path_of_mem d (mem_of_getElem? hd)

theorem Closed.parent_path {plan : FoldPlan α} (h : plan.Closed) {d parent : String}
    (hd : plan.directories[d]? = some (some parent)) : IsPath parent :=
  h.path_of_mem parent (h.parent_mem d parent hd)

theorem Closed.file_directory_path {plan : FoldPlan α} (h : plan.Closed) {f : PlannedFile α}
    (hf : f ∈ plan.files) : IsPath f.directory :=
  h.path_of_mem _ (h.file_directory_mem f hf)

theorem closed_ofFiles {root : String} (hroot : IsPath root) (files : List (SalientFile α)) :
    (ofFiles root files).Closed := by
  by_cases hfiles : files = []
  · subst hfiles
    constructor <;> simp [ofFiles]
  · constructor
    · intro d hd
      rcases ((holds_directories hfiles).mem_iff d).1 hd with rfl | ⟨piece, above, -, rfl⟩
      · exact hroot
      · exact isPath_directoryKey hroot _
    · intro d p hp
      rcases (getElem?_directories hfiles d (some p)).1 hp with ⟨-, h⟩ | ⟨-, piece, above, ⟨f, hf, hway⟩, -, h⟩
      · cases h
      · cases h
        exact directoryKey_mem_directories hf ((List.suffix_cons _ _).trans hway)
    · intro f hf
      obtain ⟨g, -, rfl⟩ := List.mem_map.1 hf
      exact isPath_keyBelow hroot _
    · intro f hf
      obtain ⟨g, hg, rfl⟩ := List.mem_map.1 hf
      exact directoryKey_mem_directories hg (List.suffix_refl _)

/-- The plan of a snapshot with a rooted root is closed. -/
theorem closed_ofSnapshot (s : Snapshot α) (h : IsPath s.root) : (ofSnapshot s).Closed :=
  closed_ofFiles (isPath_rootKey h) s.salient

end FoldPlan

end EchoEngine
