import EchoEngine.Proofs.Memory.FoldPlan

/-!
# Keys and what is above them

The way to a key is the list of its pieces between slashes, the last one first, and what is above the key
is what the rest of the way leads to (`parentKey_directoryKey`).  So the directory and the topics of a
planned file are read off its key (`directory_plannedFile`, `topics_plannedFile`), and so is the parent of a
planned directory (`parent_eq_parentKey`): two plans under overlapping roots never disagree about a key.
The longer a way is, the longer is the key that it leads to, as long as no piece is empty
(`length_directoryKey_lt`).
-/

namespace EchoEngine

namespace FoldPlan

/-! ### Ways -/

/-- Roots as plans have them: a slash alone, or a text that does not end with one. -/
def IsRoot (root : String) : Prop :=
  root = "/" ∨ root ≠ "" ∧ root.toList.getLast? ≠ some '/'

theorem isRoot_rootKey (root : String) : IsRoot (rootKey root) := by
  rcases normal_rootKey root with ⟨hkey, -⟩ | ⟨hne, hlast, -⟩
  · exact .inl hkey
  · exact .inr ⟨hne, hlast⟩

/-- The way to a file: the pieces of its path, the last one first. -/
def fileWay (path : String) : List String :=
  (Text.splitBy (· == '/') path).reverse

theorem pieces_fileWay (path : String) : Pieces (fileWay path) := fun _ hp =>
  Text.not_mem_of_mem_splitBy (List.mem_reverse.1 hp)

theorem fileWay_ne_nil (path : String) : fileWay path ≠ [] := by
  simp [fileWay, Text.splitBy_ne_nil]

theorem tail_fileWay (path : String) : (fileWay path).tail = directoryPieces path := by
  rw [directoryPieces, List.drop_one]
  rfl

theorem directoryKey_of_ne_nil (root : String) {way : List String} (h : way ≠ []) :
    directoryKey root way = keyBelow root ("/".intercalate way.reverse) := by
  cases way with
  | nil => contradiction
  | cons piece above => rfl

/-- The key of a file is what its way leads to. -/
theorem directoryKey_fileWay (root path : String) : directoryKey root (fileWay path) = keyBelow root path := by
  rw [directoryKey_of_ne_nil root (fileWay_ne_nil path), fileWay, List.reverse_reverse,
    Text.intercalate_splitBy]

/-- The pieces of a root, as keys below it begin with them. -/
private def rootPieces (root : String) : List String :=
  if root = "/" then [""] else Text.splitBy (· == '/') root

private theorem splitBy_keyBelow {root : String} (hroot : IsRoot root) (rel : String) :
    Text.splitBy (· == '/') (keyBelow root rel) = rootPieces root ++ Text.splitBy (· == '/') rel := by
  unfold keyBelow rootPieces
  rcases hroot with rfl | ⟨-, hlast⟩
  · exact Text.splitBy_append "" rel
  · have hne : root ≠ "/" := by
      rintro rfl
      exact hlast rfl
    rw [if_neg hlast, if_neg hne, Text.splitBy_append]

/-- Splitting a key gives the pieces of the root and those of the way. -/
private theorem splitBy_directoryKey {root : String} (hroot : IsRoot root) {way : List String}
    (hway : Pieces way) (hne : way ≠ []) :
    Text.splitBy (· == '/') (directoryKey root way) = rootPieces root ++ way.reverse := by
  have hrev : Pieces way.reverse := fun p hp => hway p (List.mem_reverse.1 hp)
  rw [directoryKey_of_ne_nil root hne, splitBy_keyBelow hroot,
    Text.splitBy_intercalate hrev (by simpa using hne)]

/-! ### What is above a key -/

/-- The key without its last piece, or the slash alone if nothing else is left. -/
def parentKey (key : String) : String :=
  match (Text.splitBy (· == '/') key).dropLast with
  | [""] => "/"
  | pieces => "/".intercalate pieces

/-- What is above a key is what the rest of the way leads to. -/
theorem parentKey_directoryKey {root : String} (hroot : IsRoot root) {piece : String} {above : List String}
    (hway : Pieces (piece :: above)) :
    parentKey (directoryKey root (piece :: above)) = directoryKey root above := by
  have habove : Pieces above := fun p hp => hway p (List.mem_cons_of_mem _ hp)
  have hdrop : (Text.splitBy (· == '/') (directoryKey root (piece :: above))).dropLast
      = rootPieces root ++ above.reverse := by
    rw [splitBy_directoryKey hroot hway (by simp), List.reverse_cons, ← List.append_assoc,
      List.dropLast_concat]
  unfold parentKey
  rw [hdrop]
  cases above with
  | nil =>
    rw [List.reverse_nil, List.append_nil]
    rcases hroot with rfl | ⟨hempty, hlast⟩
    · rfl
    · have hne : root ≠ "/" := by
        rintro rfl
        exact hlast rfl
      have hjoined := Text.intercalate_splitBy root
      rw [rootPieces, if_neg hne]
      split
      · -- a root is never empty
        rename_i hone
        rw [hone] at hjoined
        exact absurd hjoined.symm hempty
      · exact hjoined
  | cons q above =>
    rw [← splitBy_directoryKey hroot habove (by simp)]
    split
    · rename_i hone
      have hlength := congrArg List.length hone
      rw [splitBy_directoryKey hroot habove (by simp)] at hlength
      have hpos : 0 < (rootPieces root).length := by
        unfold rootPieces
        split
        · simp
        · exact List.length_pos_iff.2 (Text.splitBy_ne_nil _ _)
      simp only [List.length_append, List.length_reverse, List.length_cons, List.length_nil] at hlength
      omega
    · exact Text.intercalate_splitBy _

example : parentKey "/tree/src/main.rs" = "/tree/src" ∧ parentKey "/main.rs" = "/" := by decide

/-- The longer way leads to the longer key, unless it adds an empty piece. -/
theorem length_directoryKey_lt (root : String) {piece : String} (hpiece : piece ≠ "")
    (above : List String) :
    (directoryKey root above).length < (directoryKey root (piece :: above)).length := by
  have hpos : 0 < piece.length := by
    rw [Nat.pos_iff_ne_zero]
    simpa using hpiece
  have hslash : "/".length = 1 := rfl
  cases above with
  | nil =>
    simp only [directoryKey, keyBelow, List.reverse_cons, List.reverse_nil, List.nil_append,
      String.intercalate_singleton]
    split <;> simp only [String.length_append] <;> omega
  | cons q above =>
    have hlonger : "/".intercalate (piece :: q :: above).reverse
        = "/".intercalate (q :: above).reverse ++ "/" ++ piece := by
      rw [List.reverse_cons, String.intercalate_append_of_ne_nil (by simp) (by simp),
        String.intercalate_singleton]
    simp only [directoryKey, keyBelow, hlonger]
    split <;> simp only [String.length_append] <;> omega

/-! ### Planned files and directories -/

variable {α : Type}

theorem fileWay_eq_cons (path : String) : ∃ name, fileWay path = name :: directoryPieces path := by
  obtain ⟨name, above, hway⟩ := List.exists_cons_of_ne_nil (fileWay_ne_nil path)
  refine ⟨name, ?_⟩
  rw [← tail_fileWay, hway]
  rfl

/-- The directory of a file is the one above its key. -/
theorem directory_plannedFile {root : String} (hroot : IsRoot root) (f : SalientFile α) :
    (plannedFile root f).directory = parentKey (plannedFile root f).key := by
  obtain ⟨name, hway⟩ := fileWay_eq_cons f.path
  have hpieces := pieces_fileWay f.path
  simp only [plannedFile]
  rw [← directoryKey_fileWay]
  rw [hway] at hpieces ⊢
  exact (parentKey_directoryKey hroot hpieces).symm

private theorem getLast?_splitBy_keyBelow {root : String} (hroot : IsRoot root) (path : String) :
    (Text.splitBy (· == '/') (keyBelow root path)).getLast? = (Text.splitBy (· == '/') path).getLast? := by
  rw [splitBy_keyBelow hroot, List.getLast?_append_of_ne_nil _ (Text.splitBy_ne_nil _ _)]

/-- The topics of a file are those of the last piece of its key. -/
theorem topics_plannedFile {root : String} (hroot : IsRoot root) (f : SalientFile α) :
    (plannedFile root f).topics = Text.identifierTopics (stem (plannedFile root f).key) := by
  simp only [plannedFile, stem, getLast?_splitBy_keyBelow hroot]

/-- The parent of a directory is the one above its key. -/
theorem parent_eq_parentKey {root : String} (hroot : IsRoot root) {files : List (SalientFile α)}
    {d parent : String} (h : (ofFiles root files).directories[d]? = some (some parent)) :
    parent = parentKey d := by
  by_cases hfiles : files = []
  · subst hfiles
    simp [ofFiles] at h
  · rcases (getElem?_directories hfiles d (some parent)).1 h with
      ⟨-, hnone⟩ | ⟨-, piece, above, ⟨f, -, hway⟩, rfl, hparent⟩
    · contradiction
    · cases hparent
      exact (parentKey_directoryKey hroot
        (fun p hp => pieces_directoryPieces f.path p (hway.subset hp))).symm

end FoldPlan

end EchoEngine
