import EchoEngine.Text.Blank
import Mathlib.Data.List.Basic

/-!
# Pieces of texts

Splitting a text by a character gives the pieces between its occurrences, none of which holds it
(`not_mem_of_mem_splitBy`), and one more of them than there are occurrences (`length_splitBy`).  Splitting
at slashes and joining by slashes undo each other (`intercalate_splitBy`, `splitBy_intercalate`).
-/

namespace EchoEngine.Text

theorem splitChars_eq_splitOnP (sep : Char → Bool) (cs : List Char) : splitChars sep cs = cs.splitOnP sep := by
  induction cs with
  | nil => simp [splitChars]
  | cons c cs ih =>
    rw [splitChars, ih, List.splitOnP_cons_eq_if_modifyHead]
    split
    · rfl
    · cases h : cs.splitOnP sep with
      | nil => exact absurd h (List.splitOnP_ne_nil sep cs)
      | cons piece pieces => rfl

theorem splitChars_eq_splitOn (sep : Char) (cs : List Char) :
    splitChars (· == sep) cs = cs.splitOn sep :=
  splitChars_eq_splitOnP _ cs

theorem map_toList_splitBy (sep : Char) (s : String) :
    (splitBy (· == sep) s).map String.toList = s.toList.splitOn sep := by
  rw [splitBy, splitChars_eq_splitOn, List.map_map]
  simp [Function.comp_def]

private theorem eq_of_map_toList_eq {a b : List String} (h : a.map String.toList = b.map String.toList) :
    a = b :=
  List.map_injective_iff.2 (fun _ _ he => String.toList_inj.1 he) h

theorem splitBy_ne_nil (sep : Char) (s : String) : splitBy (· == sep) s ≠ [] := by
  intro h
  have hlists := map_toList_splitBy sep s
  rw [h] at hlists
  exact List.splitOn_ne_nil sep s.toList hlists.symm

/-- The pieces between separators hold none. -/
theorem eq_false_of_mem_splitChars {sep : Char → Bool} {cs piece : List Char} (h : piece ∈ splitChars sep cs) :
    ∀ c ∈ piece, sep c = false := by
  rw [splitChars_eq_splitOnP] at h
  induction cs generalizing piece with
  | nil => simp_all
  | cons c cs ih =>
    rw [List.splitOnP_cons_eq_if_modifyHead] at h
    split at h
    · rw [List.mem_cons] at h
      rcases h with rfl | h
      · simp
      · exact ih h
    · rename_i hc
      cases hcs : cs.splitOnP sep with
      | nil => exact absurd hcs (List.splitOnP_ne_nil sep cs)
      | cons first rest =>
        rw [hcs, List.modifyHead_cons, List.mem_cons] at h
        rw [hcs] at ih
        rcases h with rfl | h
        · rw [List.forall_mem_cons]
          exact ⟨Bool.eq_false_iff.2 hc, ih List.mem_cons_self⟩
        · exact ih (List.mem_cons_of_mem _ h)

theorem not_mem_of_mem_splitBy {sep : Char} {s piece : String} (h : piece ∈ splitBy (· == sep) s) :
    sep ∉ piece.toList := by
  obtain ⟨cs, hcs, rfl⟩ := List.mem_map.1 h
  rw [String.toList_ofList]
  intro hmem
  simpa using eq_false_of_mem_splitChars hcs sep hmem

/-- There is one piece more than there are separators. -/
theorem length_splitBy (sep : Char) (s : String) :
    (splitBy (· == sep) s).length = s.toList.count sep + 1 := by
  rw [← List.length_map String.toList, map_toList_splitBy]
  induction s.toList with
  | nil => simp
  | cons c cs ih =>
    rw [List.splitOn_cons_eq_if_modifyHead]
    by_cases h : c = sep
    · simp [h, ih]
    · simp [h, ih]

/-! ### Slashes -/

/-- Splitting at slashes and joining by slashes gives the text back. -/
theorem intercalate_splitBy (s : String) : "/".intercalate (splitBy (· == '/') s) = s := by
  rw [← String.toList_inj, String.toList_intercalate, map_toList_splitBy]
  exact List.intercalate_splitOn '/'

/-- Joining by slashes and splitting at slashes gives pieces without slashes back. -/
theorem splitBy_intercalate {pieces : List String} (h : ∀ p ∈ pieces, '/' ∉ p.toList) (hne : pieces ≠ []) :
    splitBy (· == '/') ("/".intercalate pieces) = pieces := by
  apply eq_of_map_toList_eq
  rw [map_toList_splitBy, String.toList_intercalate]
  exact List.splitOn_intercalate '/' (by simpa using h) (by simpa using hne)

theorem splitBy_append (a b : String) :
    splitBy (· == '/') (a ++ "/" ++ b) = splitBy (· == '/') a ++ splitBy (· == '/') b := by
  apply eq_of_map_toList_eq
  rw [List.map_append, map_toList_splitBy, map_toList_splitBy, map_toList_splitBy]
  simp [String.toList_append, List.splitOn_append_cons_self]

end EchoEngine.Text
