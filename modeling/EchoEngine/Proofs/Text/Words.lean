import EchoEngine.Proofs.Text.Pieces
import EchoEngine.Text.Terms
import Mathlib

/-!
# Terms by cutting

Words are read character by character, and digits count only after a letter.  Cutting finds the same words: the
pieces of a text between characters that are no ASCII letters or digits, without the digits in front of each
(`wordsFrom_eq`).  So a character that is in no word parts the terms of a text into those before and those behind it
(`termsIn_append_cons`).  The case of ASCII letters makes no difference (`termsIn_map_toLower`), and each term of a
text is its own only term (`terms_of_mem`).
-/

namespace EchoEngine.Text

open Std (ExtTreeSet)

/-! ### ASCII letters and digits -/

theorem isAlphanum_iff {c : Char} : c.isAlphanum ↔
    (65 ≤ c.toNat ∧ c.toNat ≤ 90 ∨ 97 ≤ c.toNat ∧ c.toNat ≤ 122) ∨ 48 ≤ c.toNat ∧ c.toNat ≤ 57 := by
  simp [Char.isAlphanum, Char.isAlpha, Char.isUpper, Char.isLower, Char.isDigit, UInt32.le_iff_toNat_le,
    ← Char.toNat_val]

theorem isDigit_eq_false_of_isAlpha {c : Char} (h : c.isAlpha) : c.isDigit = false := by
  simp [Char.isAlpha, Char.isUpper, Char.isLower, Char.isDigit, UInt32.le_iff_toNat_le] at h ⊢
  omega

@[simp]
theorem isDigit_toLower (c : Char) : c.toLower.isDigit = c.isDigit := by
  by_cases h : c.isAlpha
  · rw [isDigit_eq_false_of_isAlpha h, isDigit_eq_false_of_isAlpha (by rwa [Char.isAlpha_toLower_eq_isAlpha])]
  · have hcapital : ¬c.isUpper := fun hupper => h (by simp [Char.isAlpha, hupper])
    rw [Char.toLower_eq_of_not_isUpper hcapital]

/-! ### Words -/

/-- A word, as far as it has been read: letters and digits, the first one no digit. -/
structure IsWord (cs : List Char) : Prop where
  alphanum : ∀ c ∈ cs, c.isAlphanum
  first : cs.dropWhile Char.isDigit = cs

theorem isWord_nil : IsWord (List.reverse []) :=
  ⟨nofun, rfl⟩

/-- A word starts with a letter and goes on with letters and digits. -/
theorem IsWord.concat {cs : List Char} (h : IsWord cs) {c : Char} (hc : c.isAlpha ∨ c.isDigit ∧ cs ≠ []) :
    IsWord (cs ++ [c]) where
  alphanum := by
    intro d hd
    rw [List.mem_append, List.mem_singleton] at hd
    rcases hd with hd | rfl
    · exact h.alphanum d hd
    · rcases hc with hc | ⟨hc, -⟩ <;> simp [Char.isAlphanum, hc]
  first := by
    rw [List.dropWhile_append, h.first]
    cases cs with
    | nil =>
      have hdigit := isDigit_eq_false_of_isAlpha (hc.resolve_right fun hc => hc.2 rfl)
      simp [hdigit]
    | cons d ds => simp

/-! ### Cutting -/

/-- The pieces of a text between characters that are no letters or digits, less the digits in front, if more is left. -/
def cutWords (cs : List Char) : List (List Char) :=
  ((splitChars (fun c => !c.isAlphanum) cs).map (List.dropWhile Char.isDigit)).filter fun word => !word.isEmpty

theorem cutWords_append_cons (a b : List Char) {c : Char} (hc : c.isAlphanum = false) :
    cutWords (a ++ c :: b) = cutWords a ++ cutWords b := by
  rw [cutWords, splitChars_eq_splitOnP, List.splitOnP_append_cons a b (by simp [hc]), List.map_append,
    List.filter_append, cutWords, cutWords, splitChars_eq_splitOnP, splitChars_eq_splitOnP]

theorem IsWord.cutWords_eq {cs : List Char} (h : IsWord cs) : cutWords cs = if cs.isEmpty then [] else [cs] := by
  have hone : splitChars (fun c => !c.isAlphanum) cs = [cs] := by
    rw [splitChars_eq_splitOnP]
    exact List.splitOnP_eq_singleton fun c hc => by simp [h.alphanum c hc]
  rw [cutWords, hone, List.map_singleton, h.first]
  cases cs <;> rfl

theorem cutWords_cons_of_isDigit {c : Char} (hc : c.isDigit) (cs : List Char) : cutWords (c :: cs) = cutWords cs := by
  have halphanum : c.isAlphanum = true := by simp [Char.isAlphanum, hc]
  rw [cutWords, splitChars, halphanum]
  cases hpieces : splitChars (fun c => !c.isAlphanum) cs with
  | nil => simp [cutWords, hpieces, hc]
  | cons piece pieces => simp [cutWords, hpieces, hc]

/-- A scan that is within a word finds what cutting finds from the start of that word. -/
theorem wordsFrom_eq {word : List Char} (h : IsWord word.reverse) (cs : List Char) :
    wordsFrom word cs = cutWords (word.reverse ++ cs) := by
  induction cs generalizing word with
  | nil =>
    rw [wordsFrom, List.append_nil, h.cutWords_eq, finished]
    simp
  | cons c cs ih =>
    rw [wordsFrom]
    split
    · rename_i hc
      have hword : IsWord (c :: word).reverse := by
        rw [List.reverse_cons]
        exact h.concat (by simpa using hc)
      rw [ih hword, List.reverse_cons, List.append_assoc, List.singleton_append]
    · rename_i hc
      rw [ih isWord_nil, List.reverse_nil, List.nil_append]
      by_cases hdigit : c.isDigit
      · -- only a digit in front of a word is passed over
        obtain rfl : word = [] := by simp_all
        rw [finished, List.reverse_nil, List.nil_append, cutWords_cons_of_isDigit hdigit]
        rfl
      · have hseparator : c.isAlphanum = false := by simp_all [Char.isAlphanum]
        rw [cutWords_append_cons _ _ hseparator, h.cutWords_eq, finished, List.isEmpty_reverse]

theorem wordsFrom_nil (cs : List Char) : wordsFrom [] cs = cutWords cs :=
  wordsFrom_eq isWord_nil cs

theorem isWord_of_mem_cutWords {cs word : List Char} (h : word ∈ cutWords cs) : IsWord word ∧ word ≠ [] := by
  rw [cutWords, List.mem_filter] at h
  obtain ⟨hmem, hne⟩ := h
  obtain ⟨piece, hpiece, rfl⟩ := List.mem_map.1 hmem
  refine ⟨⟨fun c hc => ?_, List.dropWhile_idempotent _ _⟩, by simpa using hne⟩
  simpa using eq_false_of_mem_splitChars hpiece c ((List.dropWhile_sublist _).mem hc)

/-! ### Terms -/

/-- The terms of some characters. -/
def termsIn (cs : List Char) : List String :=
  (wordsFrom [] cs).filterMap termOfWord

theorem terms_eq (s : String) : terms s = termsIn s.toList :=
  rfl

theorem mem_termSet {s t : String} : t ∈ termSet s ↔ t ∈ terms s := by
  rw [termSet, ExtTreeSet.mem_ofList, List.contains_iff_mem]

/-- A character that is in no word parts the terms. -/
theorem termsIn_append_cons (a b : List Char) {c : Char} (hc : c.isAlphanum = false) :
    termsIn (a ++ c :: b) = termsIn a ++ termsIn b := by
  rw [termsIn, wordsFrom_nil, cutWords_append_cons a b hc, List.filterMap_append, termsIn, termsIn, wordsFrom_nil,
    wordsFrom_nil]

theorem terms_append (s t : String) {c : Char} (hc : c.isAlphanum = false) :
    terms (s ++ String.singleton c ++ t) = terms s ++ terms t := by
  rw [terms_eq, String.toList_append, String.toList_append, String.toList_singleton, List.append_assoc,
    List.singleton_append, termsIn_append_cons _ _ hc, terms_eq, terms_eq]

/-- The terms of texts with spaces between them. -/
theorem terms_intercalate (ts : List String) : terms (" ".intercalate ts) = ts.flatMap terms := by
  have hspace : (' ').isAlphanum = false := rfl
  rw [terms_eq, String.toList_intercalate]
  induction ts with
  | nil => rfl
  | cons t ts ih =>
    cases ts with
    | nil => simp [terms_eq]
    | cons u us =>
      have hfirst : " ".toList.intercalate ((t :: u :: us).map String.toList) =
          t.toList ++ ' ' :: " ".toList.intercalate ((u :: us).map String.toList) := by
        simp [List.intercalate_cons_cons]
      rw [hfirst, termsIn_append_cons _ _ hspace, ih, List.flatMap_cons (x := t), terms_eq t]

/-! ### Capitals -/

theorem wordsFrom_map_toLower (word cs : List Char) :
    wordsFrom (word.map Char.toLower) (cs.map Char.toLower) = (wordsFrom word cs).map (List.map Char.toLower) := by
  have hfinished (word : List Char) :
      finished (word.map Char.toLower) = (finished word).map (List.map Char.toLower) := by
    cases word <;> simp [finished]
  induction cs generalizing word with
  | nil => exact hfinished word
  | cons c cs ih =>
    rw [List.map_cons, wordsFrom, wordsFrom, Char.isAlpha_toLower_eq_isAlpha, isDigit_toLower, List.isEmpty_map]
    split
    · exact ih (c :: word)
    · rw [hfinished, List.map_append]
      exact congrArg _ (ih [])

/-- A word is a term if its small letters are three or more and spell no stopword. -/
theorem termOfWord_eq (word : List Char) : termOfWord word =
    Option.guard (fun term => 3 ≤ term.length ∧ term ∉ stopwords) (String.ofList (word.map Char.toLower)) := by
  simp [termOfWord, Option.guard]

theorem termOfWord_eq_some_iff {word : List Char} {t : String} : termOfWord word = some t ↔
    String.ofList (word.map Char.toLower) = t ∧ 3 ≤ t.length ∧ t ∉ stopwords := by
  rw [termOfWord_eq, Option.guard_eq_some_iff, decide_eq_true_eq]
  refine and_congr_right ?_
  rintro rfl
  exact Iff.rfl

theorem termOfWord_map_toLower (word : List Char) : termOfWord (word.map Char.toLower) = termOfWord word := by
  have hlower : Char.toLower ∘ Char.toLower = Char.toLower := funext Char.toLower_toLower_eq_toLower
  rw [termOfWord_eq, List.map_map, hlower, termOfWord_eq]

theorem termsIn_map_toLower (cs : List Char) : termsIn (cs.map Char.toLower) = termsIn cs := by
  have hterm : termOfWord ∘ List.map Char.toLower = termOfWord := funext termOfWord_map_toLower
  have hwords := wordsFrom_map_toLower [] cs
  rw [List.map_nil] at hwords
  rw [termsIn, hwords, List.filterMap_map, hterm, termsIn]

/-- A term is its own only term. -/
theorem terms_of_mem {s t : String} (h : t ∈ terms s) : terms t = [t] := by
  obtain ⟨word, hword, hterm⟩ := List.mem_filterMap.1 h
  rw [wordsFrom_nil] at hword
  obtain ⟨hisWord, hne⟩ := isWord_of_mem_cutWords hword
  obtain ⟨rfl, -⟩ := termOfWord_eq_some_iff.1 hterm
  rw [terms_eq, String.toList_ofList, termsIn_map_toLower, termsIn, wordsFrom_nil, hisWord.cutWords_eq]
  simp [hne, hterm]

theorem terms_intercalate_terms (s : String) : terms (" ".intercalate (terms s)) = terms s := by
  have hself : (terms s).flatMap terms = (terms s).flatMap fun t => [t] :=
    List.flatMap_congr fun t ht => terms_of_mem ht
  rw [terms_intercalate, hself, List.flatMap_singleton']

/-! ### The reference -/

/-- The terms of a text by cutting: the pieces between characters that are no ASCII letters or digits, less the digits
in front and in small letters, that have three characters or more and are no stopwords. -/
def cutTerms (s : String) : List String :=
  ((splitBy (fun c => !c.isAlphanum) s).map fun piece =>
    String.ofList ((piece.toList.dropWhile Char.isDigit).map Char.toLower)).filter fun term =>
      3 ≤ term.length ∧ term ∉ stopwords

theorem terms_eq_cutTerms (s : String) : terms s = cutTerms s := by
  have hempty (word : List Char) : (if !word.isEmpty then termOfWord word else none) = termOfWord word := by
    cases word <;> rfl
  rw [terms_eq, termsIn, wordsFrom_nil, cutWords, List.filterMap_filter]
  simp only [hempty]
  rw [List.filterMap_map, cutTerms, splitBy, List.map_map, ← List.filterMap_eq_filter, List.filterMap_map]
  refine List.filterMap_congr fun piece _ => ?_
  simp [termOfWord_eq]

/-- Terms are found by cutting.  A character that is in no word parts those of a text, they do not depend on the case
of ASCII letters, and with spaces between them they are the terms of their own text. -/
theorem terms_cut (s : String) :
    terms s = cutTerms s ∧
    (∀ (c : Char) (t : String), c.isAlphanum = false → terms (s ++ String.singleton c ++ t) = terms s ++ terms t) ∧
    (∀ t : String, t.toList.map Char.toLower = s.toList.map Char.toLower → terms t = terms s) ∧
    terms (" ".intercalate (terms s)) = terms s := by
  refine ⟨terms_eq_cutTerms s, fun c t hc => terms_append s t hc, fun t h => ?_, terms_intercalate_terms s⟩
  rw [terms_eq, ← termsIn_map_toLower, h, termsIn_map_toLower, terms_eq]

/-- Digits stand alone and in front of a word, and a word is one that is not kept. -/
def sampleText : String :=
  "Echo-trees and 42 3dim memories"

theorem terms_cut_sampleText :
    ('é').isAlphanum = false ∧
    "ECHO-Trees AND 42 3Dim memories".toList.map Char.toLower = sampleText.toList.map Char.toLower ∧
    terms sampleText = ["echo", "trees", "dim", "memories"] ∧
    terms (sampleText ++ String.singleton 'é' ++ "9Lives") = terms sampleText ++ terms "9Lives" ∧
    terms "ECHO-Trees AND 42 3Dim memories" = terms sampleText := by
  have hseparator : ('é').isAlphanum = false := by decide
  have hcase : "ECHO-Trees AND 42 3Dim memories".toList.map Char.toLower = sampleText.toList.map Char.toLower := by
    decide
  obtain ⟨hcut, hparts, hcases, -⟩ := terms_cut sampleText
  have hterms : cutTerms sampleText = ["echo", "trees", "dim", "memories"] := by decide +kernel
  exact ⟨hseparator, hcase, hcut.trans hterms, hparts 'é' "9Lives" hseparator, hcases _ hcase⟩

end EchoEngine.Text
