import EchoEngine.Proofs.Text.Words

/-!
# Topics of identifiers

A hump of a compound word starts at a capital behind a small letter or a digit, so the scan for humps carries from
each character to the next only whether it was one of these (`spaceHumps_append`).  Behind a character that is in no
word nothing is carried, and in front of a hump the scan puts a space; at both seams the topics of a name are those of
its parts (`identifierTopics_union`).

Which characters beside ASCII letters and digits a name keeps, and which of them become blanks, makes no difference:
words hold none of them (`topicsKeeping_eq`).  Topics are spelled in small letters and digits, which make no hump, so
each of them is its own only topic (`isTopic_of_mem`).
-/

namespace EchoEngine.Text

open Std (ExtTreeSet)

/-! ### Humps -/

/-- Whether a hump can start behind some characters, where `low` says so of what is in front of them. -/
def lowAfter (low : Bool) (cs : List Char) : Bool :=
  cs.foldl (fun _ c => c.isLower || c.isDigit) low

theorem lowAfter_concat (low : Bool) (cs : List Char) (c : Char) :
    lowAfter low (cs ++ [c]) = (c.isLower || c.isDigit) := by
  rw [lowAfter, List.foldl_concat]

theorem spaceHumps_append (low : Bool) (a b : List Char) :
    spaceHumps low (a ++ b) = spaceHumps low a ++ spaceHumps (lowAfter low a) b := by
  induction a generalizing low with
  | nil => rfl
  | cons c a ih =>
    have hrest := ih (c.isLower || c.isDigit)
    rw [List.cons_append, spaceHumps, spaceHumps, hrest]
    split <;> rfl

theorem spaceHumps_cons_of_not_isUpper {c : Char} (hc : ¬c.isUpper) (low : Bool) (cs : List Char) :
    spaceHumps low (c :: cs) = c :: spaceHumps (c.isLower || c.isDigit) cs := by
  simp [spaceHumps, hc]

/-- Nothing is carried over a character that is in no word. -/
theorem spaceHumps_append_cons (a b : List Char) {c : Char} (hc : c.isAlphanum = false) :
    spaceHumps false (a ++ c :: b) = spaceHumps false a ++ c :: spaceHumps false b := by
  have hlow : (c.isLower || c.isDigit) = false := by simp_all [Char.isAlphanum, Char.isAlpha]
  have hupper : ¬c.isUpper := by simp_all [Char.isAlphanum, Char.isAlpha]
  rw [spaceHumps_append, spaceHumps_cons_of_not_isUpper hupper, hlow]

/-- A space is put in front of a hump, and the scan goes on as it starts. -/
theorem spaceHumps_hump (a b : List Char) {c d : Char} (hc : c.isLower || c.isDigit) (hd : d.isUpper) :
    spaceHumps false ((a ++ [c]) ++ d :: b) = spaceHumps false (a ++ [c]) ++ ' ' :: spaceHumps false (d :: b) := by
  rw [spaceHumps_append, lowAfter_concat, hc]
  simp [spaceHumps, hd]

/-- Small letters and digits make no hump. -/
theorem spaceHumps_eq_self {cs : List Char} (h : ∀ c ∈ cs, ¬c.isUpper) (low : Bool) : spaceHumps low cs = cs := by
  induction cs generalizing low with
  | nil => rfl
  | cons c cs ih =>
    rw [List.forall_mem_cons] at h
    rw [spaceHumps_cons_of_not_isUpper h.1, ih h.2]

/-! ### Topics -/

theorem mem_identifierTopics {name t : String} :
    t ∈ identifierTopics name ↔ t ∈ termsIn (spaceHumps false name.toList) := by
  rw [identifierTopics, mem_termSet, terms_eq, String.toList_ofList]

/-- Where the scan for humps comes apart at a character that is in no word, the topics do. -/
theorem identifierTopics_eq_union {name a b : String} {c : Char} (hc : c.isAlphanum = false)
    (h : spaceHumps false name.toList = spaceHumps false a.toList ++ c :: spaceHumps false b.toList) :
    identifierTopics name = identifierTopics a ∪ identifierTopics b := by
  apply ExtTreeSet.ext_mem
  intro t
  rw [ExtTreeSet.mem_union_iff, mem_identifierTopics, mem_identifierTopics, mem_identifierTopics, h,
    termsIn_append_cons _ _ hc, List.mem_append]

/-- The topics of a name of which only the characters of a class are kept, and all others are blanks. -/
def topicsKeeping (alphanumeric : Char → Bool) (name : String) : ExtTreeSet String :=
  termSet (String.ofList ((spaceHumps false name.toList).map fun c => if alphanumeric c then c else ' '))

/-- Words are the same whatever characters that are in no word are replaced by others of that kind. -/
theorem cutWords_map {f : Char → Char} (hword : ∀ c, c.isAlphanum → f c = c)
    (hother : ∀ c, c.isAlphanum = false → (f c).isAlphanum = false) (cs : List Char) :
    cutWords (cs.map f) = cutWords cs := by
  have hsplit : splitChars (fun c => !c.isAlphanum) (cs.map f) = splitChars (fun c => !c.isAlphanum) cs := by
    induction cs with
    | nil => rfl
    | cons c cs ih =>
      rw [List.map_cons, splitChars, splitChars, ih]
      by_cases hc : c.isAlphanum
      · rw [hword c hc]
      · rw [Bool.not_eq_true] at hc
        simp [hc, hother c hc]
  rw [cutWords, hsplit, cutWords]

/-- Topics are the same whatever class of characters is kept, if ASCII letters and digits are among them. -/
theorem topicsKeeping_eq {alphanumeric : Char → Bool} (hascii : ∀ c : Char, c.isAlphanum → alphanumeric c)
    (name : String) : topicsKeeping alphanumeric name = identifierTopics name := by
  apply ExtTreeSet.ext_mem
  intro t
  rw [topicsKeeping, mem_termSet, mem_identifierTopics, terms_eq, String.toList_ofList, termsIn, termsIn,
    wordsFrom_nil, wordsFrom_nil, cutWords_map]
  · intro c hc
    rw [if_pos (hascii c hc)]
  · intro c hc
    split
    · exact hc
    · rfl

/-- A topic: a word in small letters, of three characters or more, that is no stopword and its own only topic. -/
structure IsTopic (t : String) : Prop where
  long : 3 ≤ t.length
  small : ∀ c ∈ t.toList, c.isLower ∨ c.isDigit
  first : ∃ c ∈ t.toList.head?, c.isLower
  kept : t ∉ stopwords
  alone : identifierTopics t = {t}

/-- Terms are spelled in small letters and digits, a letter first. -/
theorem small_of_termOfWord {word : List Char} (hword : IsWord word) (hne : word ≠ []) {t : String}
    (h : termOfWord word = some t) :
    (∀ c ∈ t.toList, c.isLower ∨ c.isDigit) ∧ ∃ c ∈ t.toList.head?, c.isLower := by
  obtain ⟨rfl, -⟩ := termOfWord_eq_some_iff.1 h
  rw [String.toList_ofList]
  constructor
  · intro c hc
    obtain ⟨d, hd, rfl⟩ := List.mem_map.1 hc
    have halphanum := hword.alphanum d hd
    rwa [Char.isAlphanum, Bool.or_eq_true, ← Char.isLower_toLower_eq_isAlpha, ← isDigit_toLower] at halphanum
  · obtain ⟨d, ds, rfl⟩ := List.exists_cons_of_ne_nil hne
    have halphanum := hword.alphanum d List.mem_cons_self
    -- the first character is one that digits at the front would not leave
    have hdigit : ¬d.isDigit := by
      intro hdigit
      have hfirst := congrArg List.length hword.first
      rw [List.dropWhile_cons_of_pos hdigit, List.length_cons] at hfirst
      have hle := (List.dropWhile_sublist (l := ds) Char.isDigit).length_le
      omega
    refine ⟨d.toLower, rfl, ?_⟩
    rw [Char.isLower_toLower_eq_isAlpha]
    simpa [Char.isAlphanum, hdigit] using halphanum

theorem isTopic_of_mem {name t : String} (h : t ∈ identifierTopics name) : IsTopic t := by
  rw [mem_identifierTopics] at h
  obtain ⟨word, hword, hterm⟩ := List.mem_filterMap.1 h
  rw [wordsFrom_nil] at hword
  obtain ⟨hisWord, hne⟩ := isWord_of_mem_cutWords hword
  obtain ⟨hsmall, hfirst⟩ := small_of_termOfWord hisWord hne hterm
  obtain ⟨-, hlong, hkept⟩ := termOfWord_eq_some_iff.1 hterm
  refine ⟨hlong, hsmall, hfirst, hkept, ?alone⟩
  case alone =>
    have hcapitals : ∀ c ∈ t.toList, ¬c.isUpper := by
      intro c hc hupper
      rcases hsmall c hc with hlower | hdigit
      · exact Char.not_isLower_of_isUpper hupper hlower
      · have hnodigit : c.isDigit = false := isDigit_eq_false_of_isAlpha (by simp [Char.isAlpha, hupper])
        exact Bool.false_ne_true (hnodigit.symm.trans hdigit)
    have hself : terms t = [t] := by
      refine terms_of_mem (s := String.ofList (spaceHumps false name.toList)) ?_
      rw [terms_eq, String.toList_ofList]
      exact h
    rw [identifierTopics, spaceHumps_eq_self hcapitals, String.ofList_toList, termSet, hself]
    exact ExtTreeSet.ofList_singleton

/-! ### Parts of a name -/

/-- The topics of a name are those of its parts, where a character between them is not alphanumeric and where a hump
starts; each topic is a word that is its own only topic.  Alphanumeric are ASCII letters and digits and any other
characters: names keep these, and those that are not alphanumeric become blanks. -/
theorem identifierTopics_union {alphanumeric : Char → Bool} (hascii : ∀ c : Char, c.isAlphanum → alphanumeric c)
    (a b : String) :
    identifierTopics a = topicsKeeping alphanumeric a ∧
    (∀ c : Char, alphanumeric c = false →
      identifierTopics (a ++ String.singleton c ++ b) = identifierTopics a ∪ identifierTopics b) ∧
    ((∃ c ∈ a.toList.getLast?, c.isLower ∨ c.isDigit) → (∃ c ∈ b.toList.head?, c.isUpper) →
      identifierTopics (a ++ b) = identifierTopics a ∪ identifierTopics b) ∧
    ∀ t ∈ identifierTopics a, IsTopic t := by
  refine ⟨(topicsKeeping_eq hascii a).symm, ?_, ?_, fun t ht => isTopic_of_mem ht⟩
  · intro c hc
    have hseparator : c.isAlphanum = false := by
      rw [Bool.eq_false_iff]
      intro halphanum
      rw [hascii c halphanum] at hc
      cases hc
    refine identifierTopics_eq_union hseparator ?_
    rw [String.toList_append, String.toList_append, String.toList_singleton, List.append_assoc,
      List.singleton_append, spaceHumps_append_cons _ _ hseparator]
  · rintro ⟨c, hlast, hc⟩ ⟨d, hfirst, hd⟩
    obtain ⟨before, ha⟩ := List.getLast?_eq_some_iff.1 hlast
    obtain ⟨after, hb⟩ := List.head?_eq_some_iff.1 hfirst
    refine identifierTopics_eq_union (c := ' ') rfl ?_
    rw [String.toList_append, ha, hb, spaceHumps_hump before after (by simpa using hc) hd]

/-- A name with a letter that is alphanumeric but in no word, and with a digit at its end that a hump can follow. -/
def sampleName : String :=
  "cafémemoryGraph9"

theorem identifierTopics_union_sampleName :
    (∀ c : Char, c.isAlphanum → c.isAlphanum || c == 'é') ∧ (('_').isAlphanum || '_' == 'é') = false ∧
    (∃ c ∈ sampleName.toList.getLast?, c.isLower ∨ c.isDigit) ∧ (∃ c ∈ "SalienceNode".toList.head?, c.isUpper) ∧
    "graph9" ∈ identifierTopics sampleName ∧
    identifierTopics sampleName = topicsKeeping (fun c => c.isAlphanum || c == 'é') sampleName ∧
    identifierTopics (sampleName ++ String.singleton '_' ++ "SalienceNode") =
      identifierTopics sampleName ∪ identifierTopics "SalienceNode" ∧
    identifierTopics (sampleName ++ "SalienceNode") =
      identifierTopics sampleName ∪ identifierTopics "SalienceNode" ∧
    IsTopic "graph9" := by
  have hascii : ∀ c : Char, c.isAlphanum → c.isAlphanum || c == 'é' := fun c hc => by simp [hc]
  have hseparator : (('_').isAlphanum || '_' == 'é') = false := by decide
  have hlast : ∃ c ∈ sampleName.toList.getLast?, c.isLower ∨ c.isDigit := ⟨'9', by decide, by decide⟩
  have hfirst : ∃ c ∈ "SalienceNode".toList.head?, c.isUpper := ⟨'S', by decide, by decide⟩
  have hmem : "graph9" ∈ identifierTopics sampleName := mem_identifierTopics.2 (by decide +kernel)
  obtain ⟨hkept, hparts, hhump, htopics⟩ := identifierTopics_union hascii sampleName "SalienceNode"
  exact ⟨hascii, hseparator, hlast, hfirst, hmem, hkept, hparts '_' hseparator, hhump hlast hfirst, htopics _ hmem⟩

end EchoEngine.Text
