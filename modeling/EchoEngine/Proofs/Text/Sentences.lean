import EchoEngine.Proofs.Text.Words
import EchoEngine.Text.Sentences

/-!
# What sentences keep of a text

Between sentences only closing marks, newlines and white space are lost.  So whatever can be read off the parts of a
text between such characters can be read off its sentences one after another (`Parted.flatMap_sentences`): the terms
of the text, none of which is split, and the characters that are not lost.  No sentence goes past a newline, so the
sentences of two texts with a newline between them are those of one and those of the other (`sentences_newline`).
-/

namespace EchoEngine.Text

/-- A character that sentences may end at and that may be lost between them. -/
def isBreak (c : Char) : Bool :=
  isClosingMark c || c = '\n' || isBlank c

/-! ### Readings that breaks part -/

/-- What a break parts into what is read before it and what is read behind it. -/
structure Parted {α : Type} (f : List Char → List α) : Prop where
  nil : f [] = []
  append_cons : ∀ a b c, isBreak c → f (a ++ c :: b) = f a ++ f b

namespace Parted

variable {α : Type} {f : List Char → List α}

theorem breaks_append (h : Parted f) {front : List Char} (hfront : ∀ c ∈ front, isBreak c) (cs : List Char) :
    f (front ++ cs) = f cs := by
  induction front with
  | nil => rfl
  | cons c front ih =>
    rw [List.forall_mem_cons] at hfront
    have hstep := h.append_cons [] (front ++ cs) c hfront.1
    rw [List.cons_append, ← List.nil_append (c :: _), hstep, h.nil, List.nil_append, ih hfront.2]

theorem append_breaks (h : Parted f) (cs : List Char) {back : List Char} (hback : ∀ c ∈ back, isBreak c) :
    f (cs ++ back) = f cs := by
  cases back with
  | nil => rw [List.append_nil]
  | cons c back =>
    rw [List.forall_mem_cons] at hback
    have hrest := h.breaks_append hback.2 []
    rw [List.append_nil] at hrest
    rw [h.append_cons cs back c hback.1, hrest, h.nil, List.append_nil]

end Parted

theorem isBreak_of_isClosingMark {c : Char} (h : isClosingMark c) : isBreak c := by
  simp [isBreak, h]

theorem isBreak_of_isBlank {c : Char} (h : isBlank c) : isBreak c := by
  simp [isBreak, h]

theorem isBreak_newline : isBreak '\n' :=
  rfl

/-- No break is in a word. -/
theorem isAlphanum_of_isBreak {c : Char} (h : isBreak c) : c.isAlphanum = false := by
  rw [isBreak, Bool.or_eq_true, Bool.or_eq_true] at h
  rcases h with (hmark | hnewline) | hblank
  · rw [isClosingMark, Bool.or_eq_true, Bool.or_eq_true] at hmark
    rcases hmark with (h | h) | h <;> obtain rfl := of_decide_eq_true h <;> rfl
  · obtain rfl := of_decide_eq_true hnewline
    rfl
  · rw [Bool.eq_false_iff, ne_eq, isAlphanum_iff]
    simp only [isBlank, Bool.or_eq_true, Bool.and_eq_true, decide_eq_true_eq] at hblank
    omega

theorem parted_termsIn : Parted termsIn where
  nil := rfl
  append_cons a b _ hc := termsIn_append_cons a b (isAlphanum_of_isBreak hc)

theorem parted_filter : Parted (List.filter fun c => !isBreak c) where
  nil := rfl
  append_cons a b c hc := by simp [hc]

/-! ### Trimming -/

/-- Trimming takes white space from both ends. -/
theorem exists_trimChars (cs : List Char) :
    ∃ front back, front ++ trimChars cs ++ back = cs ∧ (∀ c ∈ front, isBlank c) ∧ ∀ c ∈ back, isBlank c := by
  have hback : trimChars cs ++ (cs.dropWhile isBlank).rtakeWhile isBlank = cs.dropWhile isBlank :=
    List.rdropWhile_append_rtakeWhile
  refine ⟨cs.takeWhile isBlank, (cs.dropWhile isBlank).rtakeWhile isBlank, ?_, ?_, ?_⟩
  · rw [List.append_assoc, hback, List.takeWhile_append_dropWhile]
  · exact fun c hc => List.mem_takeWhile_imp hc
  · exact fun c hc => List.mem_rtakeWhile_imp hc

theorem isBlank_of_mem_head?_trimChars {cs : List Char} {c : Char} (h : c ∈ (trimChars cs).head?) :
    isBlank c = false := by
  have hstart : trimChars cs <+: cs.dropWhile isBlank := List.rdropWhile_prefix isBlank _
  have hfirst := List.head?_dropWhile_not isBlank cs
  obtain ⟨back, hback⟩ := hstart
  have hhead : (trimChars cs ++ back).head? = some c := by
    rw [List.head?_append, Option.mem_def.1 h, Option.some_or]
  rw [← hback, hhead] at hfirst
  exact hfirst

theorem isBlank_of_mem_getLast?_trimChars {cs : List Char} {c : Char} (h : c ∈ (trimChars cs).getLast?) :
    isBlank c = false := by
  obtain ⟨hne, rfl⟩ := List.mem_getLast?_eq_getLast h
  exact Bool.eq_false_iff.2 (List.rdropWhile_last_not isBlank (cs.dropWhile isBlank) hne)

theorem Parted.trimChars {α : Type} {f : List Char → List α} (h : Parted f) (cs : List Char) :
    f (Text.trimChars cs) = f cs := by
  obtain ⟨front, back, hcs, hfront, hback⟩ := exists_trimChars cs
  rw [← h.breaks_append (fun c hc => isBreak_of_isBlank (hfront c hc)),
    ← h.append_breaks _ fun c hc => isBreak_of_isBlank (hback c hc), hcs]

/-! ### The scan -/

/-- After a mark come nothing but marks. -/
def MarksLast (cs : List Char) : Prop :=
  cs.Pairwise fun c d => isClosingMark c → isClosingMark d
deriving Decidable

/-- The sentence being read is within one line, its marks are its last characters, and it is closed if and only if
the last of them is one. -/
structure Reading (run : List Char) (closed : Bool) : Prop where
  newline : '\n' ∉ run
  marksLast : MarksLast run.reverse
  unclosed : closed = false → ∀ c ∈ run, isClosingMark c = false
  closing : closed = true → ∃ m before, run = m :: before ∧ isClosingMark m

namespace Reading

variable {run : List Char} {closed : Bool} {c : Char}

theorem start : Reading [] false :=
  ⟨List.not_mem_nil, .nil, fun _ => nofun, nofun⟩

theorem mark (h : Reading run closed) (hmark : isClosingMark c) : Reading (c :: run) true where
  newline := by
    have hne : '\n' ≠ c := by
      rintro rfl
      cases hmark
    exact List.not_mem_cons_of_ne_of_not_mem hne h.newline
  marksLast := by
    rw [MarksLast, List.reverse_cons, List.pairwise_append]
    refine ⟨h.marksLast, List.pairwise_singleton _ _, ?_⟩
    intro _ _ d hd _
    rwa [List.mem_singleton.1 hd]
  unclosed := nofun
  closing _ := ⟨c, run, rfl, hmark⟩

theorem other (h : Reading run false) (hmark : isClosingMark c = false) (hnewline : c ≠ '\n') :
    Reading (c :: run) false where
  newline := List.not_mem_cons_of_ne_of_not_mem (Ne.symm hnewline) h.newline
  marksLast := by
    rw [MarksLast, List.reverse_cons, List.pairwise_append]
    refine ⟨h.marksLast, List.pairwise_singleton _ _, ?_⟩
    intro d hd _ _ hd'
    rw [h.unclosed rfl d (List.mem_reverse.1 hd)] at hd'
    cases hd'
  unclosed _ := List.forall_mem_cons.2 ⟨hmark, h.unclosed rfl⟩
  closing := nofun

/-- What is read off the sentences is read off the text. -/
theorem flatMap_sentencesFrom (h : Reading run closed) {α : Type} {f : List Char → List α} (hf : Parted f)
    (cs : List Char) : (sentencesFrom run closed cs).flatMap f = f (run.reverse ++ cs) := by
  have hfinished (run : List Char) : (finished run).flatMap f = f run.reverse := by
    cases run <;> simp [finished, hf.nil]
  induction cs generalizing run closed with
  | nil => rw [sentencesFrom, hfinished, List.append_nil]
  | cons c cs ih =>
    rw [sentencesFrom]
    split_ifs with hmark hempty hnewline hclosed
    · obtain rfl : run = [] := List.isEmpty_iff.1 hempty
      have hskip := hf.append_cons [] cs c (isBreak_of_isClosingMark hmark)
      rw [hf.nil, List.nil_append, List.nil_append] at hskip
      rw [ih start, List.reverse_nil, List.nil_append, List.nil_append, hskip]
    · rw [ih (h.mark hmark), List.reverse_cons, List.append_assoc, List.singleton_append]
    · rw [hnewline, List.flatMap_append, hfinished, ih start, hf.append_cons _ _ _ isBreak_newline]
      rfl
    · -- the mark before this character is what parts the sentences
      obtain ⟨m, before, rfl, hm⟩ := h.closing hclosed
      have hbreak := isBreak_of_isClosingMark hm
      have hfront : f (m :: before).reverse = f before.reverse := by
        rw [List.reverse_cons, hf.append_breaks _ (by simpa using hbreak)]
      have hwhole : f ((m :: before).reverse ++ c :: cs) = f before.reverse ++ f (c :: cs) := by
        rw [List.reverse_cons, List.append_assoc, List.singleton_append, hf.append_cons _ _ m hbreak]
      rw [List.flatMap_append, hfinished, ih (start.other (Bool.eq_false_iff.2 hmark) hnewline), hfront, hwhole]
      rfl
    · obtain rfl : closed = false := Bool.eq_false_iff.2 hclosed
      rw [ih (h.other (Bool.eq_false_iff.2 hmark) hnewline), List.reverse_cons, List.append_assoc,
        List.singleton_append]

/-- Every sentence is one that could be read. -/
theorem of_mem_sentencesFrom (h : Reading run closed) {cs sentence : List Char}
    (hmem : sentence ∈ sentencesFrom run closed cs) : '\n' ∉ sentence ∧ MarksLast sentence := by
  have hfinished {run : List Char} {closed : Bool} (h : Reading run closed) (hmem : sentence ∈ finished run) :
      '\n' ∉ sentence ∧ MarksLast sentence := by
    rw [finished] at hmem
    split at hmem
    · cases hmem
    · rw [List.mem_singleton.1 hmem, List.mem_reverse]
      exact ⟨h.newline, h.marksLast⟩
  induction cs generalizing run closed with
  | nil => exact hfinished h hmem
  | cons c cs ih =>
    rw [sentencesFrom] at hmem
    split_ifs at hmem with hmark hempty hnewline hclosed
    · exact ih start hmem
    · exact ih (h.mark hmark) hmem
    · rw [List.mem_append] at hmem
      exact hmem.elim (hfinished h) (ih start)
    · rw [List.mem_append] at hmem
      exact hmem.elim (hfinished h) (ih (start.other (Bool.eq_false_iff.2 hmark) hnewline))
    · obtain rfl : closed = false := Bool.eq_false_iff.2 hclosed
      exact ih (h.other (Bool.eq_false_iff.2 hmark) hnewline) hmem

end Reading

/-- No sentence ends before a newline, or a character behind its marks. -/
theorem sentencesFrom_eq_finished {run cs : List Char} {closed : Bool} (hnewline : '\n' ∉ cs) (hmarks : MarksLast cs)
    (hfirst : run = [] → ∀ c ∈ cs.head?, isClosingMark c = false)
    (hclosed : closed = true → ∀ c ∈ cs, isClosingMark c) :
    sentencesFrom run closed cs = finished (cs.reverse ++ run) := by
  induction cs generalizing run closed with
  | nil => rfl
  | cons c cs ih =>
    rw [List.mem_cons, not_or] at hnewline
    rw [MarksLast, List.pairwise_cons] at hmarks
    rw [sentencesFrom, List.reverse_cons, List.append_assoc, List.singleton_append]
    have hcons : c :: run = [] → ∀ d ∈ cs.head?, isClosingMark d = false := nofun
    split_ifs with hmark hempty hline hend
    · have hplain := hfirst (List.isEmpty_iff.1 hempty) c rfl
      rw [hmark] at hplain
      cases hplain
    · exact ih hnewline.2 hmarks.2 hcons fun _ d hd => hmarks.1 d hd hmark
    · exact absurd hline.symm hnewline.1
    · exact absurd (hclosed hend c List.mem_cons_self) hmark
    · exact ih hnewline.2 hmarks.2 hcons nofun

theorem sentencesFrom_append_newline (run : List Char) (closed : Bool) (a b : List Char) :
    sentencesFrom run closed (a ++ '\n' :: b) = sentencesFrom run closed a ++ sentencesFrom [] false b := by
  induction a generalizing run closed with
  | nil =>
    have hmark : isClosingMark '\n' = false := rfl
    simp [sentencesFrom, hmark]
  | cons c a ih =>
    rw [List.cons_append, sentencesFrom, sentencesFrom]
    split_ifs <;> simp [ih]

/-! ### Sentences -/

theorem Parted.flatMap_sentences {α : Type} {f : List Char → List α} (h : Parted f) (s : String) :
    (sentences s).flatMap (fun t => f t.toList) = f s.toList := by
  have hscan := Reading.start.flatMap_sentencesFrom h s.toList
  rw [List.reverse_nil, List.nil_append] at hscan
  rw [← hscan, sentences]
  induction sentencesFrom [] false s.toList with
  | nil => rfl
  | cons sentence rest ih =>
    rw [List.map_cons, List.filter_cons, List.flatMap_cons, ← ih, ← h.trimChars sentence]
    cases Text.trimChars sentence <;> simp [h.nil]

theorem mem_sentences {s t : String} (h : t ∈ sentences s) :
    ∃ sentence ∈ sentencesFrom [] false s.toList, t.toList = trimChars sentence ∧ t ≠ "" := by
  obtain ⟨trimmed, htrimmed, rfl⟩ := List.mem_map.1 h
  rw [List.mem_filter] at htrimmed
  obtain ⟨hmem, hne⟩ := htrimmed
  obtain ⟨sentence, hsentence, rfl⟩ := List.mem_map.1 hmem
  refine ⟨sentence, hsentence, String.toList_ofList, ?_⟩
  simpa [← String.toList_inj] using hne

theorem sentences_newline (s t : String) : sentences (s ++ "\n" ++ t) = sentences s ++ sentences t := by
  have hchars : (s ++ "\n" ++ t).toList = s.toList ++ '\n' :: t.toList := by
    simp [String.toList_append]
  simp only [sentences, hchars, sentencesFrom_append_newline, List.map_append, List.filter_append]

/-- A text that is within one line, with marks at its end only, is one sentence unless it is blank. -/
theorem sentences_eq_singleton {s : String} (hnewline : '\n' ∉ s.toList) (hmarks : MarksLast s.toList)
    (hfirst : ∀ c ∈ s.toList.head?, isClosingMark c = false) (hblank : trim s ≠ "") : sentences s = [trim s] := by
  have hscan : sentencesFrom [] false s.toList = finished (s.toList.reverse ++ []) :=
    sentencesFrom_eq_finished hnewline hmarks (fun _ => hfirst) nofun
  have htrim : trimChars s.toList ≠ [] := by
    simpa [trim, ← String.toList_inj] using hblank
  have hne : s.toList ≠ [] := by
    intro hnil
    rw [hnil] at htrim
    exact htrim rfl
  rw [sentences, hscan, List.append_nil, finished, List.isEmpty_reverse, List.reverse_reverse]
  simp [hne, htrim, trim]

/-- Sentences keep the terms of a text and every character that is no break, in their order.  Each of them is a text
within one line, with no white space at its ends and with marks nowhere but at its end. -/
structure Segments (sentences : List String) (s : String) : Prop where
  terms : sentences.flatMap terms = terms s
  kept : (sentences.flatMap String.toList).filter (fun c => !isBreak c) = s.toList.filter fun c => !isBreak c
  ne_empty : ∀ t ∈ sentences, t ≠ ""
  head : ∀ t ∈ sentences, ∀ c ∈ t.toList.head?, isBlank c = false
  last : ∀ t ∈ sentences, ∀ c ∈ t.toList.getLast?, isBlank c = false
  newline : ∀ t ∈ sentences, '\n' ∉ t.toList
  marksLast : ∀ t ∈ sentences, MarksLast t.toList

theorem segments (s : String) : Segments (sentences s) s := by
  have hshape : ∀ t ∈ sentences s, '\n' ∉ t.toList ∧ MarksLast t.toList := by
    intro t ht
    obtain ⟨sentence, hsentence, htrim, -⟩ := mem_sentences ht
    obtain ⟨front, back, hparts, -, -⟩ := exists_trimChars sentence
    have hsublist : List.Sublist t.toList sentence := by
      rw [htrim]
      nth_rewrite 2 [← hparts]
      rw [List.append_assoc]
      exact (List.sublist_append_left _ _).trans (List.sublist_append_right _ _)
    obtain ⟨hnewline, hmarks⟩ := Reading.start.of_mem_sentencesFrom hsentence
    exact ⟨fun hmem => hnewline (hsublist.mem hmem), hmarks.sublist hsublist⟩
  refine ⟨parted_termsIn.flatMap_sentences s, ?kept, ?ne_empty, ?head, ?last, fun t ht => (hshape t ht).1,
    fun t ht => (hshape t ht).2⟩
  case kept =>
    rw [List.filter_flatMap, ← parted_filter.flatMap_sentences s]
  case ne_empty =>
    intro t ht
    obtain ⟨_, _, _, hne⟩ := mem_sentences ht
    exact hne
  case head =>
    intro t ht c hc
    obtain ⟨_, _, htrim, _⟩ := mem_sentences ht
    rw [htrim] at hc
    exact isBlank_of_mem_head?_trimChars hc
  case last =>
    intro t ht c hc
    obtain ⟨_, _, htrim, _⟩ := mem_sentences ht
    rw [htrim] at hc
    exact isBlank_of_mem_getLast?_trimChars hc

/-- Sentences segment a text, those of texts in lines of their own are those of one text and then the other, and a
text that has the form of a sentence is its own only one. -/
theorem segments_sentences (s : String) :
    Segments (sentences s) s ∧
    (∀ t, sentences (s ++ "\n" ++ t) = sentences s ++ sentences t) ∧
    ('\n' ∉ s.toList → MarksLast s.toList → (∀ c ∈ s.toList.head?, isClosingMark c = false) → trim s ≠ "" →
      sentences s = [trim s]) :=
  ⟨segments s, sentences_newline s, sentences_eq_singleton⟩

/-- Marks in front are skipped, and a mark behind white space closes a sentence of its own. -/
example : sentences "..a. b?! \n .c" = ["a.", "b?!", ".", "c"] := by
  decide +kernel

def sampleLine : String :=
  " Echo trees, 3 of them?!"

theorem segments_sentences_sampleLine :
    '\n' ∉ sampleLine.toList ∧ MarksLast sampleLine.toList ∧
    (∀ c ∈ sampleLine.toList.head?, isClosingMark c = false) ∧ trim sampleLine ≠ "" ∧
    Segments (sentences sampleLine) sampleLine ∧ sentences sampleLine = ["Echo trees, 3 of them?!"] ∧
    sentences (sampleLine ++ "\n" ++ "They grow.") = sentences sampleLine ++ sentences "They grow." := by
  have hnewline : '\n' ∉ sampleLine.toList := by decide +kernel
  have hmarks : MarksLast sampleLine.toList := by decide +kernel
  have hhead : sampleLine.toList.head? = some ' ' := by decide +kernel
  have hfirst : ∀ c ∈ sampleLine.toList.head?, isClosingMark c = false := by
    rw [hhead]
    intro c hc
    obtain rfl := Option.mem_some.1 hc
    rfl
  have htrim : trim sampleLine = "Echo trees, 3 of them?!" := by decide +kernel
  have hblank : trim sampleLine ≠ "" := by
    rw [htrim]
    decide
  obtain ⟨hsegments, hlines, hone⟩ := segments_sentences sampleLine
  have hsentences := hone hnewline hmarks hfirst hblank
  rw [htrim] at hsentences
  exact ⟨hnewline, hmarks, hfirst, hblank, hsegments, hsentences, hlines "They grow."⟩

end EchoEngine.Text
