import EchoEngine.Toml.Parser
import EchoEngine.Toml.Printer
import Mathlib.Order.Nat
import Mathlib.Tactic.SplitIfs

/-!
# Strings that are written and read

A string is written between the plainest quotes that will do, and however it is written it is read as the same string
(`string?_quote`).  On one line this goes character by character, each of which is written as itself or as an escape
(`Writes`).

In a string of several lines the reader looks for closing quotes first.  It finds three quotes in a row only where the
string ends, as the writer escapes every third one, or leaves a string with so many to other quotes.  Up to two quotes
right before the closing ones belong to the string (`Trailing`).
-/

namespace EchoEngine.Toml

/-! ### One character -/

/-- A character is written as itself, or as a backslash and what `escape?` reads as that character. -/
inductive Writes (c : Char) : List Char → Prop
  | plain (hplain : isPlain c = true) (hquote : c ≠ '"') (hbackslash : c ≠ '\\') : Writes c [c]
  | escape {e : Char} {cs : List Char} (hfold : isSpace e = false ∧ e ≠ '\n' ∧ e ≠ '\r')
    (hread : ∀ rest, escape? (e :: cs ++ rest) = some (c, rest)) : Writes c ('\\' :: e :: cs)

theorem charOfHex?_unicodeEscape {c : Char} (h : needsEscape c = true) :
    ∃ a b d e, unicodeEscape c = ['\\', 'u', a, b, d, e] ∧ charOfHex? [a, b, d, e] = some c := by
  have hall : ∀ n : Fin 128, charOfHex? ((unicodeEscape (.ofNat n)).drop 2) = some (.ofNat n) := by decide +kernel
  have hsmall : c.toNat < 128 := by
    simp only [needsEscape, Bool.or_eq_true, Bool.and_eq_true, decide_eq_true_eq] at h
    omega
  have hc := hall ⟨c.toNat, hsmall⟩
  rw [Char.ofNat_toNat] at hc
  exact ⟨_, _, _, _, rfl, hc⟩

theorem ne_of_isPlain {c : Char} (h : isPlain c = true) : c ≠ '\n' ∧ c ≠ '\r' := by
  constructor <;> (rintro rfl; revert h; decide)

theorem isPlain_of_needsEscape_eq_false {c : Char} (h : needsEscape c = false) (hline : c ≠ '\n') :
    isPlain c = true := by
  simp only [needsEscape, isPlain, Bool.or_eq_false_iff, Bool.and_eq_false_iff, decide_eq_false_iff_not,
    Bool.or_eq_true, Bool.and_eq_true, decide_eq_true_eq] at h ⊢
  by_cases htab : c = '\t'
  · exact .inl htab
  · refine .inr ⟨?_, h.2⟩
    simpa [htab, hline] using h.1

theorem writes_escaped (c : Char) : Writes c (escaped c) := by
  unfold escaped
  split
  case h_8 =>
    split_ifs with hescape
    · obtain ⟨a, b, d, e, htext, hread⟩ := charOfHex?_unicodeEscape hescape
      rw [htext]
      refine .escape ⟨by decide, by decide, by decide⟩ fun rest => ?_
      simp [escape?, hread]
    · rename_i hquote hbackslash
      exact .plain (isPlain_of_needsEscape_eq_false (Bool.eq_false_iff.2 hescape) ‹_›) hquote hbackslash
  all_goals exact .escape ⟨by decide, by decide, by decide⟩ fun rest => rfl

theorem Writes.length_pos {c : Char} {text : List Char} (h : Writes c text) : 0 < text.length := by
  cases h <;> exact Nat.succ_pos _

/-! ### Basic strings -/

theorem Writes.basic?_append {c : Char} {text : List Char} (h : Writes c text) (fuel : Nat) (cs : List Char) :
    basic? (fuel + 1) (text ++ cs) = (basic? fuel cs).map fun (s, rest) => (c :: s, rest) := by
  cases h with
  | plain hplain hquote hbackslash =>
    rw [List.singleton_append, basic?, hplain]
    · cases basic? fuel cs <;> rfl
    · exact hquote
    · exact hbackslash
  | escape hfold hread =>
    rw [List.cons_append, basic?, hread, Option.bind_eq_bind, Option.bind_some]
    dsimp only
    cases basic? fuel cs <;> rfl

theorem basic?_flatMap {cs rest : List Char} {fuel : Nat} (hfuel : (cs.flatMap escaped).length < fuel) :
    basic? fuel (cs.flatMap escaped ++ '"' :: rest) = some (cs, rest) := by
  induction cs generalizing fuel with
  | nil =>
    obtain ⟨fuel, rfl⟩ := Nat.exists_eq_succ_of_ne_zero (Nat.ne_zero_of_lt hfuel)
    rfl
  | cons c cs ih =>
    have hwrites := writes_escaped c
    have hpos := hwrites.length_pos
    rw [List.flatMap_cons, List.length_append] at hfuel
    obtain ⟨fuel, rfl⟩ : ∃ n, fuel = n + 1 := Nat.exists_eq_succ_of_ne_zero (by omega)
    rw [List.flatMap_cons, List.append_assoc, hwrites.basic?_append, ih (by omega)]
    rfl

/-! ### Ends of strings of several lines -/

/-- A text does not go on with a quote. -/
def Unquoted (quote : Char) (rest : List Char) : Prop :=
  rest.head? ≠ some quote

theorem takeWhile_replicate_append {quote : Char} {rest : List Char} (hrest : Unquoted quote rest) (n : Nat) :
    (List.replicate n quote ++ rest).takeWhile (· = quote) = List.replicate n quote := by
  rw [List.takeWhile_append_of_pos fun c hc => decide_eq_true (List.eq_of_mem_replicate hc)]
  cases rest with
  | nil => exact List.append_nil _
  | cons c rest =>
    have hne : ¬c = quote := fun heq => hrest (congrArg some heq)
    rw [List.takeWhile_cons_of_neg (by simpa using hne), List.append_nil]

/-- Up to two quotes in front of the closing ones belong to the string. -/
theorem closing?_replicate {quote : Char} {rest : List Char} (hrest : Unquoted quote rest) {n : Nat} (hn : n ≤ 2) :
    closing? quote (List.replicate (n + 3) quote ++ rest) = some (List.replicate n quote, rest) := by
  have hdrop : (List.replicate (n + 3) quote ++ rest).drop (n + 3) = rest := List.drop_left' List.length_replicate
  rw [closing?, takeWhile_replicate_append hrest, List.length_replicate]
  match n, hn with
  | 0, _ | 1, _ | 2, _ => exact congrArg (fun rest => some (_, rest)) hdrop

theorem closing?_eq_none {quote : Char} {cs : List Char} (h : (cs.takeWhile (· = quote)).length ≤ 2) :
    closing? quote cs = none := by
  rw [closing?]
  generalize (cs.takeWhile (· = quote)).length = n at h
  match n, h with
  | 0, _ | 1, _ | 2, _ => rfl

/-! ### Basic strings of several lines -/

/-- Nothing but quotes are left, and no more than can stand in front of the closing ones. -/
def Trailing (quote : Char) (quotes : Nat) (cs : List Char) : Prop :=
  ∃ n, cs = List.replicate n quote ∧ quotes + n ≤ 2

theorem Trailing.of_cons {quote : Char} {quotes : Nat} {cs : List Char} (h : Trailing quote (quotes + 1) cs) :
    Trailing quote quotes (quote :: cs) := by
  obtain ⟨n, rfl, hn⟩ := h
  exact ⟨n + 1, List.replicate_succ.symm, by omega⟩

theorem Writes.exists_cons {c : Char} {text : List Char} (h : Writes c text) :
    ∃ d cs, text = d :: cs ∧ d ≠ '"' ∧ d ≠ '\n' ∧ d ≠ '\r' := by
  cases h with
  | plain hplain hquote => exact ⟨c, [], rfl, hquote, ne_of_isPlain hplain⟩
  | escape => exact ⟨'\\', _, rfl, by decide⟩

theorem takeWhile_cons_self (quote : Char) (cs : List Char) :
    (quote :: cs).takeWhile (· = quote) = quote :: cs.takeWhile (· = quote) :=
  List.takeWhile_cons_of_pos (decide_eq_true rfl)

theorem takeWhile_cons_of_ne {quote c : Char} (h : c ≠ quote) (cs : List Char) :
    (c :: cs).takeWhile (· = quote) = [] :=
  List.takeWhile_cons_of_neg (by simpa using h)

theorem escapedLines_of_trailing {quotes : Nat} {cs : List Char} (h : Trailing '"' quotes cs) :
    escapedLines quotes cs = cs := by
  obtain ⟨n, rfl, hn⟩ := h
  induction n generalizing quotes with
  | zero => rfl
  | succ n ih =>
    have hne : quotes ≠ 2 := by omega
    rw [List.replicate_succ, escapedLines, if_neg hne, ih (by omega)]

/-- Ends of lines are kept, other characters are written as in a string on one line. -/
theorem escapedLines_cons_of_ne {c : Char} (hquote : c ≠ '"') (quotes : Nat) (cs : List Char) :
    escapedLines quotes (c :: cs) = (if c = '\n' then ['\n'] else escaped c) ++ escapedLines 0 cs := by
  split_ifs with hline
  · rw [hline]
    rfl
  · rw [escapedLines]
    · exact hline
    · exact hquote

theorem exists_escapedLines_cons {c : Char} (hquote : c ≠ '"') (quotes : Nat) (cs : List Char) :
    ∃ d text, escapedLines quotes (c :: cs) = d :: text ∧ d ≠ '"' := by
  rw [escapedLines_cons_of_ne hquote]
  split_ifs
  · exact ⟨'\n', _, rfl, by decide⟩
  · obtain ⟨d, text, htext, hd, -⟩ := (writes_escaped c).exists_cons
    rw [htext]
    exact ⟨d, _, rfl, hd⟩

/-- Quotes that stand together are three only at the end. -/
theorem length_takeWhile_escapedLines {quotes : Nat} {cs : List Char} (hquotes : quotes ≤ 2)
    (h : ¬Trailing '"' quotes cs) (rest : List Char) :
    ((escapedLines quotes cs ++ rest).takeWhile (· = '"')).length ≤ 2 - quotes := by
  induction cs generalizing quotes with
  | nil => exact absurd ⟨0, rfl, hquotes⟩ h
  | cons c cs ih =>
    by_cases hc : c = '"'
    · subst hc
      rw [escapedLines]
      split_ifs with hfull
      · exact Nat.zero_le _
      · have hrest := ih (show quotes + 1 ≤ 2 by omega) fun htrailing => h htrailing.of_cons
        rw [List.cons_append, takeWhile_cons_self, List.length_cons]
        omega
    · obtain ⟨d, text, htext, hd⟩ := exists_escapedLines_cons hc quotes cs
      rw [htext, List.cons_append, takeWhile_cons_of_ne hd]
      exact Nat.zero_le _

theorem foldedLine?_eq_none {e : Char} (h : isSpace e = false ∧ e ≠ '\n' ∧ e ≠ '\r') (cs : List Char) :
    foldedLine? (e :: cs) = none := by
  obtain ⟨hspace, hline, hreturn⟩ := h
  have hskip : skipSpace (e :: cs) = e :: cs := List.dropWhile_cons_of_neg (by simp [hspace])
  rw [foldedLine?, hskip, newline?]
  · rfl
  all_goals simp_all

theorem closing?_cons_of_ne {quote c : Char} (h : c ≠ quote) (cs : List Char) : closing? quote (c :: cs) = none := by
  refine closing?_eq_none ?_
  rw [takeWhile_cons_of_ne h]
  exact Nat.zero_le _

section

variable {c : Char} {cs : List Char} (fuel : Nat)

attribute [local simp] longBasic?

theorem longBasic?_of_closing? {r : List Char × List Char} (h : closing? '"' cs = some r) :
    longBasic? (fuel + 1) cs = some r := by
  rw [longBasic?.eq_def]
  dsimp only
  rw [h]

theorem longBasic?_cons (hplain : isPlain c = true) (hbackslash : c ≠ '\\') (hopen : closing? '"' (c :: cs) = none) :
    longBasic? (fuel + 1) (c :: cs) = (longBasic? fuel cs).map fun (s, rest) => (c :: s, rest) := by
  obtain ⟨hline, hreturn⟩ := ne_of_isPlain hplain
  rw [longBasic?, hopen, hplain]
  · cases longBasic? fuel cs <;> rfl
  · exact hbackslash
  · exact fun _ h => absurd h hreturn
  · exact hline

theorem longBasic?_newline (cs : List Char) :
    longBasic? (fuel + 1) ('\n' :: cs) = (longBasic? fuel cs).map fun (s, rest) => ('\n' :: s, rest) := by
  have hopen : closing? '"' ('\n' :: cs) = none := closing?_cons_of_ne (by decide) cs
  cases htail : longBasic? fuel cs <;> simp [hopen, htail]

theorem Writes.longBasic?_append {text : List Char} (h : Writes c text) (cs : List Char) :
    longBasic? (fuel + 1) (text ++ cs) = (longBasic? fuel cs).map fun (s, rest) => (c :: s, rest) := by
  cases h with
  | plain hplain hquote hbackslash =>
    exact longBasic?_cons fuel hplain hbackslash (closing?_cons_of_ne hquote cs)
  | @escape e text hfold hread =>
    have hopen : closing? '"' ('\\' :: (e :: text ++ cs)) = none := closing?_cons_of_ne (by decide) _
    rw [List.cons_append, longBasic?, hopen, List.cons_append, foldedLine?_eq_none hfold, ← List.cons_append, hread,
      Option.bind_eq_bind, Option.bind_some]
    dsimp only
    cases longBasic? fuel cs <;> rfl

end

/-- A string of several lines is read up to its closing quotes. -/
theorem longBasic?_escapedLines {cs rest : List Char} {quotes fuel : Nat} (hquotes : quotes ≤ 2)
    (hrest : Unquoted '"' rest) (hfuel : (escapedLines quotes cs).length < fuel) :
    longBasic? fuel (escapedLines quotes cs ++ (List.replicate 3 '"' ++ rest)) = some (cs, rest) := by
  induction cs generalizing quotes fuel with
  | nil =>
    obtain ⟨fuel, rfl⟩ := Nat.exists_eq_succ_of_ne_zero (Nat.ne_zero_of_lt hfuel)
    exact longBasic?_of_closing? fuel (closing?_replicate hrest (Nat.zero_le 2))
  | cons c cs ih =>
    obtain ⟨fuel, rfl⟩ := Nat.exists_eq_succ_of_ne_zero (Nat.ne_zero_of_lt hfuel)
    by_cases htrailing : Trailing '"' quotes (c :: cs)
    · -- nothing but quotes are left, which the reader takes together with the closing ones
      rw [escapedLines_of_trailing htrailing]
      obtain ⟨n, heq, hn⟩ := htrailing
      rw [heq, ← List.append_assoc, List.replicate_append_replicate]
      exact longBasic?_of_closing? fuel (closing?_replicate hrest (by omega))
    · have hshort := length_takeWhile_escapedLines hquotes htrailing (List.replicate 3 '"' ++ rest)
      have hopen := closing?_eq_none (hshort.trans (Nat.sub_le 2 quotes))
      by_cases hc : c = '"'
      · subst hc
        rw [escapedLines] at hfuel hopen ⊢
        split_ifs at hfuel hopen ⊢ with hfull
        · have hread := (writes_escaped '"').longBasic?_append fuel
            (escapedLines 0 cs ++ (List.replicate 3 '"' ++ rest))
          simp only [List.length_cons] at hfuel
          rw [ih (Nat.zero_le 2) (by omega)] at hread
          exact hread
        · simp only [List.length_cons] at hfuel
          rw [List.cons_append] at hopen ⊢
          rw [longBasic?_cons fuel (by decide) (by decide) hopen, ih (by omega) (by omega)]
          rfl
      · rw [escapedLines_cons_of_ne hc] at hfuel ⊢
        rw [List.append_assoc]
        split_ifs at hfuel ⊢ with hline
        · rw [List.singleton_append, List.length_cons] at hfuel
          rw [List.singleton_append, longBasic?_newline, ih (Nat.zero_le 2) (by omega), hline]
          rfl
        · have hwrites := writes_escaped c
          have hpos := hwrites.length_pos
          rw [List.length_append] at hfuel
          rw [hwrites.longBasic?_append, ih (Nat.zero_le 2) (by omega)]
          rfl

/-! ### Literal strings -/

theorem literal?_append {cs : List Char} (hcs : ∀ c ∈ cs, c ≠ '\'' ∧ isPlain c = true) (rest : List Char) :
    literal? (cs ++ '\'' :: rest) = some (cs, rest) := by
  have hinside : ∀ c ∈ cs, (decide (c ≠ '\'') && isPlain c) = true := by
    intro c hc
    simpa using hcs c hc
  rw [literal?, List.dropWhile_append_of_pos hinside, List.takeWhile_append_of_pos hinside]
  rw [List.dropWhile_cons_of_neg (by decide), List.takeWhile_cons_of_neg (by decide), List.append_nil]
  rfl

theorem le_longestRun (quote : Char) (run : Nat) (cs : List Char) : run ≤ longestRun quote run cs := by
  induction cs generalizing run with
  | nil => exact le_rfl
  | cons c cs ih =>
    rw [longestRun]
    split_ifs
    · exact (Nat.le_succ run).trans (ih (run + 1))
    · exact le_max_left _ _

theorem not_mem_of_longestRun {quote : Char} {cs : List Char} {run : Nat} (h : longestRun quote run cs = 0) :
    quote ∉ cs := by
  induction cs generalizing run with
  | nil => exact List.not_mem_nil
  | cons c cs ih =>
    rw [longestRun] at h
    split_ifs at h with hc
    · have hle := le_longestRun quote (run + 1) cs
      omega
    · rw [List.mem_cons, not_or]
      exact ⟨fun heq => hc heq.symm, ih (Nat.max_eq_zero_iff.1 h).2⟩

theorem longestRun_of_cons {quote c : Char} {run n : Nat} {cs : List Char} (h : longestRun quote run (c :: cs) ≤ n) :
    ∃ run', longestRun quote run' cs ≤ n := by
  rw [longestRun] at h
  split_ifs at h
  · exact ⟨_, h⟩
  · exact ⟨0, (le_max_right _ _).trans h⟩

/-- Where no quotes in a row are more than two, they are three only at the end. -/
theorem length_takeWhile_of_longestRun {quote : Char} {run : Nat} {cs : List Char} (hrun : longestRun quote run cs ≤ 2)
    (h : ¬Trailing quote run cs) (rest : List Char) :
    ((cs ++ rest).takeWhile (· = quote)).length ≤ 2 - run := by
  induction cs generalizing run with
  | nil => exact absurd ⟨0, rfl, hrun⟩ h
  | cons c cs ih =>
    rw [longestRun] at hrun
    split_ifs at hrun with hc
    · subst hc
      have hle := le_longestRun c (run + 1) cs
      have hrest := ih hrun fun htrailing => h htrailing.of_cons
      rw [List.cons_append, takeWhile_cons_self, List.length_cons]
      omega
    · rw [List.cons_append, takeWhile_cons_of_ne hc]
      exact Nat.zero_le _

section

variable {c : Char} {cs : List Char} (fuel : Nat)

theorem longLiteral?_of_closing? {r : List Char × List Char} (h : closing? '\'' cs = some r) :
    longLiteral? (fuel + 1) cs = some r := by
  rw [longLiteral?.eq_def]
  dsimp only
  rw [h]

theorem longLiteral?_cons (hplain : needsEscape c = false) (hopen : closing? '\'' (c :: cs) = none) :
    longLiteral? (fuel + 1) (c :: cs) = (longLiteral? fuel cs).map fun (s, rest) => (c :: s, rest) := by
  by_cases hline : c = '\n'
  · subst hline
    rw [longLiteral?, hopen]
    cases longLiteral? fuel cs <;> rfl
  · have hplain := isPlain_of_needsEscape_eq_false hplain hline
    obtain ⟨hline, hreturn⟩ := ne_of_isPlain hplain
    rw [longLiteral?, hopen, hplain]
    · cases longLiteral? fuel cs <;> rfl
    · exact fun _ h => absurd h hreturn
    · exact hline

end

/-- A literal string of several lines is read up to its closing quotes. -/
theorem longLiteral?_append {cs rest : List Char} {run fuel : Nat} (hrun : longestRun '\'' run cs ≤ 2)
    (hcs : ∀ c ∈ cs, needsEscape c = false) (hrest : Unquoted '\'' rest) (hfuel : cs.length < fuel) :
    longLiteral? fuel (cs ++ (List.replicate 3 '\'' ++ rest)) = some (cs, rest) := by
  induction cs generalizing run fuel with
  | nil =>
    obtain ⟨fuel, rfl⟩ := Nat.exists_eq_succ_of_ne_zero (Nat.ne_zero_of_lt hfuel)
    exact longLiteral?_of_closing? fuel (closing?_replicate hrest (Nat.zero_le 2))
  | cons c cs ih =>
    obtain ⟨fuel, rfl⟩ := Nat.exists_eq_succ_of_ne_zero (Nat.ne_zero_of_lt hfuel)
    by_cases htrailing : Trailing '\'' run (c :: cs)
    · obtain ⟨n, heq, hn⟩ := htrailing
      rw [heq, ← List.append_assoc, List.replicate_append_replicate]
      exact longLiteral?_of_closing? fuel (closing?_replicate hrest (by omega))
    · have hshort := length_takeWhile_of_longestRun hrun htrailing (List.replicate 3 '\'' ++ rest)
      have hopen := closing?_eq_none (hshort.trans (Nat.sub_le 2 run))
      obtain ⟨run', hrun'⟩ := longestRun_of_cons hrun
      rw [List.cons_append] at hopen ⊢
      rw [longLiteral?_cons fuel (hcs c (.head _)) hopen,
        ih hrun' (fun d hd => hcs d (List.mem_cons_of_mem c hd)) (Nat.lt_of_succ_lt_succ hfuel)]
      rfl

/-! ### All strings -/

theorem toList_between (quotes : String) (hasLines : Bool) (body : List Char) :
    (between quotes hasLines body).toList =
      quotes.toList ++ ((if hasLines then ['\n'] else []) ++ (body ++ quotes.toList)) := by
  rw [between]
  cases hasLines <;> simp

theorem newline?_eq_none {cs : List Char} (h : ∀ c, cs.head? = some c → c ≠ '\n' ∧ c ≠ '\r') : newline? cs = none := by
  rw [newline?.eq_def]
  split
  · exact absurd rfl (h '\n' rfl).1
  · exact absurd rfl (h '\r' rfl).2
  · rfl

/-- The end of a line in front of a string is dropped, and it stands there if the string could start with one. -/
theorem longStart_lines {hasLines : Bool} {cs : List Char}
    (h : hasLines = false → ∀ c, cs.head? = some c → c ≠ '\n' ∧ c ≠ '\r') :
    longStart ((if hasLines then ['\n'] else []) ++ cs) = cs := by
  cases hasLines with
  | true => rfl
  | false =>
    have hnone := newline?_eq_none (h rfl)
    simp [longStart, hnone]

/-- A single pair of quotes is not taken for the start of a string of several lines. -/
theorem ne_tripled {quote : Char} {body rest : List Char} (hbody : ∀ c, body.head? = some c → c ≠ quote)
    (hrest : Unquoted quote rest) (rest' : List Char) :
    quote :: (body ++ quote :: rest) ≠ quote :: quote :: quote :: rest' := by
  intro heq
  cases body with
  | nil =>
    rw [List.nil_append, List.cons_inj_right, List.cons_inj_right] at heq
    rw [heq] at hrest
    exact hrest rfl
  | cons c body =>
    rw [List.cons_inj_right, List.cons_append] at heq
    exact hbody c rfl (List.cons_eq_cons.1 heq).1

variable {cs rest : List Char}

theorem head?_flatMap_escaped {c : Char} (h : (cs.flatMap escaped).head? = some c) : c ≠ '"' := by
  cases cs with
  | nil => cases h
  | cons d cs =>
    obtain ⟨e, text, htext, he, -⟩ := (writes_escaped d).exists_cons
    rw [List.flatMap_cons, htext] at h
    rwa [← Option.some_inj.1 h]

theorem string?_basic (hrest : Unquoted '"' rest) :
    string? ((between "\"" false (cs.flatMap escaped)).toList ++ rest) = some (String.ofList cs, rest) := by
  have htext : (between "\"" false (cs.flatMap escaped)).toList ++ rest =
      '"' :: (cs.flatMap escaped ++ '"' :: rest) := by
    simp [toList_between]
  rw [htext, string?, shortString?, basic?_flatMap ?_]
  · rfl
  · rw [List.length_append]
    omega
  · exact ne_tripled (fun c => head?_flatMap_escaped) hrest
  · exact fun _ h => absurd h (by simp)

theorem string?_literal (hcs : ∀ c ∈ cs, c ≠ '\'' ∧ isPlain c = true) (hrest : Unquoted '\'' rest) :
    string? ((between "'" false cs).toList ++ rest) = some (String.ofList cs, rest) := by
  have htext : (between "'" false cs).toList ++ rest = '\'' :: (cs ++ '\'' :: rest) := by
    simp [toList_between]
  rw [htext, string?, shortString?, literal?_append hcs]
  · rfl
  · exact fun _ h => absurd h (by simp)
  · exact ne_tripled (fun c hc => (hcs c (List.mem_of_mem_head? hc)).1) hrest

theorem head?_escapedLines (hlines : '\n' ∉ cs) (rest : List Char) {c : Char}
    (h : (escapedLines 0 cs ++ (List.replicate 3 '"' ++ rest)).head? = some c) : c ≠ '\n' ∧ c ≠ '\r' := by
  cases cs with
  | nil =>
    cases h
    decide
  | cons d cs =>
    have hd : d ≠ '\n' := fun heq => hlines (heq ▸ .head _)
    by_cases hquote : d = '"'
    · rw [hquote] at h
      cases h
      decide
    · rw [escapedLines_cons_of_ne hquote, if_neg hd] at h
      obtain ⟨e, text, htext, -, he⟩ := (writes_escaped d).exists_cons
      rw [htext] at h
      cases h
      exact he

theorem string?_longBasic {hasLines : Bool} (hlines : hasLines = false → '\n' ∉ cs) (hrest : Unquoted '"' rest) :
    string? ((between "\"\"\"" hasLines (escapedLines 0 cs)).toList ++ rest) = some (String.ofList cs, rest) := by
  have htext : (between "\"\"\"" hasLines (escapedLines 0 cs)).toList ++ rest = '"' :: '"' :: '"' ::
      ((if hasLines then ['\n'] else []) ++ (escapedLines 0 cs ++ (List.replicate 3 '"' ++ rest))) := by
    simp [toList_between]
  rw [htext, string?, longStart_lines fun hnone c => head?_escapedLines (hlines hnone) rest,
    longBasic?_escapedLines (Nat.zero_le 2) hrest ?_]
  · rfl
  · simp only [List.length_append]
    omega

theorem string?_longLiteral {hasLines : Bool} (hlines : hasLines = false → '\n' ∉ cs)
    (hrun : longestRun '\'' 0 cs ≤ 2) (hcs : ∀ c ∈ cs, needsEscape c = false) (hrest : Unquoted '\'' rest) :
    string? ((between "'''" hasLines cs).toList ++ rest) = some (String.ofList cs, rest) := by
  have htext : (between "'''" hasLines cs).toList ++ rest = '\'' :: '\'' :: '\'' ::
      ((if hasLines then ['\n'] else []) ++ (cs ++ (List.replicate 3 '\'' ++ rest))) := by
    simp [toList_between]
  rw [htext, string?, longStart_lines ?_, longLiteral?_append hrun hcs hrest ?_]
  · rfl
  · simp only [List.length_append]
    omega
  · intro hnone c hc
    cases cs with
    | nil =>
      cases hc
      decide
    | cons d cs =>
      cases hc
      exact ne_of_isPlain (isPlain_of_needsEscape_eq_false (hcs c (.head _)) fun heq => hlines hnone (heq ▸ .head _))

/-- A string is read as it was written, whatever the quotes. -/
theorem string?_quote (s : String) (hdouble : Unquoted '"' rest) (hsingle : Unquoted '\'' rest) :
    string? ((quote s).toList ++ rest) = some (s, rest) := by
  have hs : s = String.ofList s.toList := (String.ofList_toList).symm
  have hplain (h : (!s.toList.any needsEscape) = true) : ∀ c ∈ s.toList, needsEscape c = false := by
    simpa using h
  rw [quote]
  split_ifs with hbasic hliteral hlong hlongLiteral hlines
  · rw [string?_basic hdouble, ← hs]
  · simp only [Bool.and_eq_true, decide_eq_true_eq] at hliteral
    obtain ⟨⟨hescapes, hsingles⟩, hlines⟩ := hliteral
    have hline : '\n' ∉ s.toList := by simpa using hlines
    rw [string?_literal ?_ hsingle, ← hs]
    intro c hc
    refine ⟨fun heq => not_mem_of_longestRun hsingles (heq ▸ hc), ?_⟩
    exact isPlain_of_needsEscape_eq_false (hplain hescapes c hc) fun heq => hline (heq ▸ hc)
  · rw [string?_longBasic ?_ hdouble, ← hs]
    simp
  · simp only [Bool.and_eq_true, decide_eq_true_eq] at hlongLiteral
    rw [string?_longLiteral ?_ hlongLiteral.2 (hplain hlongLiteral.1) hsingle, ← hs]
    simp
  · rw [string?_longBasic (fun h => absurd h (by decide)) hdouble, ← hs]
  · rw [string?_basic hdouble, ← hs]

end EchoEngine.Toml
