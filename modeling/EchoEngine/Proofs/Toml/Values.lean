import EchoEngine.Proofs.Decimal.Layout
import EchoEngine.Proofs.Toml.Strings

/-!
# Values that are written and read

The text of a value is read as that value whatever may follow it, the end of a line, a comma or a bracket (`Reads`).
This is so for truth values, for integers of 64 bits with a sign, for every double and every string, and for arrays of
what is read (`reads_arr`).

A reader calls itself at most twice for each character of a value, which is the fuel that it needs.
-/

namespace EchoEngine.Toml

open EchoEngine.Decimal

/-! ### Digits -/

/-- A run of digits ends here. -/
def NoDigits (rest : List Char) : Prop :=
  ∀ c, rest.head? = some c → c.isDigit = false ∧ c ≠ '_'

theorem digits?_append {ds rest : List Char} (hds : ∀ c ∈ ds, c.isDigit = true) (hne : ds ≠ [])
    (hrest : NoDigits rest) {fuel : Nat} (hfuel : ds.length ≤ fuel) :
    digits? Char.isDigit fuel (ds ++ rest) = some (ds, rest) := by
  induction ds generalizing fuel with
  | nil => exact absurd rfl hne
  | cons c ds ih =>
    obtain ⟨fuel, rfl⟩ : ∃ n, fuel = n + 1 := Nat.exists_eq_succ_of_ne_zero (Nat.ne_zero_of_lt hfuel)
    have hc := hds c (.head _)
    cases ds with
    | nil =>
      cases rest with
      | nil => simp [digits?, hc]
      | cons d rest =>
        obtain ⟨hdigit, hunderscore⟩ := hrest d rfl
        simp [digits?, hc, hdigit]
    | cons d ds =>
      have hd := hds d (by simp)
      have hunderscore : d ≠ '_' := by
        rintro rfl
        revert hd
        decide
      have hrec := ih (fun e he => hds e (List.mem_cons_of_mem c he)) (List.cons_ne_nil _ _)
        (Nat.le_of_succ_le_succ hfuel)
      rw [List.cons_append] at hrec ⊢
      simp [digits?, hc, hd, hrec]

theorem whole?_append {whole rest : List Char} (hwhole : IsWhole whole) (hdigits : ∀ c ∈ whole, c.isDigit = true)
    (hrest : NoDigits rest) : whole? (whole ++ rest) = some (whole, rest) := by
  rcases hwhole with rfl | ⟨c, cs, rfl, hc⟩
  · rfl
  · rw [List.cons_append, whole?, ← List.cons_append, digits?_append hdigits (List.cons_ne_nil _ _) hrest ?_]
    · rw [List.length_append]
      omega
    · exact fun _ heq => hc (List.cons_eq_cons.1 heq).1

/-! ### What follows a value -/

/-- A line ends here, or an element of an array does. -/
def Ends (rest : List Char) : Prop :=
  ∃ c cs, rest = c :: cs ∧ (c = '\n' ∨ c = ',' ∨ c = ']')

theorem Ends.noDigits {rest : List Char} (h : Ends rest) : NoDigits rest := by
  obtain ⟨c, cs, rfl, rfl | rfl | rfl⟩ := h <;> (intro d hd; cases hd; decide)

theorem Ends.point?_eq {rest : List Char} (h : Ends rest) : point? rest = some (none, rest) := by
  obtain ⟨c, cs, rfl, rfl | rfl | rfl⟩ := h <;> rfl

theorem Ends.power?_eq {rest : List Char} (h : Ends rest) : power? rest = some (none, rest) := by
  obtain ⟨c, cs, rfl, rfl | rfl | rfl⟩ := h <;> rfl

/-! ### Numbers -/

section

variable {whole fraction rest : List Char} (negative : Bool)

theorem ne_sign_of_isDigit {c : Char} (h : c.isDigit = true) : c ≠ '-' ∧ c ≠ '+' := by
  constructor <;> (rintro rfl; revert h; decide)

/-- The sign that is written. -/
def signText (negative : Bool) : List Char :=
  if negative then ['-'] else []

/-- A text starts with a digit. -/
def StartsWithDigit (cs : List Char) : Prop :=
  ∃ c cs', cs = c :: cs' ∧ c.isDigit = true

theorem startsWithDigit_append {ds : List Char} (hds : ∀ c ∈ ds, c.isDigit = true) (hne : ds ≠ []) (rest : List Char) :
    StartsWithDigit (ds ++ rest) := by
  cases ds with
  | nil => exact absurd rfl hne
  | cons c ds => exact ⟨c, _, rfl, hds c (.head _)⟩

theorem sign_append {cs : List Char} (h : StartsWithDigit cs) : sign (signText negative ++ cs) = (negative, cs) := by
  obtain ⟨c, cs, rfl, hc⟩ := h
  obtain ⟨hminus, hplus⟩ := ne_sign_of_isDigit hc
  cases negative with
  | true => rfl
  | false =>
    rw [signText, if_neg Bool.false_ne_true, List.nil_append, sign]
    · exact fun _ heq => hminus (List.cons_eq_cons.1 heq).1
    · exact fun _ heq => hplus (List.cons_eq_cons.1 heq).1

/-- A whole number without a point is read as an integer. -/
theorem decimal?_integer {n : Nat} (hn : n < 2 ^ 63 ∨ negative = true ∧ n = 2 ^ 63) (hrest : Ends rest) :
    decimal? (signText negative ++ (Nat.toDigits 10 n ++ rest)) =
      some (.int (if negative then -(n : Int) else n), rest) := by
  have hdigits : ∀ c ∈ Nat.toDigits 10 n, c.isDigit = true := fun c => isDigit_of_mem_toDigits
  have hinteger : ofInteger? negative n = some (.int (if negative then -(n : Int) else n)) := if_pos hn
  simp only [decimal?, sign_append negative (startsWithDigit_append hdigits Nat.toDigits_ne_nil rest),
    whole?_append (isWhole_toDigits n) hdigits hrest.noDigits, hrest.point?_eq, hrest.power?_eq, natOfDigits_toDigits,
    hinteger, Option.bind_eq_bind, Option.bind_some, Option.isNone_none, and_self, if_true]
  rfl

/-- A number with a point is read as the double of its numeral. -/
theorem decimal?_float (h : Pointed whole fraction) (hrest : Ends rest)
    (hfinite : (Numeral.toFloat ⟨negative, whole, fraction, 0⟩).isInf = false) :
    decimal? (signText negative ++ (whole ++ ('.' :: (fraction ++ rest)))) =
      some (.float (Numeral.toFloat ⟨negative, whole, fraction, 0⟩), rest) := by
  have hdot : NoDigits ('.' :: (fraction ++ rest)) := by
    intro c hc
    cases hc
    decide
  have hpoint : point? ('.' :: (fraction ++ rest)) = some (some fraction, rest) := by
    rw [point?, digits?_append h.isDigit_fraction h.fraction_ne_nil hrest.noDigits ?_]
    · rfl
    · rw [List.length_append]
      omega
  simp only [decimal?, sign_append negative (startsWithDigit_append h.isDigit_whole h.isWhole.ne_nil _),
    whole?_append h.isWhole h.isDigit_whole hdot, hpoint, hrest.power?_eq, Option.bind_eq_bind, Option.bind_some,
    Option.isNone_some, Bool.false_eq_true, false_and, if_false, Option.getD_some, Option.getD_none, hfinite,
    Bool.and_false]

/-- A number starts neither a date nor a time, and no base is named. -/
def Follows (tail : List Char) : Prop :=
  ∃ c cs, tail = c :: cs ∧ (c = '.' ∨ c = '\n' ∨ c = ',' ∨ c = ']')

theorem Ends.follows (h : Ends rest) : Follows rest := by
  obtain ⟨c, cs, heq, hc⟩ := h
  exact ⟨c, cs, heq, .inr hc⟩

theorem special?_eq_none {cs : List Char} (h : StartsWithDigit cs) : special? (signText negative ++ cs) = none := by
  rw [special?, sign_append negative h]
  obtain ⟨c, cs, rfl, hc⟩ := h
  dsimp only
  split
  case h_3 => rfl
  all_goals
    rename_i heq
    rw [(List.cons_eq_cons.1 heq).1] at hc
    exact absurd hc (by decide)

theorem number?_eq_decimal? (hwhole : IsWhole whole) (hdigits : ∀ c ∈ whole, c.isDigit = true) (htail : Follows rest) :
    number? (signText negative ++ (whole ++ rest)) = decimal? (signText negative ++ (whole ++ rest)) := by
  have hbase : ∀ d ∈ ['x', 'o', 'b'], ∀ rest', signText negative ++ (whole ++ rest) ≠ '0' :: d :: rest' := by
    intro d hd rest' heq
    cases negative with
    | true => exact absurd (List.cons_eq_cons.1 heq).1 (by decide)
    | false =>
      rw [signText, if_neg Bool.false_ne_true, List.nil_append] at heq
      rcases hwhole with rfl | ⟨c, cs, rfl, hc⟩
      · -- a zero in front is the whole part, so no letter follows it
        obtain ⟨e, tail, rfl, he⟩ := htail
        obtain ⟨rfl, -⟩ := List.cons_eq_cons.1 (List.cons_eq_cons.1 heq).2
        rcases he with rfl | rfl | rfl | rfl <;> revert hd <;> decide
      · exact hc (List.cons_eq_cons.1 heq).1
  rw [number?, special?_eq_none negative (startsWithDigit_append hdigits hwhole.ne_nil rest), Option.none_or]
  · exact fun rest' => hbase 'x' (by decide) rest'
  · exact fun rest' => hbase 'o' (by decide) rest'
  · exact fun rest' => hbase 'b' (by decide) rest'

theorem startsMoment_number (hdigits : ∀ c ∈ whole, c.isDigit = true) (htail : Follows rest) :
    startsMoment (signText negative ++ (whole ++ rest)) = false := by
  obtain ⟨c, cs, rfl, hc⟩ := htail
  have hdigit : c.isDigit = false := by rcases hc with rfl | rfl | rfl | rfl <;> decide
  cases negative with
  | true => rfl
  | false =>
    rw [signText, if_neg Bool.false_ne_true, List.nil_append, startsMoment, List.dropWhile_append_of_pos hdigits,
      List.dropWhile_cons_of_neg (Bool.eq_false_iff.1 hdigit)]
    rcases hc with rfl | rfl | rfl | rfl <;> rfl

end

/-! ### Values -/

/-- What a number starts with. -/
def StartsNumber (cs : List Char) : Prop :=
  ∃ c cs', cs = c :: cs' ∧ (c.isDigit = true ∨ c = '-' ∨ c = 'n' ∨ c = 'i')

theorem value?_eq_number? {cs : List Char} (h : StartsNumber cs) (hmoment : startsMoment cs = false)
    (fuel depth : Nat) : value? (fuel + 1) depth cs = number? cs := by
  obtain ⟨c, cs, rfl, hc⟩ := h
  have hne : c ∉ ['"', '\'', 't', 'f', '[', '{'] := by
    rcases hc with hc | rfl | rfl | rfl
    · intro hmem
      simp only [List.mem_cons, List.not_mem_nil, or_false] at hmem
      rcases hmem with rfl | rfl | rfl | rfl | rfl | rfl <;> exact absurd hc (by decide)
    all_goals decide
  rw [value?, hmoment]
  · rfl
  all_goals
    intro tail heq
    obtain ⟨rfl, -⟩ := List.cons_eq_cons.1 heq
    exact hne (by decide)

/-- Neither space nor the end of a line, and no start of a comment. -/
def IsVisible (c : Char) : Prop :=
  c ∉ [' ', '\t', '\n', '\r', '#']

instance : DecidablePred IsVisible := fun c => inferInstanceAs (Decidable (c ∉ _))

/-- A text starts with a visible character that closes nothing. -/
def Visible (text : List Char) : Prop :=
  ∃ c cs, text = c :: cs ∧ IsVisible c ∧ c ≠ ']'

/-- A text is read as a value wherever it stands, with fuel for two calls on each of its characters. -/
structure Reads (depth : Nat) (text : List Char) (v : Json) : Prop where
  visible : Visible text
  value?_eq : ∀ fuel rest, 2 * text.length ≤ fuel → Ends rest → value? fuel depth (text ++ rest) = some (v, rest)

theorem Visible.length_pos {text : List Char} (h : Visible text) : 0 < text.length := by
  obtain ⟨c, cs, rfl, -⟩ := h
  exact Nat.succ_pos _

/-- The first call may be made. -/
theorem Reads.of_succ {depth : Nat} {text : List Char} {v : Json} (hvisible : Visible text)
    (h : ∀ fuel rest, 2 * text.length ≤ fuel + 1 → Ends rest →
      value? (fuel + 1) depth (text ++ rest) = some (v, rest)) :
    Reads depth text v := by
  refine ⟨hvisible, fun fuel rest hfuel hrest => ?_⟩
  have hpos := hvisible.length_pos
  obtain ⟨fuel, rfl⟩ : ∃ n, fuel = n + 1 := Nat.exists_eq_succ_of_ne_zero (by omega)
  exact h fuel rest hfuel hrest

variable (depth : Nat)

attribute [local simp] value? elements?

theorem reads_bool (b : Bool) : Reads depth (if b then "true" else "false").toList (.bool b) := by
  cases b with
  | true => exact .of_succ ⟨'t', _, rfl, by decide⟩ fun _ _ _ _ => by simp
  | false => exact .of_succ ⟨'f', _, rfl, by decide⟩ fun _ _ _ _ => by simp

theorem Ends.unquoted {rest : List Char} (h : Ends rest) : Unquoted '"' rest ∧ Unquoted '\'' rest := by
  obtain ⟨c, cs, rfl, rfl | rfl | rfl⟩ := h <;> exact ⟨by simp [Unquoted], by simp [Unquoted]⟩

theorem exists_quote (s : String) : ∃ c cs, (quote s).toList = c :: cs ∧ (c = '"' ∨ c = '\'') := by
  have hbetween : ∀ quotes : String, (∃ c cs, quotes.toList = c :: cs ∧ (c = '"' ∨ c = '\'')) → ∀ hasLines body,
      ∃ c cs, (between quotes hasLines body).toList = c :: cs ∧ (c = '"' ∨ c = '\'') := by
    rintro quotes ⟨c, cs, hquotes, hc⟩ hasLines body
    rw [toList_between, hquotes]
    exact ⟨c, _, rfl, hc⟩
  rw [quote]
  split_ifs
  all_goals first
    | exact hbetween _ ⟨'"', _, rfl, .inl rfl⟩ _ _
    | exact hbetween _ ⟨'\'', _, rfl, .inr rfl⟩ _ _

theorem reads_str (s : String) : Reads depth (quote s).toList (.str s) := by
  have hread {rest : List Char} (hrest : Ends rest) := string?_quote s hrest.unquoted.1 hrest.unquoted.2
  obtain ⟨c, cs, htext, hc⟩ := exists_quote s
  rw [htext] at hread ⊢
  rcases hc with rfl | rfl
  all_goals
    refine .of_succ ⟨_, _, rfl, by decide⟩ fun fuel rest _ hrest => ?_
    rw [List.cons_append, value?, ← List.cons_append, hread hrest]
    rfl

theorem StartsNumber.visible {text : List Char} (h : StartsNumber text) : Visible text := by
  obtain ⟨c, cs, rfl, hc⟩ := h
  refine ⟨c, cs, rfl, ?_⟩
  rcases hc with hc | rfl | rfl | rfl
  · refine ⟨fun hmem => ?_, by rintro rfl; exact absurd hc (by decide)⟩
    simp only [List.mem_cons, List.not_mem_nil, or_false] at hmem
    rcases hmem with rfl | rfl | rfl | rfl | rfl <;> exact absurd hc (by decide)
  all_goals decide

theorem StartsNumber.append {cs : List Char} (h : StartsNumber cs) (rest : List Char) : StartsNumber (cs ++ rest) := by
  obtain ⟨c, cs, rfl, hc⟩ := h
  exact ⟨c, _, rfl, hc⟩

theorem startsNumber_signText (negative : Bool) {cs : List Char} (h : StartsWithDigit cs) :
    StartsNumber (signText negative ++ cs) := by
  obtain ⟨c, cs, rfl, hc⟩ := h
  cases negative with
  | true => exact ⟨'-', _, rfl, .inr (.inl rfl)⟩
  | false => exact ⟨c, _, rfl, .inl hc⟩

/-- Where no date or time starts, a number is read as a number. -/
theorem reads_number {text : List Char} {v : Json} (hstart : StartsNumber text)
    (h : ∀ rest, Ends rest → startsMoment (text ++ rest) = false ∧ number? (text ++ rest) = some (v, rest)) :
    Reads depth text v := by
  refine .of_succ hstart.visible fun fuel rest _ hrest => ?_
  obtain ⟨hmoment, hnumber⟩ := h rest hrest
  rw [value?_eq_number? (hstart.append rest) hmoment, hnumber]

theorem reads_int {n : Int} (hlow : -2 ^ 63 ≤ n) (hhigh : n < 2 ^ 63) : Reads depth (toString n).toList (.int n) := by
  have hdigits : ∀ c ∈ Nat.toDigits 10 n.natAbs, c.isDigit = true := fun c => isDigit_of_mem_toDigits
  have htext : (toString n).toList = signText (decide (n < 0)) ++ Nat.toDigits 10 n.natAbs := by
    rw [Int.toString_eq_repr, Int.repr_eq_if]
    split_ifs with hn
    · have habs : n.toNat = n.natAbs := by omega
      rw [Nat.toList_repr, habs, decide_eq_false (Int.not_lt.2 hn)]
      rfl
    · have habs : (-n).toNat = n.natAbs := by omega
      rw [String.toList_append, Nat.toList_repr, habs, decide_eq_true (Int.not_le.1 hn)]
      rfl
  have hvalue : n = if decide (n < 0) = true then -(n.natAbs : Int) else n.natAbs := by
    simp only [decide_eq_true_eq]
    split <;> omega
  have hstart := startsWithDigit_append hdigits Nat.toDigits_ne_nil []
  rw [List.append_nil] at hstart
  rw [htext]
  refine reads_number depth (startsNumber_signText _ hstart) fun rest hrest => ?_
  rw [List.append_assoc]
  refine ⟨startsMoment_number _ hdigits hrest.follows, ?_⟩
  rw [number?_eq_decimal? _ (isWhole_toDigits _) hdigits hrest.follows, decimal?_integer _ ?_ hrest, ← hvalue]
  simp only [decide_eq_true_eq]
  omega

/-- Every double is read as it was written, and so are infinity and the undefined value. -/
theorem reads_float (x : Float) : Reads depth (render .toml x).toList (.float x) := by
  rw [render]
  cases hx : Binary.ofFloat x with
  | undefined =>
    rw [eq_of_ofFloat_eq_undefined hx]
    exact reads_number depth ⟨'n', _, rfl, .inr (.inr (.inl rfl))⟩ fun rest _ => ⟨rfl, rfl⟩
  | infinite negative =>
    rw [eq_of_ofFloat_eq_infinite hx]
    cases negative with
    | false => exact reads_number depth ⟨'i', _, rfl, .inr (.inr (.inr rfl))⟩ fun rest _ => ⟨rfl, rfl⟩
    | true => exact reads_number depth ⟨'-', _, rfl, .inr (.inl rfl)⟩ fun rest _ => ⟨rfl, rfl⟩
  | finite negative m q =>
    obtain ⟨whole, fraction, ⟨htext, hpointed, -⟩, hread⟩ := exists_written_ofFloat hx
    have hstart := startsWithDigit_append hpointed.isDigit_whole hpointed.isWhole.ne_nil ('.' :: fraction)
    have hbody : (if negative then "-" ++ positional true (shortest m q) else positional true (shortest m q)).toList =
        signText negative ++ (whole ++ '.' :: fraction) := by
      cases negative <;> simp [htext, signText]
    have hpositional : m = 0 ∨ Layout.toml.isPositional (shortest m q).magnitude = true := .inr rfl
    have hpoint : Layout.toml.keepsPoint = true := rfl
    simp only [if_pos hpositional, hpoint]
    rw [hbody]
    refine reads_number depth (startsNumber_signText _ hstart) fun rest hrest => ?_
    have hdot : Follows ('.' :: (fraction ++ rest)) := ⟨'.', _, rfl, .inl rfl⟩
    have hdecimal := decimal?_float negative hpointed hrest (hread.symm ▸ isInf_eq_false hx)
    rw [List.append_assoc, List.append_assoc, List.cons_append]
    refine ⟨startsMoment_number _ hpointed.isDigit_whole hdot, ?_⟩
    rw [number?_eq_decimal? _ hpointed.isWhole hpointed.isDigit_whole hdot, hdecimal, hread]

/-! ### Arrays -/

section

variable {c : Char} (hc : IsVisible c) (cs : List Char)

include hc

theorem skipSpace_cons : skipSpace (c :: cs) = c :: cs := by
  simp only [IsVisible, List.mem_cons, not_or] at hc
  exact List.dropWhile_cons_of_neg (by simp [isSpace, hc])

theorem skipComment_cons : skipComment (c :: cs) = c :: cs := by
  simp only [IsVisible, List.mem_cons, not_or] at hc
  rw [skipComment]
  exact fun _ heq => hc.2.2.2.2.1 (List.cons_eq_cons.1 heq).1

theorem newline?_cons : newline? (c :: cs) = none := by
  simp only [IsVisible, List.mem_cons, not_or] at hc
  refine newline?_eq_none fun d hd => ?_
  cases hd
  exact ⟨hc.2.2.1, hc.2.2.2.1⟩

theorem skipLines_cons (fuel : Nat) : skipLines fuel (c :: cs) = c :: cs := by
  cases fuel with
  | zero => rfl
  | succ fuel =>
    rw [skipLines, skipSpace_cons hc, skipComment_cons hc, newline?_cons hc]

end

theorem skipLines_newline (fuel : Nat) (cs : List Char) : skipLines (fuel + 1) ('\n' :: cs) = skipLines fuel cs :=
  rfl

/-- What stands in front of an element on a line of its own. -/
def indentation : List Char :=
  List.replicate 4 ' '

/-- At the start of a line, its indentation is passed over. -/
theorem skipLines_indented {text : List Char} (h : Visible text) (rest : List Char) (fuel : Nat) :
    skipLines (fuel + 1) (indentation ++ (text ++ rest)) = text ++ rest := by
  obtain ⟨c, cs, rfl, hc, -⟩ := h
  have hspace : skipSpace (indentation ++ (c :: cs ++ rest)) = c :: cs ++ rest := by
    have hblank : ∀ d ∈ indentation, isSpace d = true := by
      intro d hd
      rw [List.eq_of_mem_replicate hd]
      rfl
    rw [skipSpace, List.dropWhile_append_of_pos hblank]
    exact skipSpace_cons hc (cs ++ rest)
  rw [skipLines, hspace, List.cons_append, skipComment_cons hc, newline?_cons hc]

/-- The elements of an array with a line for each, through the closing bracket. -/
def elementLines : List (List Char) → List Char
  | [] => ['\n', ']']
  | text :: texts => '\n' :: (indentation ++ (text ++ ',' :: elementLines texts))

theorem Reads.elements?_cons {text : List Char} {v : Json} (h : Reads depth text v) {fuel : Nat} {vs : List Json}
    {tail rest : List Char} (hfuel : 2 * text.length ≤ fuel) (hrest : elements? fuel depth tail = some (vs, rest)) :
    elements? (fuel + 1) depth ('\n' :: (indentation ++ (text ++ ',' :: tail))) = some (v :: vs, rest) := by
  have hskip : skipLines (('\n' :: (indentation ++ (text ++ ',' :: tail))).length + 1)
      ('\n' :: (indentation ++ (text ++ ',' :: tail))) = text ++ ',' :: tail := by
    rw [skipLines_newline, List.length_cons, skipLines_indented h.visible]
  have hcomma : IsVisible ',' := by decide
  have hread := h.value?_eq fuel (',' :: tail) hfuel ⟨',', tail, rfl, .inr (.inl rfl)⟩
  obtain ⟨c, cs, htext, -, hc⟩ := h.visible
  rw [elements?, hskip]
  split
  · rename_i heq
    rw [htext] at heq
    exact absurd (List.cons_eq_cons.1 heq).1 hc
  · rw [hread, Option.bind_eq_bind, Option.bind_some]
    dsimp only
    rw [skipLines_cons hcomma]
    change (elements? fuel depth tail).bind _ = _
    rw [hrest]
    rfl

theorem elements?_elementLines {items : List (List Char × Json)} (h : ∀ i ∈ items, Reads depth i.1 i.2) {fuel : Nat}
    (rest : List Char) (hfuel : 2 * (elementLines (items.map Prod.fst)).length + 1 ≤ fuel) :
    elements? fuel depth (elementLines (items.map Prod.fst) ++ rest) = some (items.map Prod.snd, rest) := by
  induction items generalizing fuel with
  | nil =>
    obtain ⟨fuel, rfl⟩ : ∃ n, fuel = n + 1 := Nat.exists_eq_succ_of_ne_zero (by omega)
    have hbracket : IsVisible ']' := by decide
    have hskip : skipLines (('\n' :: ']' :: rest).length + 1) ('\n' :: ']' :: rest) = ']' :: rest := by
      rw [skipLines_newline, skipLines_cons hbracket]
    change elements? (fuel + 1) depth ('\n' :: ']' :: rest) = _
    rw [elements?, hskip]
    rfl
  | cons i items ih =>
    rw [List.map_cons, elementLines] at hfuel ⊢
    simp only [List.length_cons, List.length_append] at hfuel
    obtain ⟨fuel, rfl⟩ : ∃ n, fuel = n + 1 := Nat.exists_eq_succ_of_ne_zero (by omega)
    have hbound : 2 * (elementLines (items.map Prod.fst)).length + 1 ≤ fuel := by omega
    have hrest := ih (fun j hj => h j (List.mem_cons_of_mem i hj)) hbound
    have hfirst := (h i (.head _)).elements?_cons depth (by omega) hrest
    simpa only [List.cons_append, List.append_assoc, List.map_cons] using hfirst

/-- The text of an array whose elements have these texts. -/
def arrayText : List String → String
  | [] => "[]"
  | [one] => "[" ++ one ++ "]"
  | many => "[\n" ++ String.join (many.map fun s => "    " ++ s ++ ",\n") ++ "]"

theorem write?_arr (items : List Json) : write? (.arr items) = (writeAll? items).map arrayText :=
  rfl

theorem toList_lines (texts : List String) :
    '\n' :: ((String.join (texts.map fun s => "    " ++ s ++ ",\n")).toList ++ [']']) =
      elementLines (texts.map String.toList) := by
  induction texts with
  | nil => rfl
  | cons s texts ih =>
    rw [List.map_cons, List.map_cons, elementLines, ← ih]
    simp [String.join_cons, indentation]

theorem toList_arrayText (one two : String) (texts : List String) :
    (arrayText (one :: two :: texts)).toList = '[' :: elementLines ((one :: two :: texts).map String.toList) := by
  rw [← toList_lines]
  simp [arrayText]

theorem value?_bracket (fuel : Nat) (cs : List Char) :
    value? (fuel + 1) (depth + 1) ('[' :: cs) = (elements? fuel depth cs).map fun (vs, rest) => (.arr vs, rest) := by
  rw [value?, if_neg (Nat.succ_ne_zero depth)]
  rfl

theorem Reads.elements?_singleton {text : List Char} {v : Json} (h : Reads depth text v) {fuel : Nat}
    (hfuel : 2 * text.length ≤ fuel) (rest : List Char) :
    elements? (fuel + 1) depth (text ++ ']' :: rest) = some ([v], rest) := by
  have hbracket : IsVisible ']' := by decide
  have hread := h.value?_eq fuel (']' :: rest) hfuel ⟨']', rest, rfl, .inr (.inr rfl)⟩
  obtain ⟨c, cs, htext, hvisible, hc⟩ := h.visible
  have hskip : skipLines ((text ++ ']' :: rest).length + 1) (text ++ ']' :: rest) = text ++ ']' :: rest := by
    rw [htext]
    exact skipLines_cons hvisible _ _
  rw [elements?, hskip]
  split
  · rename_i heq
    rw [htext] at heq
    exact absurd (List.cons_eq_cons.1 heq).1 hc
  · rw [hread, Option.bind_eq_bind, Option.bind_some]
    dsimp only
    rw [skipLines_cons hbracket]
    rfl

theorem reads_brackets {body : List Char} {vs : List Json} (h : ∀ fuel rest, 2 * body.length + 1 ≤ fuel →
    Ends rest → elements? fuel depth (body ++ rest) = some (vs, rest)) : Reads (depth + 1) ('[' :: body) (.arr vs) := by
  refine .of_succ ⟨'[', body, rfl, by decide⟩ fun fuel rest hfuel hrest => ?_
  rw [List.length_cons] at hfuel
  rw [List.cons_append, value?_bracket, h fuel rest (by omega) hrest]
  rfl

/-- Arrays are read if their elements are. -/
theorem reads_arr {items : List (String × Json)} (h : ∀ i ∈ items, Reads depth i.1.toList i.2) :
    Reads (depth + 1) (arrayText (items.map Prod.fst)).toList (.arr (items.map Prod.snd)) := by
  -- an array has lines for its elements only if there are several
  match items with
  | [] =>
    change Reads (depth + 1) ('[' :: [']']) (.arr [])
    refine reads_brackets depth fun fuel rest hfuel _ => ?_
    obtain ⟨fuel, rfl⟩ : ∃ n, fuel = n + 1 := Nat.exists_eq_succ_of_ne_zero (by simp at hfuel; omega)
    have hbracket : IsVisible ']' := by decide
    rw [List.singleton_append, elements?, skipLines_cons hbracket]
    rfl
  | [(text, v)] =>
    have hread : Reads depth text.toList v := h (text, v) (.head _)
    have htext : (arrayText [text]).toList = '[' :: (text.toList ++ [']']) := by simp [arrayText]
    simp only [List.map_cons, List.map_nil, htext]
    refine reads_brackets depth fun fuel rest hfuel _ => ?_
    rw [List.length_append, List.length_singleton] at hfuel
    obtain ⟨fuel, rfl⟩ : ∃ n, fuel = n + 1 := Nat.exists_eq_succ_of_ne_zero (by omega)
    rw [List.append_assoc]
    exact hread.elements?_singleton depth (by omega) rest
  | i :: j :: items =>
    have htexts : ((i :: j :: items).map Prod.fst).map String.toList =
        ((i :: j :: items).map fun k => (k.1.toList, k.2)).map Prod.fst := by
      rw [List.map_map, List.map_map]
      rfl
    have hvalues : (i :: j :: items).map Prod.snd =
        ((i :: j :: items).map fun k => (k.1.toList, k.2)).map Prod.snd := by
      rw [List.map_map]
      rfl
    rw [List.map_cons, List.map_cons, toList_arrayText, ← List.map_cons, ← List.map_cons, htexts, hvalues]
    refine reads_brackets depth fun fuel rest hfuel _ => elements?_elementLines depth ?_ rest hfuel
    intro k hk
    obtain ⟨l, hl, rfl⟩ := List.mem_map.1 hk
    exact h l hl

/-! ### What can be written -/

theorem mapM_cons_eq_some_iff {α β : Type} {f : α → Option β} {a : α} {as : List α} {bs : List β} :
    (a :: as).mapM f = some bs ↔ ∃ b, f a = some b ∧ ∃ rest, as.mapM f = some rest ∧ b :: rest = bs := by
  simp [List.mapM_cons, Option.bind_eq_some_iff]

theorem writeAll?_eq_mapM (items : List Json) : writeAll? items = items.mapM write? := by
  induction items with
  | nil => rfl
  | cons v vs ih =>
    rw [writeAll?, List.mapM_cons, ih]

/-- The text of a value, if it has one, is read as that value. -/
def ReadsBack (depth : Nat) (v : Json) : Prop :=
  ∀ s, write? v = some s → Reads depth s.toList v

@[simp]
theorem readsBack_bool (b : Bool) : ReadsBack depth (.bool b) := by
  rintro _ ⟨⟩
  exact reads_bool depth b

@[simp]
theorem readsBack_int (n : Int) : ReadsBack depth (.int n) := by
  intro s hs
  obtain ⟨⟨hlow, hhigh⟩, htext⟩ := Option.ite_none_right_eq_some.1 hs
  rw [← Option.some_inj.1 htext]
  exact reads_int depth hlow hhigh

@[simp]
theorem readsBack_float (x : Float) : ReadsBack depth (.float x) := by
  rintro _ ⟨⟩
  exact reads_float depth x

@[simp]
theorem readsBack_str (s : String) : ReadsBack depth (.str s) := by
  rintro _ ⟨⟩
  exact reads_str depth s

theorem exists_of_mapM_write? {items : List Json} {texts : List String} (h : items.mapM write? = some texts) :
    ∃ pairs : List (String × Json), pairs.map Prod.fst = texts ∧ pairs.map Prod.snd = items ∧
      ∀ p ∈ pairs, write? p.2 = some p.1 := by
  induction items generalizing texts with
  | nil =>
    cases h
    exact ⟨[], rfl, rfl, List.forall_mem_nil _⟩
  | cons v vs ih =>
    obtain ⟨s, hs, rest, hrest, heq⟩ := mapM_cons_eq_some_iff.1 h
    obtain ⟨pairs, rfl, rfl, hpairs⟩ := ih hrest
    refine ⟨(s, v) :: pairs, heq, rfl, ?_⟩
    intro p hp
    rcases List.mem_cons.1 hp with rfl | hp
    · exact hs
    · exact hpairs p hp

theorem readsBack_arr {items : List Json} (h : ∀ v ∈ items, ReadsBack depth v) :
    ReadsBack (depth + 1) (.arr items) := by
  intro s hs
  rw [write?_arr, writeAll?_eq_mapM] at hs
  obtain ⟨texts, htexts, rfl⟩ := Option.map_eq_some_iff.1 hs
  obtain ⟨pairs, rfl, rfl, hpairs⟩ := exists_of_mapM_write? htexts
  exact reads_arr depth fun p hp => h p.2 (List.mem_map_of_mem hp) _ (hpairs p hp)

@[simp]
theorem readsBack_ofStrings (ss : List String) : ReadsBack maxDepth (.ofStrings ss) := by
  refine readsBack_arr 78 fun v hv => ?_
  obtain ⟨s, -, rfl⟩ := List.mem_map.1 hv
  exact readsBack_str 78 s

/-! ### Which values have a text -/

theorem isSome_mapM {α β : Type} {f : α → Option β} {as : List α} :
    (as.mapM f).isSome = true ↔ ∀ a ∈ as, (f a).isSome = true := by
  induction as with
  | nil => simp
  | cons a as ih =>
    rw [List.mapM_cons, List.forall_mem_cons, ← ih]
    cases f a <;> cases as.mapM f <;> simp

@[simp]
theorem isSome_write?_int (n : Nat) : (write? (.int n)).isSome = true ↔ n < 2 ^ 63 := by
  have hbounds : (-(Nat.pow 2 63 : Int) ≤ (n : Int) ∧ (n : Int) < (Nat.pow 2 63 : Int)) ↔ n < 2 ^ 63 := by
    rw [and_iff_right (by omega)]
    exact Int.ofNat_lt
  rw [write?, Option.isSome_ite, hbounds]

@[simp]
theorem isSome_write?_ofStrings (ss : List String) : (write? (.ofStrings ss)).isSome = true := by
  rw [Json.ofStrings, write?_arr, Option.isSome_map, writeAll?_eq_mapM, isSome_mapM]
  intro v hv
  obtain ⟨s, -, rfl⟩ := List.mem_map.1 hv
  rfl

end EchoEngine.Toml
