import EchoEngine.Decimal.Layout
import EchoEngine.Proofs.Decimal.Numeral
import EchoEngine.Proofs.Decimal.Shortest

/-!
# Doubles that are written and read

A finite double is written as its shortest decimal, digits on either side of a point (`Written`), and the numeral with
these digits is read as the same double (`exists_written_ofFloat`).  The sign is written apart, so both zeros come back
as they were.
-/

namespace EchoEngine.Decimal

open Float.Model (UnpackedFloat)
open Float.Model.UnpackedFloat Float.Model.Format

/-! ### Doubles taken apart -/

theorem ofModel_pack_unpack (x : Float) : .ofModel (.pack x.toModel.unpack) = x := by
  rw [← Float.toBits_inj, ← UInt64.toBitVec_inj]
  exact pack_unpack_of_valid x.toModel.valid (by decide)

/-- The sign that is written as a minus, if it holds. -/
def signOf (negative : Bool) : Sign :=
  if negative then .negative else .positive

theorem IsPlace.unique {m m' k : Nat} {e e' : Int} (h : IsPlace m e k) (h' : IsPlace m' e' k) : m = m' ∧ e = e' := by
  obtain ⟨hfits, hleast, hnormal, heq, -⟩ := h
  obtain ⟨hfits', hleast', hnormal', heq', -⟩ := h'
  omega

/-- The two ways to take a double apart. -/
inductive TakenApart : Binary → UnpackedFloat → Prop
  | undefined : TakenApart .undefined .notANumber
  | infinite (negative : Bool) : TakenApart (.infinite negative) (.infinity (signOf negative))
  | zero (negative : Bool) : TakenApart (.finite negative 0 (-1074)) (.zero (signOf negative))
  | finite (negative : Bool) {m k : Nat} {q : Int} (hm : 0 < m) (h : IsPlace m q k) :
    TakenApart (.finite negative m q) (.finite (signOf negative) m q hm)

theorem takenApart (x : Float) : TakenApart (.ofFloat x) x.toModel.unpack := by
  cases hx : x.isNaN with
  | true =>
    have hnan : x = Float.nan := by simpa [Float.isNaN_eq_decide_eq_nan] using hx
    rw [hnan]
    exact .undefined
  | false =>
    have hplaced := placed_unpack hx
    have hbits : x.toBits.toNat < 2 ^ 64 := x.toBits.toBitVec.isLt
    rw [ofBitVec_unpackSign] at hplaced
    change Placed x.toModel.unpack (if x.toBits.toNat < 2 ^ 63 then .positive else .negative) (x.toBits.toNat % 2 ^ 63)
      at hplaced
    have hsign : (if x.toBits.toNat < 2 ^ 63 then Sign.positive else .negative) =
        signOf (decide (Nat.pow 2 63 ≤ x.toBits.toNat)) := by
      rw [signOf, Nat.pow_eq]
      rcases Nat.lt_or_ge x.toBits.toNat (2 ^ 63) with hlow | hhigh
      · rw [if_pos hlow, if_neg (by simpa using hlow)]
      · rw [if_neg (Nat.not_lt.2 hhigh), if_pos (by simpa using hhigh)]
    rw [hsign] at hplaced
    rw [Binary.ofFloat, Binary.ofBits]
    -- what is left is about the number that the bits make, which is cut at the same places twice
    generalize decide (Nat.pow 2 63 ≤ x.toBits.toNat) = negative at hplaced
    generalize x.toModel.unpack = u at hplaced
    generalize hk : x.toBits.toNat % 2 ^ 63 = k at hplaced
    generalize x.toBits.toNat = n at hk hbits
    simp only [Nat.pow_eq]
    cases hplaced with
    | zero =>
      have hbiased : n / 2 ^ 52 % 2 ^ 11 = 0 := by omega
      have hfraction : n % 2 ^ 52 = 0 := by omega
      rw [if_neg (by omega), if_pos hbiased, hfraction]
      exact .zero negative
    | infinity =>
      rw [if_pos (by omega), if_pos (by omega)]
      exact .infinite negative
    | @finite _ m e _ hm h =>
      have hplace : IsPlace m e k := h
      obtain ⟨hfits, hleast, hnormal, heq, htop⟩ := h
      rw [if_neg (by omega)]
      split_ifs with hbiased
      · have hm' : n % 2 ^ 52 = m := by omega
        have he : e = -1074 := by omega
        rw [hm', ← he]
        exact .finite negative hm hplace
      · have hm' : 2 ^ 52 + n % 2 ^ 52 = m := by omega
        have he : ((n / 2 ^ 52 % 2 ^ 11 : Nat) : ℤ) - 1075 = e := by omega
        rw [hm', he]
        exact .finite negative hm hplace

/-! ### Digits around a point -/

/-- Digits without a zero in front of others. -/
def IsWhole (whole : List Char) : Prop :=
  whole = ['0'] ∨ ∃ c cs, whole = c :: cs ∧ c ≠ '0'

theorem IsWhole.ne_nil {whole : List Char} (h : IsWhole whole) : whole ≠ [] := by
  rcases h with rfl | ⟨c, cs, rfl, -⟩ <;> exact List.cons_ne_nil _ _

/-- Digits before and after a point: some on either side. -/
structure Pointed (whole fraction : List Char) : Prop where
  isDigit : ∀ c ∈ whole ++ fraction, c.isDigit = true
  isWhole : IsWhole whole
  fraction_ne_nil : fraction ≠ []

section

variable {whole fraction : List Char} (h : Pointed whole fraction)

include h

theorem Pointed.isDigit_whole : ∀ c ∈ whole, c.isDigit = true :=
  fun c hc => h.isDigit c (List.mem_append_left _ hc)

theorem Pointed.isDigit_fraction : ∀ c ∈ fraction, c.isDigit = true :=
  fun c hc => h.isDigit c (List.mem_append_right _ hc)

end

theorem exists_toDigits_cons {n : Nat} (hn : 0 < n) : ∃ c cs, Nat.toDigits 10 n = c :: cs ∧ c ≠ '0' := by
  induction n using Nat.strongRecOn with
  | ind n ih =>
    rcases Nat.lt_or_ge n 10 with hsmall | hlarge
    · rw [Nat.toDigits_of_lt_base hsmall]
      exact ⟨_, [], rfl, mt Nat.digitChar_eq_zero.1 hn.ne'⟩
    · obtain ⟨c, cs, hdigits, hc⟩ := ih (n / 10) (by omega) (by omega)
      rw [Nat.toDigits_of_base_le (by decide) hlarge, hdigits]
      exact ⟨c, _, rfl, hc⟩

theorem isWhole_toDigits (n : Nat) : IsWhole (Nat.toDigits 10 n) := by
  rcases Nat.eq_zero_or_pos n with rfl | hn
  · exact .inl rfl
  · exact .inr (exists_toDigits_cons hn)

theorem isDigit_of_mem_toDigits {n : Nat} {c : Char} (h : c ∈ Nat.toDigits 10 n) : c.isDigit = true :=
  Nat.isDigit_of_mem_toDigits (by decide) le_rfl h

theorem isDigit_of_mem_replicate {n : Nat} {c : Char} (h : c ∈ List.replicate n '0') : c.isDigit = true := by
  rw [List.eq_of_mem_replicate h]
  rfl

theorem natOfDigits_toDigits (n : Nat) : natOfDigits (Nat.toDigits 10 n) = n :=
  Nat.ofDigitChars_ten_toDigits

theorem natOfDigits_replicate (n : Nat) : natOfDigits (List.replicate n '0') = 0 :=
  Nat.ofDigitChars_replicate_zero.trans (Nat.mul_zero _)

/-- The digits of a number go around a point as they are, or with zeros in front. -/
theorem value_of_append_eq {whole fraction : List Char} {n : Nat} {e : Int} (zeros : Nat)
    (hdigits : whole ++ fraction = List.replicate zeros '0' ++ Nat.toDigits 10 n) (he : (fraction.length : ℤ) = -e) :
    natOfDigits (whole ++ fraction) * 10 ^ (0 - fraction.length : ℤ) = (⟨n, e⟩ : Scaled).value := by
  rw [hdigits, natOfDigits_append, natOfDigits_replicate, natOfDigits_toDigits, he, Nat.mul_zero, Nat.zero_add,
    zero_sub, neg_neg]
  rfl

/-- A decimal is written with these digits before and after a point. -/
structure Written (d : Scaled) (whole fraction : List Char) : Prop where
  toList_eq : (positional true d).toList = whole ++ '.' :: fraction
  pointed : Pointed whole fraction
  value_eq : natOfDigits (whole ++ fraction) * 10 ^ (0 - fraction.length : ℤ) = d.value

/-- A whole number is written with a zero after the point. -/
theorem written_ofNat {n e : Nat} (h : 0 < n ∨ e = 0) :
    Written ⟨n, .ofNat e⟩ (Nat.toDigits 10 n ++ List.replicate e '0') ['0'] := by
  refine ⟨by simp [positional, zeros, Nat.toString_eq_repr], ⟨?_, ?_, List.cons_ne_nil _ _⟩, ?_⟩
  · intro c hc
    simp only [List.mem_append, List.mem_singleton] at hc
    rcases hc with (hc | hc) | rfl
    · exact isDigit_of_mem_toDigits hc
    · exact isDigit_of_mem_replicate hc
    · rfl
  · rcases h with hpos | rfl
    · obtain ⟨c, cs, hdigits, hc⟩ := exists_toDigits_cons hpos
      exact .inr ⟨c, _, congrArg (· ++ List.replicate e '0') hdigits, hc⟩
    · rw [List.replicate_zero, List.append_nil]
      exact isWhole_toDigits n
  · have hnone : natOfDigits ['0'] = 0 := rfl
    rw [natOfDigits_append, natOfDigits_append, natOfDigits_replicate, natOfDigits_toDigits, List.length_replicate,
      List.length_singleton, Scaled.value, hnone]
    push_cast
    rw [zpow_neg_one, Int.ofNat_eq_natCast, zpow_natCast]
    ring

/-- The point stands between two digits. -/
theorem written_inside {n e cut : Nat} (hn : 0 < n) (hinside : e + 1 < (Nat.toDigits 10 n).length)
    (hcut : (Nat.toDigits 10 n).length - (e + 1) = cut) :
    Written ⟨n, .negSucc e⟩ ((Nat.toDigits 10 n).take cut) ((Nat.toDigits 10 n).drop cut) := by
  refine ⟨by simp [positional, hinside, Nat.toString_eq_repr, hcut], ⟨?_, ?_, ?_⟩, ?_⟩
  · rw [List.take_append_drop]
    exact fun c => isDigit_of_mem_toDigits
  · obtain ⟨c, cs, hdigits, hc⟩ := exists_toDigits_cons hn
    obtain ⟨i, rfl⟩ : ∃ i, cut = i + 1 := Nat.exists_eq_succ_of_ne_zero (by omega)
    rw [hdigits]
    exact .inr ⟨c, _, rfl, hc⟩
  · rw [Ne, List.drop_eq_nil_iff]
    omega
  · refine value_of_append_eq 0 (List.take_append_drop _ _) ?_
    rw [List.length_drop]
    omega

/-- The point stands in front of all digits, with zeros to fill up. -/
theorem written_below {n e fill : Nat} (hinside : ¬e + 1 < (Nat.toDigits 10 n).length)
    (hfill : e + 1 - (Nat.toDigits 10 n).length = fill) :
    Written ⟨n, .negSucc e⟩ ['0'] (List.replicate fill '0' ++ Nat.toDigits 10 n) := by
  refine ⟨by simp [positional, hinside, zeros, Nat.toString_eq_repr, hfill], ⟨?_, .inl rfl, ?_⟩, ?_⟩
  · intro c hc
    simp only [List.mem_append, List.mem_singleton] at hc
    rcases hc with rfl | hc | hc
    · rfl
    · exact isDigit_of_mem_replicate hc
    · exact isDigit_of_mem_toDigits hc
  · exact List.append_ne_nil_of_right_ne_nil _ Nat.toDigits_ne_nil
  · refine value_of_append_eq (fill + 1) rfl ?_
    rw [List.length_append, List.length_replicate]
    omega

theorem exists_written {d : Scaled} (hd : 0 < d.digits) : ∃ whole fraction, Written d whole fraction := by
  obtain ⟨n, e⟩ := d
  cases e with
  | ofNat e => exact ⟨_, _, written_ofNat (.inl hd)⟩
  | negSucc e =>
    by_cases hinside : e + 1 < (Nat.toDigits 10 n).length
    · exact ⟨_, _, written_inside hd hinside rfl⟩
    · exact ⟨_, _, written_below hinside rfl⟩

/-! ### Reading what is written -/

/-- The numeral of a positive double's shortest decimal is read as a double with the same parts. -/
theorem Written.unpack_toFloat {m k : Nat} {q : Int} {whole fraction : List Char} (hm : 0 < m)
    (hplace : IsPlace m q k) (h : Written (shortest m q) whole fraction) :
    (Numeral.toFloat ⟨false, whole, fraction, 0⟩).toModel.unpack = .finite .positive m q hm := by
  obtain ⟨l, hl, hstands⟩ := Numeral.roundsTo_toFloat (n := ⟨false, whole, fraction, 0⟩) rfl h.pointed.isDigit
  change Rounds (natOfDigits (whole ++ fraction) * 10 ^ (0 - fraction.length : ℤ)) l at hl
  rw [h.value_eq] at hl
  rw [hl.eq_of_eq (rounds_shortest hm hplace), Nat.min_eq_left (show k ≤ top from hplace.lt_top.le)] at hstands
  have happart := hstands.apart
  generalize (Numeral.toFloat ⟨false, whole, fraction, 0⟩).toModel.unpack = u at happart
  cases happart with
  | zero => exact absurd (hplace.pos hm) (lt_irrefl 0)
  | infinity => exact absurd hplace.lt_top (lt_irrefl _)
  | finite _ hplace' =>
    obtain ⟨rfl, rfl⟩ := hplace.unique hplace'
    rfl

/-- A finite double is written around a point and read back. -/
theorem exists_written_ofFloat {x : Float} {negative : Bool} {m : Nat} {q : Int}
    (hx : Binary.ofFloat x = .finite negative m q) : ∃ whole fraction,
      Written (shortest m q) whole fraction ∧ Numeral.toFloat ⟨negative, whole, fraction, 0⟩ = x := by
  have htaken := takenApart x
  have hpacked := ofModel_pack_unpack x
  rw [hx] at htaken
  generalize x.toModel.unpack = u at htaken hpacked
  rw [← hpacked]
  cases htaken with
  | zero =>
    refine ⟨['0'], ['0'], written_ofNat (.inr rfl), ?_⟩
    cases negative <;> rfl
  | finite _ hm hplace =>
    have hpos : 0 < (shortest m q).digits := by
      have hrounds := rounds_shortest hm hplace
      refine Nat.pos_of_ne_zero fun hzero => (hplace.pos hm).ne ?_
      rw [Scaled.value, hzero, Nat.cast_zero, zero_mul, ← valueAt_zero] at hrounds
      exact (rounds_valueAt 0).eq_of_eq hrounds
    obtain ⟨whole, fraction, hwritten⟩ := exists_written hpos
    have hparts := hwritten.unpack_toFloat hm hplace
    refine ⟨whole, fraction, hwritten, ?_⟩
    cases negative with
    | false =>
      rw [← ofModel_pack_unpack (Numeral.toFloat _), hparts]
      rfl
    | true =>
      have hneg : Numeral.toFloat ⟨true, whole, fraction, 0⟩ = .ofModel (.pack
          (UnpackedFloat.neg (Numeral.toFloat ⟨false, whole, fraction, 0⟩).toModel.unpack)) := rfl
      rw [hneg, hparts]
      rfl

theorem isInf_eq_false {x : Float} {negative : Bool} {m : Nat} {q : Int}
    (hx : Binary.ofFloat x = .finite negative m q) : x.isInf = false := by
  have htaken := takenApart x
  rw [hx] at htaken
  change x.toModel.unpack.isInf = false
  generalize x.toModel.unpack = u at htaken
  cases htaken <;> rfl

theorem eq_of_ofFloat_eq_undefined {x : Float} (hx : Binary.ofFloat x = .undefined) : x = 0 / 0 := by
  have htaken := takenApart x
  have hpacked := ofModel_pack_unpack x
  rw [hx] at htaken
  generalize x.toModel.unpack = u at htaken hpacked
  rw [← hpacked]
  cases htaken
  rfl

theorem eq_of_ofFloat_eq_infinite {x : Float} {negative : Bool} (hx : Binary.ofFloat x = .infinite negative) :
    x = if negative then -1 / 0 else 1 / 0 := by
  have htaken := takenApart x
  have hpacked := ofModel_pack_unpack x
  rw [hx] at htaken
  generalize x.toModel.unpack = u at htaken hpacked
  rw [← hpacked]
  cases htaken
  cases negative <;> rfl

end EchoEngine.Decimal
