import EchoEngine.Decimal.Numeral
import EchoEngine.Proofs.Decimal.Arithmetic

/-!
# Numerals that are read

The double of a numeral is the one that the number it stands for rounds to (`roundsTo_toFloat`).  A decimal of few
digits is the product or the quotient of two doubles that are exact, so that the result is rounded once only.  Any
other decimal is rounded from its digits and its power of ten.  Where the power is so great or so small that this is
not even tried, the result is infinity or zero, as it would be otherwise.
-/

namespace EchoEngine.Decimal

open Float.Model (UnpackedFloat)
open Float.Model.UnpackedFloat Float.Model.Format

/-! ### Exact doubles -/

/-- The place of `a * 2 ^ b`, where `a` has no more bits than a mantissa. -/
def placeOf (a b : Nat) : Nat :=
  (a.log2 + b + 1022) * 2 ^ 52 + a * 2 ^ (52 - a.log2)

theorem valueAt_placeOf {a : Nat} (b : Nat) (hpos : 0 < a) (h : a < 2 ^ 53) : valueAt (placeOf a b) = a * 2 ^ b := by
  have hlog : a.log2 ≤ 52 := Nat.le_of_lt_succ ((Nat.log2_lt hpos.ne').2 h)
  have hlow : 2 ^ 52 ≤ a * 2 ^ (52 - a.log2) := by
    calc 2 ^ 52 = 2 ^ a.log2 * 2 ^ (52 - a.log2) := (pow_mul_pow_sub 2 hlog).symm
      _ ≤ a * 2 ^ (52 - a.log2) := Nat.mul_le_mul_right _ (Nat.log2_self_le hpos.ne')
  have hhigh : a * 2 ^ (52 - a.log2) ≤ 2 ^ 53 := by
    calc a * 2 ^ (52 - a.log2) ≤ 2 ^ (a.log2 + 1) * 2 ^ (52 - a.log2) := Nat.mul_le_mul_right _ Nat.lt_log2_self.le
      _ = 2 ^ 53 := by rw [← pow_add]; congr 1; omega
  have hexponent : ((a.log2 + b + 1022 : Nat) : ℤ) - 1074 = (b : ℤ) - (52 - a.log2 : Nat) := by omega
  rw [placeOf, valueAt_eq hhigh (.inr hlow), hexponent, zpow_sub₀ two_ne_zero, zpow_natCast, zpow_natCast]
  push_cast
  field_simp

/-- A machine word that fits a mantissa is converted as it is. -/
theorem exists_stands_toUInt64 {n : Nat} (h : n < 2 ^ 53) : ∃ k < top, Stands n.toUInt64.toFloat k ∧ valueAt k = n := by
  rcases Nat.eq_zero_or_pos n with rfl | hpos
  · exact ⟨0, by decide, ⟨by decide, by decide⟩, by rw [valueAt_zero, Nat.cast_zero]⟩
  · have hvalue : valueAt (placeOf n 0) = n := by rw [valueAt_placeOf 0 hpos h, pow_zero, mul_one]
    have hbound : (n : ℚ) ≤ valueAt ((53 + 1023) * 2 ^ 52) := by
      rw [valueAt_two_pow]
      exact_mod_cast h.le
    obtain ⟨k, hle, hk, hstands⟩ := (roundsTo_toUInt64 hpos (h.trans (by decide))).of_le hbound (by decide)
    rw [hk.eq_of_eq (hvalue ▸ rounds_valueAt _)] at hle hstands
    exact ⟨_, hle.trans_lt (by decide), hstands, hvalue⟩

private theorem toBits_powersOfTen : ∀ i : Fin Float.exactlyRepresentablePowersOfTen.size,
    Float.exactlyRepresentablePowersOfTen[i].toBits.toNat = placeOf (5 ^ i.val) i ∧
      0 < placeOf (5 ^ i.val) i ∧ placeOf (5 ^ i.val) i < top ∧ 5 ^ i.val < 2 ^ 53 := by
  decide

/-- Powers of ten are exact as long as those of five fit a mantissa. -/
theorem exists_stands_powerOfTen {e : Nat} (he : e < Float.exactlyRepresentablePowersOfTen.size) :
    ∃ k, 0 < k ∧ k < top ∧ Stands Float.exactlyRepresentablePowersOfTen[e] k ∧ valueAt k = 10 ^ e := by
  obtain ⟨hbits, hpos, htop, hfits⟩ := toBits_powersOfTen ⟨e, he⟩
  refine ⟨placeOf (5 ^ e) e, hpos, htop, stands_of_toNat_toBits hbits htop.le, ?_⟩
  rw [valueAt_placeOf e (by positivity) hfits, Nat.cast_pow, ← mul_pow]
  norm_num

/-! ### Extremes -/

/-- Less than half of the least double rounds to zero. -/
theorem rounds_zero_of_lt {q : ℚ} (h : q < 2 ^ (-1075 : ℤ)) : Rounds q 0 where
  above j hj := absurd hj (by omega)
  below := by
    have hone : valueAt 1 = 2 * 2 ^ (-1075 : ℤ) := by
      rw [valueAt, if_pos (by decide), Nat.cast_one, one_mul, ← zpow_one_add₀ two_ne_zero]
      rfl
    left
    rw [valueAt_zero, hone]
    linarith

/-- Natural numbers past the last double round to infinity. -/
theorem roundsTo_infinity {n : Nat} (h : 2 ^ 1024 ≤ n) : RoundsTo (.ofModel (.pack (.infinity .positive))) n := by
  obtain ⟨k, hk, -⟩ := rounds_round 0 ((Nat.two_pow_pos _).trans_le h)
  rw [zpow_zero, mul_one] at hk
  have htop : valueAt top = 2 ^ 1024 := valueAt_two_pow 1024
  have hle : top ≤ k := hk.le_of_valueAt_le (by rw [htop]; exact_mod_cast h)
  exact ⟨k, hk, (Nat.min_eq_right hle).symm ▸ stands_infinity⟩

theorem roundsTo_zero_of_lt {q : ℚ} (h : q < 2 ^ (-1075 : ℤ)) : RoundsTo (.ofModel (.pack (.zero .positive))) q := by
  obtain ⟨k, hk, hzero⟩ := roundsTo_zero .positive
  rw [hk.eq_of_eq (rounds_zero_of_lt (by positivity))] at hzero
  exact ⟨0, rounds_zero_of_lt h, hzero⟩

/-! ### Decimals -/

theorem two_pow_le_mul {m n k : Nat} (hm : 0 < m) (hk : k ≤ 3 * n) : 2 ^ k ≤ m * 10 ^ n := by
  calc 2 ^ k ≤ 2 ^ (3 * n) := Nat.pow_le_pow_right two_pos hk
    _ = 8 ^ n := Nat.pow_mul 2 3 n
    _ ≤ 10 ^ n := Nat.pow_le_pow_left (by decide) n
    _ ≤ m * 10 ^ n := Nat.le_mul_of_pos_left _ hm

theorem ten_zpow_le {e : Int} (he : e ≤ 0) : (10 : ℚ) ^ e ≤ 2 ^ (3 * e) := by
  obtain ⟨n, rfl⟩ : ∃ n : Nat, e = -n := ⟨(-e).toNat, by omega⟩
  rw [zpow_mul, zpow_neg, zpow_neg, zpow_natCast, zpow_natCast]
  exact inv_anti₀ (by positivity) (pow_le_pow_left₀ (by positivity) (by norm_num) n)

/-- What is computed from digits and a power of ten is rounded once. -/
theorem roundsTo_ofModel_ofScientific (m : Nat) (e : Int) :
    RoundsTo (.ofModel (.pack (UnpackedFloat.ofScientific .binary64 m e))) (m * 10 ^ e) := by
  rcases Nat.eq_zero_or_pos m with rfl | hm
  · rw [Nat.cast_zero, zero_mul]
    exact roundsTo_zero .positive
  have hbits : Float.Model.Format.binary64.exponentBits = 11 := rfl
  rw [UnpackedFloat.ofScientific, dif_neg hm.ne', hbits]
  split_ifs with hlarge hsmall hwhole
  -- a power of ten that is too large or too small for any double is not computed
  · obtain ⟨n, rfl⟩ := Int.eq_ofNat_of_zero_le (show 0 ≤ e by omega)
    have hinfinite := roundsTo_infinity (two_pow_le_mul hm (show 1024 ≤ 3 * n by omega))
    rw [zpow_natCast]
    exact_mod_cast hinfinite
  · refine roundsTo_zero_of_lt ?_
    have hm' : (m : ℚ) < 2 ^ ((m.log2 : ℤ) + 1) := by exact_mod_cast Nat.lt_log2_self (n := m)
    calc (m : ℚ) * 10 ^ e < 2 ^ ((m.log2 : ℤ) + 1) * 2 ^ (3 * e) :=
          mul_lt_mul hm' (ten_zpow_le (by omega)) (by positivity) (by positivity)
      _ = 2 ^ ((m.log2 : ℤ) + 1 + 3 * e) := (zpow_add₀ two_ne_zero _ _).symm
      _ ≤ 2 ^ (-1075 : ℤ) := zpow_le_zpow_right₀ one_le_two (by omega)
  · obtain ⟨n, rfl⟩ := Int.eq_ofNat_of_zero_le hwhole
    have hlong : 2 ^ 52 ≤ m <<< 53 * 10 ^ n := by
      rw [Nat.shiftLeft_eq, Nat.mul_assoc, Nat.mul_left_comm]
      exact Nat.le_trans (by decide) (Nat.le_mul_of_pos_right _ (Nat.mul_pos hm (by positivity)))
    have hround := rounds_roundWithAccuracy (a := .exact) rfl (le_target (-53) hlong)
    have hvalue : ((m <<< 53 * 10 ^ n : Nat) : ℚ) * 2 ^ (-53 : ℤ) = m * 10 ^ (n : ℤ) := by
      have hshift := shiftLeft_mul_zpow m 53 0
      rw [zpow_zero, mul_one] at hshift
      rw [← hshift, zpow_natCast]
      push_cast
      ring
    rw [hvalue] at hround
    exact roundsTo_pack hround
  · have hquotient := rounds_div 0 0 hm (show 0 < 10 ^ (-e).toNat by positivity)
    have hvalue : (m : ℚ) * 2 ^ (0 : ℤ) / ((10 ^ (-e).toNat : Nat) * 2 ^ (0 : ℤ)) = m * 10 ^ e := by
      have hexponent : ((-e).toNat : ℤ) = -e := by omega
      rw [zpow_zero, mul_one, mul_one, Nat.cast_pow, ← zpow_natCast, hexponent, zpow_neg, div_inv_eq_mul]
      rfl
    rw [hvalue] at hquotient
    exact roundsTo_pack hquotient

/-- A decimal of few digits is the product or the quotient of two exact doubles, any other one is computed from its
digits and its power of ten. -/
theorem roundsTo_ofScientific (m : Nat) (s : Bool) (e : Nat) :
    RoundsTo (.ofScientific m s e) (m * 10 ^ (if s then -(e : ℤ) else e)) := by
  rw [Float.ofScientific]
  by_cases hshort : m < 2 ^ 53 ∧ e ≤ 22
  · obtain ⟨k, hk, hdigits, hm⟩ := exists_stands_toUInt64 hshort.1
    obtain ⟨l, hpos, hl, hpower, he⟩ := exists_stands_powerOfTen (Nat.lt_succ_of_le hshort.2)
    rw [dif_pos hshort, ← hm]
    cases s with
    | true =>
      have hquotient := roundsTo_div hdigits hpower hk hl hpos
      rwa [he, div_eq_mul_inv, ← zpow_natCast, ← zpow_neg] at hquotient
    | false =>
      have hproduct := roundsTo_mul hdigits hpower hk hl
      rwa [he, ← zpow_natCast] at hproduct
  · rw [dif_neg hshort]
    cases s with
    | true =>
      have hround := roundsTo_ofModel_ofScientific m (Int.negOfNat e)
      rwa [Int.negOfNat_eq] at hround
    | false => exact roundsTo_ofModel_ofScientific m (Int.ofNat e)

/-- Natural numbers are converted by rounding. -/
theorem roundsTo_ofNat (n : Nat) : RoundsTo (.ofNat n) n := by
  have hround := roundsTo_ofScientific n false 0
  rwa [if_neg Bool.false_ne_true, Nat.cast_zero, zpow_zero, mul_one] at hround

/-! ### Numerals -/

theorem natOfDigits_append (cs ds : List Char) :
    natOfDigits (cs ++ ds) = 10 ^ ds.length * natOfDigits cs + natOfDigits ds := by
  change Nat.ofDigitChars 10 (cs ++ ds) 0 = _
  rw [Nat.ofDigitChars_append, Nat.ofDigitChars_eq_ofDigitChars_zero]
  rfl

theorem natOfDigits_lt {cs : List Char} (h : ∀ c ∈ cs, c.isDigit = true) : natOfDigits cs < 10 ^ cs.length := by
  induction cs using List.reverseRecOn with
  | nil => exact Nat.one_pos
  | append_singleton cs c ih =>
    have hrest := ih fun d hd => h d (List.mem_append_left _ hd)
    have hdigit : natOfDigits [c] < 10 := by
      have hc := h c (by simp)
      simp only [Char.isDigit, Bool.and_eq_true, decide_eq_true_eq] at hc
      change 10 * 0 + (c.toNat - 48) < 10
      have hhigh : c.toNat ≤ 57 := UInt32.le_iff_toNat_le.1 hc.2
      omega
    rw [natOfDigits_append, List.length_append, List.length_singleton, pow_succ, pow_succ, pow_zero,
      one_mul]
    omega

namespace Numeral

/-- The number that a numeral stands for, its sign aside. -/
def value (n : Numeral) : ℚ :=
  natOfDigits (n.whole ++ n.fraction) * 10 ^ (n.exponent - n.fraction.length)

/-- A numeral is read as the double that its number rounds to. -/
theorem roundsTo_toFloat {n : Numeral} (hpositive : n.negative = false)
    (hdigits : ∀ c ∈ n.whole ++ n.fraction, c.isDigit = true) : RoundsTo n.toFloat n.value := by
  have hlt := natOfDigits_lt hdigits
  rw [toFloat, value, hpositive, if_neg Bool.false_ne_true]
  generalize natOfDigits (n.whole ++ n.fraction) = m at hlt
  generalize (n.whole ++ n.fraction).length = places at hlt
  generalize n.exponent - n.fraction.length = scale
  split_ifs with hzero hlarge hsmall
  · rw [hzero, Nat.cast_zero, zero_mul]
    exact roundsTo_zero .positive
  · obtain ⟨e, rfl⟩ := Int.eq_ofNat_of_zero_le (show 0 ≤ scale by omega)
    have hinfinite := roundsTo_infinity (two_pow_le_mul (Nat.pos_of_ne_zero hzero) (show 1024 ≤ 3 * e by omega))
    rw [zpow_natCast]
    exact_mod_cast hinfinite
  · refine roundsTo_zero_of_lt ?_
    have hm : (m : ℚ) < 10 ^ (places : ℤ) := by exact_mod_cast hlt
    calc (m : ℚ) * 10 ^ scale < 10 ^ (places : ℤ) * 10 ^ scale := mul_lt_mul_of_pos_right hm (by positivity)
      _ = 10 ^ (places + scale) := (zpow_add₀ (by norm_num) _ _).symm
      _ ≤ 2 ^ (3 * (places + scale)) := ten_zpow_le (by omega)
      _ ≤ 2 ^ (-1075 : ℤ) := zpow_le_zpow_right₀ one_le_two (by omega)
  · cases scale with
    | ofNat e => exact roundsTo_ofScientific m false e
    | negSucc e => exact roundsTo_ofScientific m true (e + 1)

end Numeral

end EchoEngine.Decimal
