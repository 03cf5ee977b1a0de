import EchoEngine.Decimal.Shortest
import EchoEngine.Proofs.Decimal.Rounding

/-!
# Shortest decimals

The decimal that is written for a double rounds to that double (`rounds_shortest`).  It is a point of an interval
whose points all do (`Interval.Contains.rounds`), and one is found on the grid of seventeen digits at the latest, as
the steps of that grid are shorter than the interval (`Interval.exists_pick_ofBinary`).
-/

namespace EchoEngine.Decimal

/-! ### Decimals and ratios -/

namespace Scaled

variable {n : Nat}

def value (d : Scaled) : ℚ :=
  d.digits * 10 ^ d.exponent

theorem lt_pow_digitCount (n : Nat) : n < 10 ^ digitCount n :=
  (Nat.length_toDigits_le_iff (by decide) Nat.length_toDigits_pos).1 le_rfl

theorem pow_digitCount_le (hn : 0 < n) : 10 ^ (digitCount n - 1) ≤ n := by
  rcases Nat.eq_zero_or_pos (digitCount n - 1) with hone | hmore
  · rwa [hone, pow_zero]
  · by_contra hlt
    have hle := (Nat.length_toDigits_le_iff (by decide) hmore).2 (Nat.not_le.1 hlt)
    change digitCount n ≤ _ at hle
    omega

theorem value_trimZeros (fuel : Nat) (d : Scaled) : (trimZeros fuel d).value = d.value := by
  induction fuel generalizing d with
  | zero => rfl
  | succ fuel ih =>
    rw [trimZeros]
    split_ifs with hzero
    · have hdigits : (d.digits : ℚ) = 10 * (d.digits / 10 : Nat) := by
        exact_mod_cast (Nat.mul_div_cancel' (Nat.dvd_of_mod_eq_zero hzero.2)).symm
      rw [ih, value, value, hdigits, zpow_add_one₀ (by norm_num)]
      ring
    · rfl

end Scaled

namespace Ratio

def value (r : Ratio) : ℚ :=
  r.num / r.den

/-- Neither number is zero. -/
structure Positive (r : Ratio) : Prop where
  num_pos : 0 < r.num
  den_pos : 0 < r.den

theorem positive_ofBinary {m : Nat} (hm : 0 < m) (q : Int) : (ofBinary m q).Positive := by
  cases q with
  | ofNat q => exact ⟨Nat.mul_pos hm (Nat.two_pow_pos q), Nat.one_pos⟩
  | negSucc q => exact ⟨hm, Nat.two_pow_pos _⟩

theorem value_ofBinary (m : Nat) (q : Int) : (ofBinary m q).value = m * 2 ^ q := by
  cases q with
  | ofNat q =>
    rw [ofBinary, value, Int.ofNat_eq_natCast, zpow_natCast, Nat.cast_one, div_one, Nat.pow_eq]
    push_cast
    rfl
  | negSucc q =>
    rw [ofBinary, value, zpow_negSucc, div_eq_mul_inv, Nat.pow_eq]
    push_cast
    rfl

theorem den_pos_scaleDown {r : Ratio} (hr : 0 < r.den) (k : Int) : 0 < (r.scaleDown k).den := by
  cases k with
  | ofNat k => exact Nat.mul_pos hr (Nat.pow_pos (by decide))
  | negSucc k => exact hr

theorem value_scaleDown (r : Ratio) (k : Int) : (r.scaleDown k).value = r.value / 10 ^ k := by
  cases k with
  | ofNat k =>
    rw [scaleDown, value, value, Int.ofNat_eq_natCast, zpow_natCast, div_div, Nat.pow_eq]
    push_cast
    rfl
  | negSucc k =>
    rw [scaleDown, value, value, zpow_negSucc, div_inv_eq_mul, Nat.pow_eq, div_mul_eq_mul_div]
    push_cast
    rfl

/-- A positive ratio is at least the power of ten of its first digit. -/
theorem pow_magnitude_le {r : Ratio} (h : r.Positive) : (10 : ℚ) ^ r.magnitude ≤ r.value := by
  obtain ⟨hnum, hden⟩ := h
  have hden' : (0 : ℚ) < r.den := Nat.cast_pos.2 hden
  rw [magnitude, value]
  split_ifs with hle
  · have hquotient := Scaled.pow_digitCount_le (Nat.div_pos hle hden)
    rw [zpow_natCast, le_div_iff₀ hden']
    exact_mod_cast (Nat.le_div_iff_mul_le hden).1 hquotient
  · -- the denominator is at most the number of digits' power of ten times the numerator
    generalize hc : (r.den + r.num - 1) / r.num - 1 = c
    have hceil : r.den ≤ (c + 1) * r.num := by
      have hdiv := Nat.lt_div_mul_add (a := r.den + r.num - 1) hnum
      have hone : 1 ≤ (r.den + r.num - 1) / r.num := (Nat.one_le_div_iff hnum).2 (by omega)
      have hsucc : c + 1 = (r.den + r.num - 1) / r.num := by omega
      rw [hsucc]
      omega
    have hbound : r.den ≤ 10 ^ Scaled.digitCount c * r.num :=
      hceil.trans (Nat.mul_le_mul_right _ (Scaled.lt_pow_digitCount c))
    rw [zpow_neg, zpow_natCast, le_div_iff₀ hden', inv_mul_le_iff₀ (by positivity)]
    exact_mod_cast hbound

end Ratio

/-! ### Steps around a place -/

theorem IsPlace.gap_eq {m k : Nat} {q : Int} (h : IsPlace m q k) : gap k = 2 ^ q := by
  obtain ⟨hfits, hleast, hnormal, heq, -⟩ := h
  obtain ⟨t, rfl⟩ := Int.exists_add_of_le hleast
  obtain rfl : k = t * 2 ^ 52 + m := by omega
  rw [Decimal.gap_eq hfits (by omega)]
  congr 1

/-- Below a power of two the steps get shorter. -/
theorem IsPlace.gap_pred {m j : Nat} {q : Int} (h : IsPlace m q (j + 1)) :
    gap j = if m = 2 ^ 52 ∧ -1074 < q then 2 ^ (q - 1) else 2 ^ q := by
  obtain ⟨hfits, hleast, hnormal, heq, -⟩ := h
  obtain ⟨t, rfl⟩ := Int.exists_add_of_le hleast
  split_ifs with hpower
  · obtain rfl : j = (t - 1) * 2 ^ 52 + (2 ^ 53 - 1) := by omega
    rw [Decimal.gap_eq (by decide) (.inr (by decide))]
    congr 1
    omega
  · obtain rfl : j = t * 2 ^ 52 + (m - 1) := by omega
    rw [Decimal.gap_eq (by omega) (by omega)]
    congr 1

namespace Interval

/-- The numbers of an interval. -/
def Contains (i : Interval) (x : ℚ) : Prop :=
  if i.closed then i.low ≤ x * i.den ∧ x * i.den ≤ i.high else i.low < x * i.den ∧ x * i.den < i.high

theorem holds_iff (i : Interval) (k : Int) (d : Nat) : i.holds k d = true ↔ i.Contains (d * 10 ^ k) := by
  have hden : 0 < (Ratio.scaleDown ⟨1, 1⟩ (-k)).den := Ratio.den_pos_scaleDown Nat.one_pos (-k)
  have hstep := Ratio.value_scaleDown ⟨1, 1⟩ (-k)
  rw [holds, Contains]
  generalize Ratio.scaleDown ⟨1, 1⟩ (-k) = step at hden hstep
  have hpoint : (d : ℚ) * 10 ^ k * i.den = (d * step.num * i.den : Nat) / step.den := by
    have hpower : (10 : ℚ) ^ k = step.num / step.den := by
      rw [zpow_neg, div_inv_eq_mul, Ratio.value, Ratio.value, Nat.cast_one, div_one, one_mul] at hstep
      exact hstep.symm
    rw [hpower]
    push_cast
    ring
  have hden' : (0 : ℚ) < step.den := Nat.cast_pos.2 hden
  rw [hpoint, le_div_iff₀ hden', div_le_iff₀ hden', lt_div_iff₀ hden', div_lt_iff₀ hden']
  norm_cast
  cases i.closed <;> simp

/-- What is picked from a grid is one of its points. -/
theorem holds_of_pick {i : Interval} {k : Int} {d : Nat} (h : i.pick k = some d) : i.holds k d = true := by
  rw [pick] at h
  split at h
  · rename_i hlow _
    exact Option.some_inj.1 h ▸ hlow
  · rename_i _ hhigh
    exact Option.some_inj.1 h ▸ hhigh
  · cases h
  · rename_i hlow hhigh
    split_ifs at h
    all_goals first | exact Option.some_inj.1 h ▸ hlow | exact Option.some_inj.1 h ▸ hhigh

/-- One of the two points of a grid around the value is picked, if either is in the interval. -/
theorem exists_pick (i : Interval) (k : Int) : ∃ d : Nat, d * 10 ^ k ≤ (i.value / i.den : ℚ) ∧
    (i.value / i.den : ℚ) < (d + 1) * 10 ^ k ∧
    (i.holds k d = true ∨ i.holds k (d + 1) = true → ∃ d', i.pick k = some d') := by
  have hscaled := Ratio.value_scaleDown ⟨i.value, i.den⟩ k
  have hpower : (0 : ℚ) < 10 ^ k := by positivity
  rw [pick]
  generalize Ratio.scaleDown ⟨i.value, i.den⟩ k = scaled at hscaled
  have hvalue : (i.value / i.den : ℚ) = scaled.value * 10 ^ k := by
    rw [hscaled, div_mul_cancel₀ _ hpower.ne']
    rfl
  refine ⟨scaled.num / scaled.den, ?_, ?_, ?_⟩
  · rw [hvalue, ← Nat.floor_div_eq_div (K := ℚ)]
    exact mul_le_mul_of_nonneg_right (Nat.floor_le (by positivity)) hpower.le
  · rw [hvalue, ← Nat.floor_div_eq_div (K := ℚ)]
    exact mul_lt_mul_of_pos_right (Nat.lt_floor_add_one _) hpower
  · intro hholds
    generalize scaled.num / scaled.den = d at hholds
    generalize i.holds k d = low at hholds
    generalize i.holds k (d + 1) = high at hholds
    cases low <;> cases high
    · simp at hholds
    · exact ⟨_, rfl⟩
    · exact ⟨_, rfl⟩
    · dsimp only
      split_ifs <;> exact ⟨_, rfl⟩

/-! ### The interval of a double -/

/-- How many quarters of a step the interval of `m * 2 ^ q` has below that value. -/
def quartersBelow (m : Nat) (q : Int) : Nat :=
  if m = 2 ^ 52 ∧ -1074 < q then 1 else 2

theorem value_ofBinary (m : Nat) (q : Int) : ((ofBinary m q).value / (ofBinary m q).den : ℚ) = m * 2 ^ q := by
  have hunit := Ratio.value_ofBinary 1 (q - 2)
  rw [Nat.cast_one, one_mul, Ratio.value, zpow_sub₀ two_ne_zero] at hunit
  rw [ofBinary]
  dsimp only
  push_cast
  rw [mul_div_assoc, hunit]
  ring

theorem contains_ofBinary_iff {m : Nat} (q : Int) {x : ℚ} (hm : 0 < m) :
    (ofBinary m q).Contains x ↔
      if m % 2 = 0 then (4 * m - quartersBelow m q) * 2 ^ (q - 2) ≤ x ∧ x ≤ (4 * m + 2) * 2 ^ (q - 2)
      else (4 * m - quartersBelow m q) * 2 ^ (q - 2) < x ∧ x < (4 * m + 2) * 2 ^ (q - 2) := by
  have hunit := Ratio.value_ofBinary 1 (q - 2)
  have hden := (Ratio.positive_ofBinary Nat.one_pos (q - 2)).den_pos
  rw [Nat.cast_one, one_mul, Ratio.value] at hunit
  have hbelow : quartersBelow m q ≤ 4 * m := by
    unfold quartersBelow
    split <;> omega
  have hlow : (ofBinary m q).low = (4 * m - quartersBelow m q) * (Ratio.ofBinary 1 (q - 2)).num := rfl
  have hhigh : (ofBinary m q).high = (4 * m + 2) * (Ratio.ofBinary 1 (q - 2)).num := rfl
  have hsame : (ofBinary m q).den = (Ratio.ofBinary 1 (q - 2)).den := rfl
  have hclosed : (ofBinary m q).closed = decide (m % 2 = 0) := rfl
  rw [Contains, hlow, hhigh, hsame, hclosed, ← hunit]
  generalize Ratio.ofBinary 1 (q - 2) = unit at hden
  have hden' : (0 : ℚ) < unit.den := Nat.cast_pos.2 hden
  simp only [← mul_div_assoc, div_le_iff₀ hden', le_div_iff₀ hden', div_lt_iff₀ hden', lt_div_iff₀ hden',
    decide_eq_true_eq, Nat.cast_mul, Nat.cast_sub hbelow, Nat.cast_add, Nat.cast_ofNat]

theorem contains_of_lt {m : Nat} {q : Int} {x : ℚ} (hm : 0 < m)
    (hlow : (4 * m - quartersBelow m q) * 2 ^ (q - 2) < x) (hhigh : x < (4 * m + 2) * 2 ^ (q - 2)) :
    (ofBinary m q).Contains x := by
  rw [contains_ofBinary_iff q hm]
  split
  · exact ⟨hlow.le, hhigh.le⟩
  · exact ⟨hlow, hhigh⟩

/-- What is in the interval of a double rounds to it. -/
theorem Contains.rounds {m k : Nat} {q : Int} {x : ℚ} (h : (ofBinary m q).Contains x) (hm : 0 < m)
    (hplace : IsPlace m q k) : Rounds x k := by
  have hparity : k % 2 = m % 2 := by
    have heq := hplace.eq
    omega
  have hvalue := hplace.valueAt_eq
  have hstep : (2 : ℚ) ^ q = 4 * 2 ^ (q - 2) := by rw [zpow_sub₀ two_ne_zero]; ring
  rw [contains_ofBinary_iff q hm, ← hparity] at h
  rw [hstep] at hvalue
  constructor
  case above =>
    rintro j rfl
    have hbelow : gap j = 2 * quartersBelow m q * 2 ^ (q - 2) := by
      have hhalf : (2 : ℚ) ^ (q - 1) = 2 * 2 ^ (q - 2) := by rw [← zpow_one_add₀ two_ne_zero]; congr 1; ring
      rw [hplace.gap_pred, quartersBelow, hstep, hhalf]
      split_ifs <;> push_cast <;> ring
    have hprevious := valueAt_succ j
    split_ifs at h with heven
    · rcases h.1.lt_or_eq with hlt | heq
      · left; linarith
      · right; exact ⟨by linarith, heven⟩
    · left; linarith [h.1]
  case below =>
    have hgap := hplace.gap_eq
    rw [valueAt_succ, hgap, hstep]
    split_ifs at h with heven
    · rcases h.2.lt_or_eq with hlt | heq
      · left; linarith
      · right; exact ⟨by linarith, heven⟩
    · left; linarith [h.2]

/-- On the grid of seventeen digits there is a point next to the value that is in the interval. -/
theorem exists_pick_ofBinary {m k : Nat} {q : Int} (hm : 0 < m) (hplace : IsPlace m q k) :
    ∃ d, (ofBinary m q).pick ((Ratio.ofBinary m q).magnitude - 16) = some d := by
  have hmagnitude := Ratio.pow_magnitude_le (Ratio.positive_ofBinary hm q)
  rw [Ratio.value_ofBinary] at hmagnitude
  have hstep : (10 : ℚ) ^ ((Ratio.ofBinary m q).magnitude - 16) * 10 ^ 16 ≤ m * 2 ^ q := by
    rwa [zpow_sub₀ (by norm_num), zpow_ofNat, div_mul_cancel₀ _ (by norm_num)]
  generalize (Ratio.ofBinary m q).magnitude - 16 = j at hstep
  obtain ⟨d, hfloor, hceil, hpick⟩ := exists_pick (ofBinary m q) j
  refine hpick ?_
  rw [value_ofBinary] at hfloor hceil
  have hunit : (0 : ℚ) < 2 ^ (q - 2) := by positivity
  have hvalue : (m : ℚ) * 2 ^ q = 4 * m * 2 ^ (q - 2) := by rw [zpow_sub₀ two_ne_zero]; ring
  rw [hvalue] at hstep hfloor hceil
  rw [holds_iff, holds_iff, Nat.cast_add_one]
  have hlong : (10 : ℚ) ^ j < (quartersBelow m q + 2) * 2 ^ (q - 2) := by
    rw [quartersBelow]
    split_ifs with hpower
    · rw [hpower.1] at hstep
      push_cast at hstep ⊢
      linarith
    · have hfits : (m : ℚ) < 2 ^ 53 := by exact_mod_cast hplace.fits
      have hbound := mul_lt_mul_of_pos_right hfits hunit
      push_cast
      linarith
  -- if neither point were inside, the interval would be no longer than a step of the grid
  by_cases hlow : (4 * m - quartersBelow m q) * 2 ^ (q - 2) < (d : ℚ) * 10 ^ j
  · exact .inl (contains_of_lt hm hlow (by linarith))
  · have hpositive : (0 : ℚ) ≤ quartersBelow m q * 2 ^ (q - 2) := by positivity
    exact .inr (contains_of_lt hm (by linarith) (by linarith))

/-- The search comes to an end on the grid of seventeen digits if not before. -/
theorem search_eq {i : Interval} {magnitude : Int} (hpick : ∃ d, i.pick (magnitude - 16) = some d) {fuel n : Nat}
    (hn : n ≤ 17) (hfuel : 17 < n + fuel) :
    ∃ k d, i.holds k d = true ∧ i.search magnitude fuel n = Scaled.trimZeros 20 ⟨d, k⟩ := by
  induction fuel generalizing n with
  | zero => omega
  | succ fuel ih =>
    rw [search]
    cases h : i.pick (magnitude - n + 1) with
    | some d => exact ⟨_, d, holds_of_pick h, rfl⟩
    | none =>
      have hne : n ≠ 17 := by
        rintro rfl
        obtain ⟨d, hd⟩ := hpick
        have hexponent : magnitude - (17 : Nat) + 1 = magnitude - 16 := by omega
        rw [hexponent, hd] at h
        cases h
      exact ih (by omega) (by omega)

end Interval

/-- The decimal written for a positive double rounds to it. -/
theorem rounds_shortest {m k : Nat} {q : Int} (hm : 0 < m) (hplace : IsPlace m q k) :
    Rounds (shortest m q).value k := by
  obtain ⟨j, d, hholds, hsearch⟩ :=
    Interval.search_eq (Interval.exists_pick_ofBinary hm hplace) (show 1 ≤ 17 by decide) (show 17 < 1 + 18 by decide)
  rw [shortest, if_neg hm.ne', hsearch, Scaled.value_trimZeros]
  exact ((Interval.holds_iff _ _ _).1 hholds).rounds hm hplace

end EchoEngine.Decimal
