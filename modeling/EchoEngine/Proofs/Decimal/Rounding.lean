import EchoEngine.Proofs.Decimal.Order

/-!
# Rounding

The result of an operation on doubles is the double next to the exact result, the even one of two that are equally
near.  In terms of places, a nonnegative number rounds to the place whose double is the nearest (`Rounds`), where
infinity stands for the first place without one.  So rounding keeps order (`Rounds.le_of_le`) and leaves doubles
alone (`rounds_valueAt`).

The algorithm shifts a mantissa to the right and remembers of what falls off no more than where it lies relative to
one half (`Locates`).  That is enough to round it (`rounds_roundWithAccuracy`).
-/

namespace EchoEngine.Decimal

open Float.Model (UnpackedFloat totalExponent)
open Float.Model.UnpackedFloat Float.Model.Format

/-! ### The doubles at places -/

/-- The nonnegative double at a place, and what would follow if exponents went on. -/
def valueAt (k : Nat) : ℚ :=
  if k < 2 ^ 52 then k * 2 ^ (-1074 : ℤ) else (2 ^ 52 + k % 2 ^ 52 : Nat) * 2 ^ (((k / 2 ^ 52 : Nat) : ℤ) - 1075)

/-- From one power of two to the next one, both included, places count in equal steps. -/
theorem valueAt_eq {t r : Nat} (hr : r ≤ 2 ^ 53) (h : t = 0 ∨ 2 ^ 52 ≤ r) :
    valueAt (t * 2 ^ 52 + r) = r * 2 ^ ((t : ℤ) - 1074) := by
  rw [valueAt]
  rcases Nat.lt_or_ge (t * 2 ^ 52 + r) (2 ^ 52) with hsmall | hlarge
  · obtain rfl : t = 0 := by omega
    rw [if_pos hsmall]
    simp
  · rw [if_neg (Nat.not_lt.2 hlarge)]
    rcases hr.eq_or_lt with rfl | hr
    · have hdiv : (t * 2 ^ 52 + 2 ^ 53) / 2 ^ 52 = t + 2 := by omega
      have hmod : (t * 2 ^ 52 + 2 ^ 53) % 2 ^ 52 = 0 := by omega
      have hexponent : ((t + 2 : Nat) : ℤ) - 1075 = (t : ℤ) - 1074 + 1 := by push_cast; ring
      rw [hdiv, hmod, hexponent, zpow_add_one₀ two_ne_zero]
      push_cast
      ring
    · have hdiv : (t * 2 ^ 52 + r) / 2 ^ 52 = t + 1 := by omega
      have hmod : 2 ^ 52 + (t * 2 ^ 52 + r) % 2 ^ 52 = r := by omega
      have hexponent : ((t + 1 : Nat) : ℤ) - 1075 = (t : ℤ) - 1074 := by push_cast; ring
      rw [hdiv, hmod, hexponent]

theorem exists_steps (k : Nat) : ∃ t r, k = t * 2 ^ 52 + r ∧ r < 2 ^ 53 ∧ (t = 0 ∨ 2 ^ 52 ≤ r) := by
  rcases Nat.lt_or_ge k (2 ^ 52) with hsmall | hlarge
  · exact ⟨0, k, by omega, by omega, .inl rfl⟩
  · exact ⟨k / 2 ^ 52 - 1, k % 2 ^ 52 + 2 ^ 52, by omega, by omega, .inr (by omega)⟩

theorem IsPlace.valueAt_eq {m k : Nat} {e : Int} (h : IsPlace m e k) : valueAt k = m * 2 ^ e := by
  obtain ⟨hfits, hleast, hnormal, heq, -⟩ := h
  obtain ⟨t, rfl⟩ := Int.exists_add_of_le hleast
  have hk : k = t * 2 ^ 52 + m := by omega
  rw [hk, Decimal.valueAt_eq hfits.le (by omega)]
  congr 2

/-- The step from a place to the next one. -/
def gap (k : Nat) : ℚ :=
  valueAt (k + 1) - valueAt k

theorem gap_eq {t r : Nat} (hr : r < 2 ^ 53) (h : t = 0 ∨ 2 ^ 52 ≤ r) :
    gap (t * 2 ^ 52 + r) = 2 ^ ((t : ℤ) - 1074) := by
  have hnext : t * 2 ^ 52 + r + 1 = t * 2 ^ 52 + (r + 1) := Nat.add_assoc _ _ _
  rw [gap, hnext, valueAt_eq hr (by omega), valueAt_eq hr.le h]
  push_cast
  ring

theorem valueAt_succ (k : Nat) : valueAt (k + 1) = valueAt k + gap k := by
  rw [gap]
  ring

theorem gap_pos (k : Nat) : 0 < gap k := by
  obtain ⟨t, r, rfl, hr, h⟩ := exists_steps k
  rw [gap_eq hr h]
  positivity

/-- At a power of two the step doubles. -/
theorem gap_succ (k : Nat) : gap (k + 1) = gap k ∨ gap (k + 1) = 2 * gap k := by
  obtain ⟨t, r, rfl, hr, h⟩ := exists_steps k
  rw [gap_eq hr h]
  rcases Nat.lt_or_ge (r + 1) (2 ^ 53) with hnext | hnext
  · rw [Nat.add_assoc, gap_eq hnext (by omega)]
    exact .inl rfl
  · have hk : t * 2 ^ 52 + r + 1 = (t + 1) * 2 ^ 52 + 2 ^ 52 := by omega
    have hexponent : ((t + 1 : Nat) : ℤ) - 1074 = (t : ℤ) - 1074 + 1 := by push_cast; ring
    rw [hk, gap_eq (by decide) (.inr le_rfl), hexponent, zpow_add_one₀ two_ne_zero, mul_comm]
    exact .inr rfl

theorem gap_mono : Monotone gap := by
  refine monotone_nat_of_le_succ fun k => ?_
  have hpos := gap_pos k
  rcases gap_succ k with h | h <;> linarith

theorem valueAt_strictMono : StrictMono valueAt := by
  refine strictMono_nat_of_lt_succ fun k => ?_
  rw [valueAt_succ]
  exact lt_add_of_pos_right _ (gap_pos k)

theorem valueAt_zero : valueAt 0 = 0 := by
  rw [valueAt, if_pos (by decide), Nat.cast_zero, zero_mul]

theorem valueAt_nonneg (k : Nat) : 0 ≤ valueAt k := by
  rw [← valueAt_zero]
  exact valueAt_strictMono.monotone (Nat.zero_le k)

/-- A double is less than `2 ^ 53` of its steps. -/
theorem valueAt_le_gap (k : Nat) : valueAt k ≤ (2 ^ 53 - 1) * gap k := by
  obtain ⟨t, r, rfl, hr, h⟩ := exists_steps k
  rw [gap_eq hr h, valueAt_eq hr.le h]
  have hcast : (r : ℚ) ≤ 2 ^ 53 - 1 := by
    rw [le_sub_iff_add_le]
    exact_mod_cast hr
  exact mul_le_mul_of_nonneg_right hcast (by positivity)

/-- A normal double is at least `2 ^ 52` of its steps. -/
theorem gap_le_valueAt {k : Nat} (hk : 2 ^ 52 ≤ k) : 2 ^ 52 * gap k ≤ valueAt k := by
  obtain ⟨t, r, rfl, hr, h⟩ := exists_steps k
  rw [gap_eq hr h, valueAt_eq hr.le h]
  have hcast : (2 : ℚ) ^ 52 ≤ r := by
    have hnormal : 2 ^ 52 ≤ r := by omega
    exact_mod_cast hnormal
  exact mul_le_mul_of_nonneg_right hcast (by positivity)

/-! ### Nearest places -/

/-- No place is nearer to a number than this one. -/
structure Rounds (q : ℚ) (k : Nat) : Prop where
  /-- The number is not nearer to the place below, and this one is even if both are equally near. -/
  above : ∀ j, k = j + 1 → valueAt j + valueAt k < 2 * q ∨ valueAt j + valueAt k = 2 * q ∧ k % 2 = 0
  /-- Nor is it nearer to the place above. -/
  below : 2 * q < valueAt k + valueAt (k + 1) ∨ 2 * q = valueAt k + valueAt (k + 1) ∧ k % 2 = 0

namespace Rounds

variable {q q' : ℚ} {j k l : Nat}

theorem le_of_le (h : Rounds q k) (h' : Rounds q' l) (hq : q ≤ q') : k ≤ l := by
  by_contra hlt
  obtain ⟨j, rfl⟩ := Nat.exists_eq_succ_of_ne_zero (Nat.ne_zero_of_lt (Nat.not_le.1 hlt))
  have hj : l ≤ j := by omega
  have hlow := valueAt_strictMono.monotone hj
  have hhigh := valueAt_strictMono.monotone (Nat.succ_le_succ hj)
  -- both are halfway between the same two places, and only one of these is even
  rcases h.above j rfl with habove | ⟨habove, heven⟩
  · rcases h'.below with hbelow | ⟨hbelow, -⟩ <;> linarith
  · rcases h'.below with hbelow | ⟨hbelow, heven'⟩
    · linarith
    · have hsame : l = j := valueAt_strictMono.injective (by linarith)
      omega

theorem eq_of_eq (h : Rounds q k) (h' : Rounds q l) : k = l :=
  le_antisymm (h.le_of_le h' le_rfl) (h'.le_of_le h le_rfl)

end Rounds

theorem rounds_valueAt (k : Nat) : Rounds (valueAt k) k where
  above j hj := by
    have hless := valueAt_strictMono (show j < k by omega)
    exact .inl (by linarith)
  below := by
    have hless := valueAt_strictMono (Nat.lt_succ_self k)
    exact .inl (by linarith)

namespace Rounds

variable {q : ℚ} {j k : Nat}

theorem le_of_le_valueAt (h : Rounds q k) (hq : q ≤ valueAt j) : k ≤ j :=
  h.le_of_le (rounds_valueAt j) hq

theorem le_of_valueAt_le (h : Rounds q k) (hq : valueAt j ≤ q) : j ≤ k :=
  (rounds_valueAt j).le_of_le h hq

/-- Rounding up goes by at most half a step. -/
theorem le_add_gap (h : Rounds q k) : q ≤ valueAt k + gap k / 2 := by
  have hnext := valueAt_succ k
  rcases h.below with hbelow | ⟨hbelow, -⟩ <;> linarith

theorem sub_gap_le (h : Rounds q k) (hq : 0 ≤ q) : valueAt k - gap k / 2 ≤ q := by
  rcases Nat.eq_zero_or_eq_succ_pred k with hk | hk
  · rw [hk, valueAt_zero]
    linarith [gap_pos 0]
  · have hnext := valueAt_succ k.pred
    rw [← Nat.succ_eq_add_one, ← hk] at hnext
    have hgap := gap_mono (Nat.pred_le k)
    rcases h.above _ hk with habove | ⟨habove, -⟩ <;> linarith

end Rounds

/-! ### Mantissas -/

/-- A natural number is the nearest one, the even one of two that are equally near. -/
structure Nearest (x : ℚ) (r : Nat) : Prop where
  above : (r : ℚ) - 1 / 2 < x ∨ (r : ℚ) - 1 / 2 = x ∧ r % 2 = 0
  below : x < r + 1 / 2 ∨ x = r + 1 / 2 ∧ r % 2 = 0

/-- What an accuracy says about a number with a given floor. -/
def Locates (x : ℚ) (m : Nat) : Accuracy → Prop
  | .exact => x = m
  | .inexact .lt => m < x ∧ x < m + 1 / 2
  | .inexact .eq => x = m + 1 / 2
  | .inexact .gt => m + 1 / 2 < x ∧ x < m + 1

variable {x : ℚ}

theorem Locates.floor {m : Nat} {a : Accuracy} (h : Locates x m a) : m ≤ x ∧ x < m + 1 := by
  unfold Locates at h
  split at h
  case h_1 | h_3 =>
    rw [h]
    constructor <;> linarith
  case h_2 | h_4 => constructor <;> linarith

theorem Locates.nearest {em : ExtendedMantissa} (h : Locates x em.mantissa em.accuracy) :
    Nearest x em.roundedMantissa := by
  rw [ExtendedMantissa.roundedMantissa]
  generalize em.mantissa = m at h ⊢
  generalize em.accuracy = a at h ⊢
  unfold Locates at h
  split at h
  case h_1 =>
    subst h
    exact ⟨.inl (by simp [Accuracy.roundToNearestEven]), .inl (by simp [Accuracy.roundToNearestEven])⟩
  case h_2 =>
    simp only [Accuracy.roundToNearestEven]
    exact ⟨.inl (by linarith), .inl (by linarith)⟩
  case h_3 =>
    subst h
    simp only [Accuracy.roundToNearestEven]
    rcases Nat.mod_two_eq_zero_or_one m with hm | hm
    · rw [hm]
      exact ⟨.inl (by push_cast; linarith), .inr ⟨by push_cast; ring, hm⟩⟩
    · rw [hm]
      exact ⟨.inr ⟨by push_cast; ring, by omega⟩, .inl (by push_cast; linarith)⟩
  case h_4 =>
    simp only [Accuracy.roundToNearestEven]
    exact ⟨.inl (by push_cast; linarith), .inl (by push_cast; linarith)⟩

theorem Locates.shiftRightOne {em : ExtendedMantissa} (h : Locates x em.mantissa em.accuracy) :
    Locates (x / 2) em.shiftRightOne.mantissa em.shiftRightOne.accuracy := by
  obtain ⟨m, round, sticky⟩ := em
  have hm : (m : ℚ) = 2 * (m / 2 : Nat) + (m % 2 : Nat) := by exact_mod_cast (Nat.div_add_mod m 2).symm
  change Locates _ (m / 2) (ExtendedMantissa.accuracy ⟨m / 2, m % 2 != 0, round || sticky⟩)
  -- the bit that falls off is the first one below the point
  rcases Nat.mod_two_eq_zero_or_one m with hbit | hbit
  all_goals
    rw [hbit] at hm ⊢
    generalize m / 2 = half at hm
    cases round <;> cases sticky <;> simp [ExtendedMantissa.accuracy, Locates, hm] at h ⊢
    all_goals first | linarith | (constructor <;> linarith)

/-- Shifting divides by a power of two. -/
theorem Locates.shiftRight {em : ExtendedMantissa} (h : Locates x em.mantissa em.accuracy) (n : Nat) :
    Locates (x / 2 ^ n) (em >>> n).mantissa (em >>> n).accuracy := by
  induction n with
  | zero =>
    rw [pow_zero, div_one]
    exact h
  | succ n ih =>
    rw [pow_succ, ← div_div]
    exact ih.shiftRightOne

/-- What is nearest within a range of equal steps is nearest among all places. -/
theorem Nearest.rounds {t r : Nat} (h : Nearest x r) (hlt : x < 2 ^ 53) (hge : t = 0 ∨ 2 ^ 52 ≤ x) :
    r ≤ 2 ^ 53 ∧ (t = 0 ∨ 2 ^ 52 ≤ r) ∧ Rounds (x * 2 ^ ((t : ℤ) - 1074)) (t * 2 ^ 52 + r) := by
  have hr : r ≤ 2 ^ 53 := by
    have hcast : (r : ℚ) < 2 ^ 53 + 1 := by rcases h.above with habove | ⟨habove, -⟩ <;> linarith
    have hnat : r < 2 ^ 53 + 1 := by exact_mod_cast hcast
    omega
  have hnormal : t = 0 ∨ 2 ^ 52 ≤ r := by
    refine hge.imp_right fun hge => ?_
    have hcast : (2 ^ 52 : ℚ) < r + 1 := by rcases h.below with hbelow | ⟨hbelow, -⟩ <;> linarith
    have hnat : 2 ^ 52 < r + 1 := by exact_mod_cast hcast
    omega
  refine ⟨hr, hnormal, ?_⟩
  have hstep : (0 : ℚ) < 2 ^ ((t : ℤ) - 1074) := by positivity
  have hvalue := valueAt_eq hr hnormal
  have hparity : (t * 2 ^ 52 + r) % 2 = r % 2 := by omega
  constructor
  case above =>
    intro j hj
    rw [hparity, hvalue]
    by_cases hlower : t = 0 ∨ 2 ^ 52 < r
    · obtain ⟨i, rfl⟩ : ∃ i, r = i + 1 := Nat.exists_eq_succ_of_ne_zero (by omega)
      obtain rfl : j = t * 2 ^ 52 + i := by omega
      rw [valueAt_eq (by omega) (by omega)]
      refine h.above.imp (fun habove => ?_) fun ⟨habove, heven⟩ => ⟨?_, heven⟩
      · have hless : (i : ℚ) + (i + 1 : Nat) < 2 * x := by
          push_cast at habove ⊢
          linarith
        linarith [mul_lt_mul_of_pos_right hless hstep]
      · rw [← habove]
        push_cast
        ring
    · -- a power of two is not above the number, so the place below is farther away, whatever its step
      have hle : (r : ℚ) ≤ x := by
        have hr' : r = 2 ^ 52 := by omega
        rw [hr']
        exact_mod_cast hge.resolve_left (by omega)
      have hless := valueAt_strictMono (show j < t * 2 ^ 52 + r by omega)
      rw [hvalue] at hless
      exact .inl (by linarith [mul_le_mul_of_nonneg_right hle hstep.le])
  case below =>
    rw [hparity, hvalue]
    rcases hr.eq_or_lt with heq | hless
    · have hnext := valueAt_strictMono (Nat.lt_succ_self (t * 2 ^ 52 + r))
      have hle : x < r := by
        rw [heq]
        exact_mod_cast hlt
      rw [hvalue] at hnext
      exact .inl (by linarith [mul_lt_mul_of_pos_right hle hstep])
    · rw [Nat.add_assoc, valueAt_eq hless (by omega)]
      refine h.below.imp (fun hbelow => ?_) fun ⟨hbelow, heven⟩ => ⟨?_, heven⟩
      · have hle : 2 * x < r + (r + 1 : Nat) := by
          push_cast
          linarith
        linarith [mul_lt_mul_of_pos_right hle hstep]
      · rw [hbelow]
        push_cast
        ring

/-! ### Packing -/

theorem toNat_packComponents (e : BitVec 11) (m : BitVec 52) :
    (packComponents .binary64 .positive e m).toNat = e.toNat * 2 ^ 52 + m.toNat := by
  have hm : m.toNat < 2 ^ 52 := m.isLt
  have happend : (packComponents .binary64 .positive e m).toNat =
      (0#1 ++ e).toNat <<< 52 ||| m.toNat := BitVec.toNat_append _ _
  rw [happend, ← Nat.shiftLeft_add_eq_or_of_lt hm, Nat.shiftLeft_eq, BitVec.toNat_append]
  simp

theorem toNat_pack {m : Nat} {e : Int} (hm : 0 < m) (hfits : m < 2 ^ 53) (hleast : -1074 ≤ e)
    (hnormal : e = -1074 ∨ 2 ^ 52 ≤ m) :
    (UnpackedFloat.pack .binary64 (.finite .positive m e hm)).toNat =
      min ((e + 1074).toNat * 2 ^ 52 + m) (2047 * 2 ^ 52) := by
  have hbiased : (e + (1023 : Nat) + (52 : Nat)).toNat = (e + 1074).toNat + 1 := by omega
  have htopbit : m.log2 + 1 = 53 ↔ 2 ^ 52 ≤ m := by
    rw [← Nat.le_log2 hm.ne']
    have hlog := (Nat.log2_lt hm.ne').2 hfits
    omega
  have hpack : UnpackedFloat.pack .binary64 (.finite .positive m e hm) =
      if 2 ^ 11 ≤ (e + (1023 : Nat) + (52 : Nat)).toNat + 1 then packedInfinity .binary64 .positive
      else packComponents .binary64 .positive
        (if m.log2 + 1 = 53 then .ofNat 11 (e + (1023 : Nat) + (52 : Nat)).toNat else 0#11) (.ofNat 52 m) := by
    rw [UnpackedFloat.pack]
    refine ite_congr rfl (fun _ => rfl) fun _ => ?_
    exact (apply_ite (packComponents .binary64 .positive · (.ofNat 52 m)) _ _ _).symm
  rw [hpack, hbiased]
  split
  · rename_i hover
    have htop : (packedInfinity .binary64 .positive).toNat = 2047 * 2 ^ 52 := by decide
    rw [htop]
    omega
  · rename_i hbelow
    rw [toNat_packComponents, BitVec.toNat_ofNat, apply_ite BitVec.toNat, BitVec.toNat_ofNat, BitVec.toNat_zero]
    simp only [htopbit]
    split <;> omega

/-- The exponent that a mantissa of 53 bits would have, or the least one. -/
def target (m : Nat) (e : Int) : Int :=
  max (m.log2 + e - 52) (-1074)

/-- A mantissa that has all its bits is not short. -/
theorem le_target {m : Nat} (e : Int) (hm : 2 ^ 52 ≤ m) : e ≤ target m e := by
  have hlog := (Nat.le_log2 (Nat.ne_of_gt (Nat.lt_of_lt_of_le (by decide) hm))).2 hm
  unfold target
  omega

private theorem targetExponent_eq (m : Nat) (e : Int) :
    Float.Model.Format.binary64.targetExponent (totalExponent m e) = target m e := by
  simp only [Float.Model.Format.targetExponent, totalExponent, mantissaBits, minExponent, target]
  norm_num
  omega

private theorem shiftToTargetExponent_eq (m : Nat) (e : Int) (a : Accuracy) :
    shiftToTargetExponent .binary64 m e a =
      (ExtendedMantissa.ofMantissaAndAccuracy m a >>> (target m e - e).toNat, e + (target m e - e).toNat) := by
  rw [shiftToTargetExponent, targetExponent_eq]
  rfl

/-- A rounded mantissa stays as it is, unless it has one bit too many. -/
private theorem shiftToTargetExponent_rounded {t r : Nat} (hr : r ≤ 2 ^ 53) :
    shiftToTargetExponent .binary64 r (t - 1074) .exact =
      if r < 2 ^ 53 then (⟨r, false, false⟩, (t : ℤ) - 1074) else (⟨2 ^ 52, false, false⟩, (t : ℤ) - 1073) := by
  rw [shiftToTargetExponent_eq, target]
  split
  · rename_i hlt
    have hlog : r.log2 ≤ 52 := by
      rcases Nat.eq_zero_or_pos r with rfl | hpos
      · decide
      · exact Nat.le_of_lt_succ ((Nat.log2_lt hpos.ne').2 hlt)
    have hnone : (max ((r.log2 : ℤ) + (t - 1074) - 52) (-1074) - (t - 1074)).toNat = 0 := by omega
    rw [hnone, Nat.cast_zero, add_zero]
    rfl
  · obtain rfl : r = 2 ^ 53 := by omega
    have hone : (max (((2 ^ 53 : Nat).log2 : ℤ) + (t - 1074) - 52) (-1074) - (t - 1074)).toNat = 1 := by
      rw [Nat.log2_two_pow]
      omega
    rw [hone]
    refine Prod.ext rfl ?_
    dsimp only
    ring

/-- A rounded mantissa is packed into the bits of its place. -/
theorem toNat_pack_roundWithAccuracy {m t r : Nat} {e : Int} {a : Accuracy} (ht : target m e = t - 1074)
    (he : e ≤ target m e)
    (hround : (ExtendedMantissa.ofMantissaAndAccuracy m a >>> (target m e - e).toNat).roundedMantissa = r)
    (hr : r ≤ 2 ^ 53) (hnormal : t = 0 ∨ 2 ^ 52 ≤ r) :
    (UnpackedFloat.pack .binary64 (roundWithAccuracy .binary64 .positive m e a)).toNat =
      min (t * 2 ^ 52 + r) (2047 * 2 ^ 52) := by
  have hexponent : e + (target m e - e).toNat = t - 1074 := by omega
  rw [roundWithAccuracy, shiftToTargetExponent_eq m e a]
  dsimp only
  rw [hexponent, hround, shiftToTargetExponent_rounded hr]
  rcases hr.eq_or_lt with rfl | hlt
  · rw [if_neg (lt_irrefl _)]
    refine (toNat_pack (by decide) (by decide) (by omega) (.inr le_rfl)).trans ?_
    omega
  · rw [if_pos hlt]
    dsimp only
    split
    · rename_i hzero
      have htzero : t = 0 := by omega
      rw [hzero, htzero]
      decide
    · rename_i hpos
      rw [toNat_pack (Nat.pos_of_ne_zero hpos) hlt (by omega) (by omega)]
      omega

/-- What a mantissa and its accuracy stand for is rounded to the nearest place. -/
theorem rounds_roundWithAccuracy {m : Nat} {e : Int} {a : Accuracy} (h : Locates x m a) (he : e ≤ target m e) :
    ∃ k, Rounds (x * 2 ^ e) k ∧
      (UnpackedFloat.pack .binary64 (roundWithAccuracy .binary64 .positive m e a)).toNat =
        min k (2047 * 2 ^ 52) := by
  obtain ⟨hfloor, hceil⟩ := h.floor
  obtain ⟨t, ht⟩ : ∃ t : Nat, target m e = t - 1074 := ⟨(target m e + 1074).toNat, by unfold target; omega⟩
  obtain ⟨n, hn⟩ : ∃ n : Nat, target m e = e + n := Int.exists_add_of_le he
  have hshift : (target m e - e).toNat = n := by omega
  have hstart : Locates x (ExtendedMantissa.ofMantissaAndAccuracy m a).mantissa
      (ExtendedMantissa.ofMantissaAndAccuracy m a).accuracy := by
    cases a with
    | exact => exact h
    | inexact o => cases o <;> exact h
  have hshifted := (hstart.shiftRight n).nearest
  have hlt : x / 2 ^ n < 2 ^ 53 := by
    have hbits : m + 1 ≤ 2 ^ (53 + n) :=
      Nat.lt_log2_self.trans_le (Nat.pow_le_pow_right two_pos (by unfold target at hn; omega))
    have hcast : (m : ℚ) + 1 ≤ 2 ^ 53 * 2 ^ n := by
      rw [← pow_add]
      exact_mod_cast hbits
    exact (div_lt_iff₀ (by positivity)).2 (hceil.trans_le hcast)
  have hge : t = 0 ∨ 2 ^ 52 ≤ x / 2 ^ n := by
    refine or_iff_not_imp_left.2 fun hpos => ?_
    -- above the least exponent, the mantissa has its topmost bit
    have hlog : m.log2 = 52 + n := by
      unfold target at hn ht
      omega
    have hm : m ≠ 0 := by
      rintro rfl
      rw [Nat.log2_zero] at hlog
      omega
    have hbits : 2 ^ (52 + n) ≤ m := hlog ▸ Nat.log2_self_le hm
    have hcast : (2 : ℚ) ^ 52 * 2 ^ n ≤ m := by
      rw [← pow_add]
      exact_mod_cast hbits
    exact (le_div_iff₀ (by positivity)).2 (hcast.trans hfloor)
  obtain ⟨hr, hnormal, hrounds⟩ := hshifted.rounds hlt hge
  refine ⟨_, ?_, toNat_pack_roundWithAccuracy ht he (by rw [hshift]) hr hnormal⟩
  have hvalue : x / 2 ^ n * 2 ^ ((t : ℤ) - 1074) = x * 2 ^ e := by
    rw [← ht, hn, zpow_add₀ two_ne_zero, zpow_natCast]
    field_simp
  rwa [hvalue] at hrounds

theorem shiftLeft_mul_zpow (m n : Nat) (e : Int) : ((m <<< n : Nat) : ℚ) * 2 ^ (e - n) = m * 2 ^ e := by
  rw [Nat.shiftLeft_eq, zpow_sub₀ two_ne_zero, zpow_natCast]
  push_cast
  field_simp

/-- A mantissa that is too short is filled up before. -/
theorem rounds_round {m : Nat} (e : Int) (hm : 0 < m) :
    ∃ k, Rounds (m * 2 ^ e) k ∧
      (UnpackedFloat.pack .binary64 (UnpackedFloat.round .binary64 .positive m e)).toNat = min k (2047 * 2 ^ 52) := by
  generalize hn : (e - target m e).toNat = n
  have hround : UnpackedFloat.round .binary64 .positive m e =
      roundWithAccuracy .binary64 .positive (m <<< n) (e - n) .exact := by
    rw [UnpackedFloat.round, targetExponent_eq, ← hn]
    rfl
  have hlog : (m <<< n).log2 = m.log2 + n := by
    have hpos : 0 < 2 ^ n := Nat.two_pow_pos n
    rw [Nat.shiftLeft_eq, Nat.log2_eq_iff (Nat.mul_pos hm hpos).ne', pow_add, Nat.add_right_comm, pow_add _ _ n]
    exact ⟨Nat.mul_le_mul_right _ (Nat.log2_self_le hm.ne'), Nat.mul_lt_mul_of_pos_right Nat.lt_log2_self hpos⟩
  have hle : e - n ≤ target (m <<< n) (e - n) := by
    rw [target, hlog]
    unfold target at hn
    omega
  obtain ⟨k, hk, hbits⟩ := rounds_roundWithAccuracy (a := .exact) rfl hle
  rw [shiftLeft_mul_zpow] at hk
  exact ⟨k, hk, by rw [hround, hbits]⟩

theorem normalize_eq_round {m : Nat} (e : Int) (hm : 0 < m) :
    normalize .binary64 m e .positive = UnpackedFloat.round .binary64 .positive m e := by
  rw [UnpackedFloat.normalize, Int.compare_eq_gt.2 (Int.natCast_pos.2 hm)]
  rfl

/-- The remainder of a division says where the quotient lies. -/
theorem locates_accuracyOfFraction (n : Nat) {d : Nat} (hd : 0 < d) :
    Locates (n / d) (n / d) (accuracyOfFraction (n % d) d) := by
  have hpos : (0 : ℚ) < d := Nat.cast_pos.2 hd
  have hquotient : (n : ℚ) = d * (n / d : Nat) + (n % d : Nat) := by exact_mod_cast (Nat.div_add_mod n d).symm
  have hdiv : (n : ℚ) / d = (n / d : Nat) + (n % d : Nat) / d := by
    rw [hquotient]
    field_simp
  have hless := Nat.mod_lt n hd
  rw [hdiv]
  generalize n / d = m
  generalize n % d = r at hless
  rw [accuracyOfFraction]
  split
  · rename_i hzero
    rw [hzero, Nat.cast_zero, zero_div, add_zero]
    exact rfl
  · rename_i hne
    have hsome : (0 : ℚ) < r / d := div_pos (by exact_mod_cast Nat.pos_of_ne_zero hne) hpos
    have hone : (r : ℚ) / d < 1 := (div_lt_one hpos).2 (by exact_mod_cast hless)
    rcases Nat.lt_trichotomy (2 * r) d with h | h | h
    · have hhalf : (r : ℚ) / d < 1 / 2 := by
        rw [div_lt_div_iff₀ hpos two_pos]
        exact_mod_cast (by omega : r * 2 < 1 * d)
      rw [Nat.compare_eq_lt.2 h]
      exact ⟨by linarith, by linarith⟩
    · have hhalf : (r : ℚ) / d = 1 / 2 := by
        rw [div_eq_div_iff hpos.ne' two_ne_zero]
        exact_mod_cast (by omega : r * 2 = 1 * d)
      rw [Nat.compare_eq_eq.2 h, hhalf]
      exact rfl
    · have hhalf : 1 / 2 < (r : ℚ) / d := by
        rw [div_lt_div_iff₀ two_pos hpos]
        exact_mod_cast (by omega : 1 * d < r * 2)
      rw [Nat.compare_eq_gt.2 h]
      exact ⟨by linarith, by linarith⟩

end EchoEngine.Decimal
