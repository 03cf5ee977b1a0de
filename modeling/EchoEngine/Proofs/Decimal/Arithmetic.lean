import EchoEngine.Proofs.Decimal.Rounding

/-!
# Arithmetic of nonnegative doubles

A nonnegative double stands at a place (`Stands`).  Sums, products and quotients are what the exact results round to,
which is infinity past the last double (`RoundsTo`).
-/

namespace EchoEngine.Decimal

open Float.Model (UnpackedFloat)
open Float.Model.UnpackedFloat Float.Model.Format

/-! ### Where doubles stand -/

/-- The place of infinity. -/
def top : Nat := 2047 * 2 ^ 52

/-- A double is a number at a place from zero on.  Both zeros stand at zero. -/
structure Stands (x : Float) (k : Nat) : Prop where
  isNaN_eq : x.isNaN = false
  height_eq : height x = k

theorem stands_of_toNat_toBits {x : Float} {k : Nat} (h : x.toBits.toNat = k) (hk : k ≤ top) : Stands x k := by
  have hnumber : x.isNaN = false := isNaN_unpack_of_le (h.trans_le hk)
  have hpositive : ¬2 ^ 63 ≤ k := by
    unfold top at hk
    omega
  have hrank : rank x = k := by
    simp only [rank, hnumber, Bool.false_eq_true, if_false, Nat.pow_eq, h, if_neg hpositive]
  refine ⟨hnumber, ?_⟩
  rw [height, hrank, if_neg (by omega)]

/-- Taken apart, a zero has either sign and other numbers are positive. -/
inductive Apart : UnpackedFloat → Nat → Prop
  | zero (s : Sign) : Apart (.zero s) 0
  | finite {m : Nat} {e : Int} {k : Nat} (hm : 0 < m) (h : IsPlace m e k) : Apart (.finite .positive m e hm) k
  | infinity : Apart (.infinity .positive) top

section

variable {x y : Float} {k l : Nat}

theorem Stands.apart (h : Stands x k) : Apart x.toModel.unpack k := by
  obtain ⟨s, l, hplaced, hheight⟩ := exists_height h.isNaN_eq
  rw [h.height_eq] at hheight
  generalize x.toModel.unpack = u at hplaced
  cases s with
  | positive =>
    obtain rfl : k = l := Int.ofNat_inj.1 hheight
    cases hplaced with
    | zero => exact .zero _
    | finite _ hm h => exact .finite hm h
    | infinity => exact .infinity
  | negative =>
    -- counted downwards, only zero is at a place from zero on
    have hneg : (k : ℤ) = -l := hheight
    cases hplaced with
    | zero =>
      obtain rfl : k = 0 := by omega
      exact .zero _
    | finite _ hm h => exact absurd (h.pos hm) (by omega)
    | infinity => exact absurd hneg (by omega)

theorem Stands.unique (h : Stands x k) (h' : Stands x l) : k = l :=
  Int.ofNat_inj.1 (h.height_eq.symm.trans h'.height_eq)

theorem Stands.le_iff (hx : Stands x k) (hy : Stands y l) : x ≤ y ↔ k ≤ l := by
  rw [le_iff_height_le hx.isNaN_eq hy.isNaN_eq, hx.height_eq, hy.height_eq, Int.ofNat_le]

theorem Stands.lt_iff (hx : Stands x k) (hy : Stands y l) : x < y ↔ k < l := by
  rw [lt_iff_height_lt hx.isNaN_eq hy.isNaN_eq, hx.height_eq, hy.height_eq, Int.ofNat_lt]

theorem Stands.le_top (h : Stands x k) : k ≤ top := by
  have happart := h.apart
  generalize x.toModel.unpack = u at happart
  cases happart with
  | zero => exact Nat.zero_le _
  | finite _ h => exact h.lt_top.le
  | infinity => exact le_rfl

theorem Stands.isFinite_iff (h : Stands x k) : x.isFinite = true ↔ k < top := by
  have happart := h.apart
  change x.toModel.unpack.isFinite = true ↔ _
  generalize x.toModel.unpack = u at happart
  cases happart with
  | zero => exact iff_of_true rfl (by decide)
  | finite _ h => exact iff_of_true rfl h.lt_top
  | infinity => exact iff_of_false nofun (lt_irrefl _)

/-- Only numbers compare. -/
theorem isNaN_eq_false_of_le (h : x ≤ y) : x.isNaN = false ∧ y.isNaN = false := by
  change decide (x.toModel.unpack.le y.toModel.unpack) = true at h
  change x.toModel.unpack.isNaN = false ∧ y.toModel.unpack.isNaN = false
  generalize x.toModel.unpack = u at h
  generalize y.toModel.unpack = v at h
  cases u with
  | notANumber => cases h
  | _ =>
    cases v with
    | notANumber => cases h
    | _ => exact ⟨rfl, rfl⟩

theorem exists_stands_of_height (hx : x.isNaN = false) (h : 0 ≤ height x) : ∃ k, Stands x k :=
  ⟨(height x).toNat, hx, by omega⟩

theorem exists_stands (h : 0.0 ≤ x) : ∃ k, Stands x k := by
  obtain ⟨hzero, hx⟩ := isNaN_eq_false_of_le h
  have hheight : height 0.0 ≤ height x := (le_iff_height_le hzero hx).1 h
  have hnone : height 0.0 = 0 := by decide
  exact exists_stands_of_height hx (by omega)

theorem exists_stands_of_isFinite (hfinite : x.isFinite = true) (h : ¬x < 0) : ∃ k < top, Stands x k := by
  have hx : x.isNaN = false := by
    change x.toModel.unpack.isFinite = true at hfinite
    change x.toModel.unpack.isNaN = false
    generalize x.toModel.unpack = u at hfinite
    cases u with
    | notANumber => cases hfinite
    | _ => rfl
  have hnone : height 0 = 0 := by decide
  rw [lt_iff_height_lt hx rfl, hnone] at h
  obtain ⟨k, hk⟩ := exists_stands_of_height hx (by omega)
  exact ⟨k, hk.isFinite_iff.1 hfinite, hk⟩

end

/-! ### What numbers round to -/

/-- A double is the one that a nonnegative number rounds to. -/
def RoundsTo (x : Float) (q : ℚ) : Prop :=
  ∃ k, Rounds q k ∧ Stands x (min k top)

namespace RoundsTo

variable {x y : Float} {q q' : ℚ} {j k l : Nat}

theorem le_of_le (h : RoundsTo x q) (h' : RoundsTo y q') (hq : q ≤ q') (hx : Stands x k) (hy : Stands y l) :
    k ≤ l := by
  obtain ⟨i, hi, hx'⟩ := h
  obtain ⟨i', hi', hy'⟩ := h'
  have hle := hi.le_of_le hi' hq
  rw [hx.unique hx', hy.unique hy']
  omega

/-- What is not past some double rounds to one that is not either. -/
theorem of_le (h : RoundsTo x q) (hq : q ≤ valueAt j) (hj : j < top) : ∃ k ≤ j, Rounds q k ∧ Stands x k := by
  obtain ⟨k, hk, hx⟩ := h
  have hle := hk.le_of_le_valueAt hq
  rw [Nat.min_eq_left (hle.trans hj.le)] at hx
  exact ⟨k, hle, hk, hx⟩

end RoundsTo

theorem roundsTo_zero (s : Sign) : RoundsTo (.ofModel (.pack (.zero s))) 0 := by
  refine ⟨0, ?_, ?_⟩
  · rw [← valueAt_zero]
    exact rounds_valueAt 0
  · cases s
    · exact ⟨by decide, by decide⟩
    · exact ⟨by decide, by decide⟩

theorem roundsTo_pack {u : UnpackedFloat} {q : ℚ}
    (h : ∃ k, Rounds q k ∧ (UnpackedFloat.pack .binary64 u).toNat = min k (2047 * 2 ^ 52)) :
    RoundsTo (.ofModel (.pack u)) q := by
  obtain ⟨k, hk, hbits⟩ := h
  exact ⟨k, hk, stands_of_toNat_toBits hbits (Nat.min_le_right k top)⟩

/-- What is put together again is what was taken apart. -/
theorem roundsTo_valueAt {u : UnpackedFloat} {k : Nat} (h : Apart u k) (hk : k < top) :
    RoundsTo (.ofModel (.pack u)) (valueAt k) := by
  cases h with
  | zero s =>
    rw [valueAt_zero]
    exact roundsTo_zero s
  | finite hm h =>
    refine roundsTo_pack ⟨_, rounds_valueAt k, ?_⟩
    have hplace := h.eq
    have hleast := h.least_le
    rw [toNat_pack hm h.fits hleast h.normal]
    omega
  | infinity => exact absurd hk (lt_irrefl _)

/-- A dividend that has 53 bits more than the divisor leaves a quotient of 53 bits or more. -/
theorem two_pow_le_shiftLeft_div {m m' n : Nat} (hm : 0 < m) (hm' : 0 < m') (h : m'.log2 + 53 ≤ m.log2 + n) :
    2 ^ 52 ≤ m <<< n / m' := by
  rw [Nat.le_div_iff_mul_le hm', Nat.shiftLeft_eq]
  calc 2 ^ 52 * m' ≤ 2 ^ 52 * 2 ^ (m'.log2 + 1) := Nat.mul_le_mul_left _ Nat.lt_log2_self.le
    _ = 2 ^ (m'.log2 + 53) := by rw [← pow_add]; congr 1; omega
    _ ≤ 2 ^ (m.log2 + n) := Nat.pow_le_pow_right two_pos h
    _ = 2 ^ m.log2 * 2 ^ n := pow_add _ _ _
    _ ≤ m * 2 ^ n := Nat.mul_le_mul_right _ (Nat.log2_self_le hm.ne')

/-- A quotient has bits enough to be rounded, whatever the mantissas are. -/
theorem rounds_div {m m' : Nat} (e e' : Int) (hm : 0 < m) (hm' : 0 < m') :
    ∃ k, Rounds (m * 2 ^ e / (m' * 2 ^ e')) k ∧
      (UnpackedFloat.pack .binary64
        (UnpackedFloat.div .binary64 (.finite .positive m e hm) (.finite .positive m' e' hm'))).toNat =
        min k (2047 * 2 ^ 52) := by
  generalize ht : min (e - e') (max ((m.log2 + 1 + e) - (m'.log2 + 1 + e') - 53) (-1074)) = t
  generalize hn : (e - e' - t).toNat = n
  have hdiv : UnpackedFloat.div .binary64 (.finite .positive m e hm) (.finite .positive m' e' hm') =
      roundWithAccuracy .binary64 .positive (m <<< n / m') t (accuracyOfFraction (m <<< n % m') m') := by
    rw [← hn, ← ht]
    rfl
  have hle : t ≤ target (m <<< n / m') t := by
    rcases le_or_gt t (-1074) with hleast | hnormal
    · exact hleast.trans (le_max_right _ _)
    · -- the dividend has been shifted until the quotient has enough bits
      exact le_target _ (two_pow_le_shiftLeft_div hm hm' (by omega))
  have hround := rounds_roundWithAccuracy (locates_accuracyOfFraction (m <<< n) hm') hle
  have hvalue : ((m <<< n : Nat) : ℚ) / m' * 2 ^ t = m * 2 ^ e / (m' * 2 ^ e') := by
    have hexponent : t = e - n - e' := by omega
    rw [hexponent, zpow_sub₀ two_ne_zero _ e', ← mul_div_assoc, div_mul_eq_mul_div, shiftLeft_mul_zpow, div_div]
  rw [hvalue] at hround
  rwa [hdiv]

section

variable {x y : Float} {k l : Nat} (hx : Stands x k) (hy : Stands y l) (hk : k < top) (hl : l < top)

include hx hy hk hl

theorem roundsTo_mul : RoundsTo (x * y) (valueAt k * valueAt l) := by
  have hmul : x * y = .ofModel (.pack (UnpackedFloat.mul .binary64 x.toModel.unpack y.toModel.unpack)) := rfl
  have hx := hx.apart
  have hy := hy.apart
  rw [hmul]
  generalize x.toModel.unpack = u at hx
  generalize y.toModel.unpack = v at hy
  cases hx with
  | infinity => exact absurd hk (lt_irrefl _)
  | zero s =>
    rw [valueAt_zero, zero_mul]
    cases hy with
    | infinity => exact absurd hl (lt_irrefl _)
    | zero | finite => exact roundsTo_zero _
  | @finite m e _ hm h =>
    cases hy with
    | infinity => exact absurd hl (lt_irrefl _)
    | zero =>
      rw [valueAt_zero, mul_zero]
      exact roundsTo_zero _
    | @finite m' e' _ hm' h' =>
      have hle : e + e' ≤ target (m * m') (e + e') := by
        -- a product of mantissas is too short only if both exponents are the least one
        by_cases hboth : e = -1074 ∧ e' = -1074
        · obtain ⟨rfl, rfl⟩ := hboth
          exact (by decide : (-1074 : ℤ) + -1074 ≤ -1074).trans (le_max_right _ _)
        · refine le_target _ ?_
          rcases not_and_or.1 hboth with hne | hne
          · exact (h.normal.resolve_left hne).trans (Nat.le_mul_of_pos_right m hm')
          · exact (h'.normal.resolve_left hne).trans (Nat.le_mul_of_pos_left m' hm)
      have hround := rounds_roundWithAccuracy (a := .exact) rfl hle
      have hvalue : ((m * m' : Nat) : ℚ) * 2 ^ (e + e') = valueAt k * valueAt l := by
        rw [h.valueAt_eq, h'.valueAt_eq, zpow_add₀ two_ne_zero]
        push_cast
        ring
      rw [hvalue] at hround
      exact roundsTo_pack hround

theorem roundsTo_add : RoundsTo (x + y) (valueAt k + valueAt l) := by
  have hadd : x + y = .ofModel (.pack (UnpackedFloat.add .binary64 x.toModel.unpack y.toModel.unpack)) := rfl
  have hx := hx.apart
  have hy := hy.apart
  rw [hadd]
  generalize x.toModel.unpack = u at hx
  generalize y.toModel.unpack = v at hy
  cases hx with
  | infinity => exact absurd hk (lt_irrefl _)
  | zero s =>
    rw [valueAt_zero, zero_add]
    cases hy with
    | infinity => exact absurd hl (lt_irrefl _)
    | zero s' =>
      rw [valueAt_zero]
      cases s <;> cases s' <;> exact roundsTo_zero _
    | finite hm h => exact roundsTo_valueAt (.finite hm h) hl
  | @finite m e _ hm h =>
    cases hy with
    | infinity => exact absurd hl (lt_irrefl _)
    | zero =>
      rw [valueAt_zero, add_zero]
      exact roundsTo_valueAt (.finite hm h) hk
    | @finite m' e' _ hm' h' =>
      generalize hn : (e - min e e').toNat = n
      generalize hn' : (e' - min e e').toNat = n'
      have hsum : 0 < m <<< n + m' <<< n' := by
        rw [Nat.shiftLeft_eq]
        exact Nat.add_pos_left (Nat.mul_pos hm (Nat.two_pow_pos n)) _
      have hadd : UnpackedFloat.add .binary64 (.finite .positive m e hm) (.finite .positive m' e' hm') =
          UnpackedFloat.round .binary64 .positive (m <<< n + m' <<< n') (min e e') := by
        rw [← normalize_eq_round _ hsum, ← hn, ← hn']
        rfl
      have hvalue : ((m <<< n + m' <<< n' : Nat) : ℚ) * 2 ^ min e e' = valueAt k + valueAt l := by
        have he : min e e' = e - n := by omega
        have he' : min e e' = e' - n' := by omega
        have hleft := shiftLeft_mul_zpow m n e
        have hright := shiftLeft_mul_zpow m' n' e'
        rw [← he] at hleft
        rw [← he'] at hright
        rw [Nat.cast_add, add_mul, hleft, hright, h.valueAt_eq, h'.valueAt_eq]
      have hround := rounds_round (min e e') hsum
      rw [hvalue] at hround
      rw [hadd]
      exact roundsTo_pack hround

theorem roundsTo_div (hpos : 0 < l) : RoundsTo (x / y) (valueAt k / valueAt l) := by
  have hdiv : x / y = .ofModel (.pack (UnpackedFloat.div .binary64 x.toModel.unpack y.toModel.unpack)) := rfl
  have hx := hx.apart
  have hy := hy.apart
  rw [hdiv]
  generalize x.toModel.unpack = u at hx
  generalize y.toModel.unpack = v at hy
  cases hy with
  | infinity => exact absurd hl (lt_irrefl _)
  | zero => exact absurd hpos (lt_irrefl _)
  | @finite m' e' _ hm' h' =>
    cases hx with
    | infinity => exact absurd hk (lt_irrefl _)
    | zero s =>
      rw [valueAt_zero, zero_div]
      exact roundsTo_zero _
    | @finite m e _ hm h =>
      rw [h.valueAt_eq, h'.valueAt_eq]
      exact roundsTo_pack (rounds_div e e' hm hm')

end

/-! ### Natural numbers -/

theorem valueAt_two_pow (n : Nat) : valueAt ((n + 1023) * 2 ^ 52) = 2 ^ n := by
  have hplace : (n + 1023) * 2 ^ 52 = (n + 1022) * 2 ^ 52 + 2 ^ 52 := by ring
  have hexponent : ((n + 1022 : Nat) : ℤ) - 1074 = n - 52 := by push_cast; ring
  rw [hplace, valueAt_eq (by decide) (.inr le_rfl), hexponent, zpow_sub₀ two_ne_zero, zpow_natCast]
  push_cast
  exact mul_div_cancel₀ _ (by positivity)

/-- The place of one. -/
def one : Nat := 1023 * 2 ^ 52

theorem valueAt_one : valueAt one = 1 :=
  valueAt_two_pow 0

theorem stands_one : Stands 1.0 one :=
  stands_of_toNat_toBits (by decide) (by decide)

theorem roundsTo_toUInt64 {n : Nat} (hpos : 0 < n) (hword : n < 2 ^ 64) : RoundsTo n.toUInt64.toFloat n := by
  have hfloat : n.toUInt64.toFloat = .ofModel (.pack (UnpackedFloat.normalize .binary64 n 0 .positive)) :=
    congrArg (fun i : Nat => Float.ofModel (.pack (UnpackedFloat.normalize .binary64 i 0 .positive)))
      (Nat.mod_eq_of_lt hword)
  have hround := rounds_round 0 hpos
  rw [zpow_zero, mul_one] at hround
  rw [hfloat, normalize_eq_round 0 hpos]
  exact roundsTo_pack hround

/-! ### Bounds

Infinity may be among the operands here. -/

theorem stands_infinity : Stands (.ofModel (.pack (.infinity .positive))) top :=
  stands_of_toNat_toBits (by decide) le_rfl

section

variable {x y x' y' : Float} {j j' k k' l l' : Nat} (hx : Stands x k) (hy : Stands y l)

include hx

theorem Stands.unpack_of_top (h : k = top) : x.toModel.unpack = .infinity .positive := by
  have hx := hx.apart
  generalize x.toModel.unpack = u at hx ⊢
  cases hx with
  | infinity => rfl
  | zero => exact absurd h (by decide)
  | finite _ hplace => exact absurd h hplace.lt_top.ne

include hy

theorem isNaN_div_of_top (hk : k = top) (hl : l = top) : (x / y).isNaN = true := by
  have hdiv : x / y = .ofModel (.pack (UnpackedFloat.div .binary64 x.toModel.unpack y.toModel.unpack)) := rfl
  rw [hdiv, hx.unpack_of_top hk, hy.unpack_of_top hl]
  decide

/-- A sum is at least as great as what is added. -/
theorem exists_stands_add : ∃ j, Stands (x + y) j ∧ k ≤ j ∧ l ≤ j := by
  have hktop := hx.le_top
  have hltop := hy.le_top
  by_cases hfinite : k < top ∧ l < top
  · obtain ⟨j, hj, hsum⟩ := roundsTo_add hx hy hfinite.1 hfinite.2
    have hk := hj.le_of_valueAt_le (le_add_of_nonneg_right (valueAt_nonneg l))
    have hl := hj.le_of_valueAt_le (le_add_of_nonneg_left (valueAt_nonneg k))
    exact ⟨min j top, hsum, by omega, by omega⟩
  · refine ⟨top, ?_, hktop, hltop⟩
    have hadd : x + y = .ofModel (.pack (UnpackedFloat.add .binary64 x.toModel.unpack y.toModel.unpack)) := rfl
    rw [hadd]
    by_cases hk : k = top
    · rw [hx.unpack_of_top hk]
      have hy := hy.apart
      generalize y.toModel.unpack = v at hy
      cases hy <;> exact stands_infinity
    · rw [hy.unpack_of_top (by omega)]
      have hx := hx.apart
      generalize x.toModel.unpack = u at hx
      cases hx <;> exact stands_infinity

/-- What is divided by at least one is not greater afterwards. -/
theorem exists_stands_div (hl : one ≤ l) (hfinite : k < top ∨ l < top) : ∃ j ≤ k, Stands (x / y) j := by
  have hktop := hx.le_top
  have hltop := hy.le_top
  have hdiv : x / y = .ofModel (.pack (UnpackedFloat.div .binary64 x.toModel.unpack y.toModel.unpack)) := rfl
  by_cases hk : k < top
  · by_cases hlfinite : l < top
    · have hpos : 0 < l := lt_of_lt_of_le (by decide) hl
      have hle : valueAt k / valueAt l ≤ valueAt k := by
        refine div_le_self (valueAt_nonneg k) ?_
        rw [← valueAt_one]
        exact valueAt_strictMono.monotone hl
      obtain ⟨j, hj, -, hquotient⟩ := (roundsTo_div hx hy hk hlfinite hpos).of_le hle hk
      exact ⟨j, hj, hquotient⟩
    · rw [hdiv, hy.unpack_of_top (by omega)]
      have hzero : ∀ s, ∃ j ≤ k, Stands (.ofModel (.pack (.zero s))) j := by
        intro s
        obtain ⟨j, hj, -, hnone⟩ := (roundsTo_zero s).of_le (valueAt_nonneg k) hk
        exact ⟨j, hj, hnone⟩
      have hx := hx.apart
      generalize x.toModel.unpack = u at hx
      cases hx with
      | zero | finite => exact hzero _
      | infinity => exact absurd hk (lt_irrefl _)
  · refine ⟨top, by omega, ?_⟩
    rw [hdiv, hx.unpack_of_top (by omega)]
    have hy := hy.apart
    generalize y.toModel.unpack = v at hy
    cases hy with
    | zero => exact absurd hl (by decide)
    | finite => exact stands_infinity
    | infinity => omega

/-- What is multiplied by at most one is not greater afterwards. -/
theorem exists_stands_mul (hk : k < top) (hl : l ≤ one) : ∃ j ≤ k, Stands (x * y) j := by
  have hle : valueAt k * valueAt l ≤ valueAt k := by
    refine mul_le_of_le_one_right (valueAt_nonneg k) ?_
    rw [← valueAt_one]
    exact valueAt_strictMono.monotone hl
  obtain ⟨j, hj, -, hproduct⟩ := (roundsTo_mul hx hy hk (hl.trans_lt (by decide))).of_le hle hk
  exact ⟨j, hj, hproduct⟩

variable (hx' : Stands x' k') (hy' : Stands y' l') (hk : k ≤ k') (hl : l ≤ l')

include hx' hy' hk hl

theorem add_mono (hj : Stands (x + y) j) (hj' : Stands (x' + y') j') : j ≤ j' := by
  by_cases hfinite : k' < top ∧ l' < top
  · refine (roundsTo_add hx hy (by omega) (by omega)).le_of_le (roundsTo_add hx' hy' hfinite.1 hfinite.2) ?_ hj hj'
    exact add_le_add (valueAt_strictMono.monotone hk) (valueAt_strictMono.monotone hl)
  · -- an infinite operand makes the greater sum infinite
    obtain ⟨i, hi, hki, hli⟩ := exists_stands_add hx' hy'
    have hjtop := hj.le_top
    have hktop := hx'.le_top
    have hltop := hy'.le_top
    rw [hj'.unique hi]
    omega

theorem mul_mono (hk' : k' < top) (hl' : l' < top) (hj : Stands (x * y) j) (hj' : Stands (x' * y') j') :
    j ≤ j' := by
  refine (roundsTo_mul hx hy (by omega) (by omega)).le_of_le (roundsTo_mul hx' hy' hk' hl') ?_ hj hj'
  exact mul_le_mul (valueAt_strictMono.monotone hk) (valueAt_strictMono.monotone hl) (valueAt_nonneg l)
    (valueAt_nonneg k')

end

end EchoEngine.Decimal
