import EchoEngine.Scalar
import Mathlib

/-!
# Doubles in order

The total order of doubles goes by their bits, comparison goes by what the bits stand for.  But the bits of a
number, its sign aside, count how many doubles lie between zero and it (`placed_unpack`).  So numbers compare as
these counts do, negative ones downwards (`le_iff_height_le`), and as they are in the total order
(`le_of_totalOrder`).  The converse fails, as both zeros are equal, but a number that is less than another one also
comes before it (`rank_lt_of_lt`).
-/

namespace EchoEngine.Decimal

open Float.Model (UnpackedFloat)
open Float.Model.UnpackedFloat Float.Model.Format

/-! ### The place of a number -/

/-- A mantissa and an exponent are those of the double at some place above zero. -/
structure IsPlace (mantissa : Nat) (exponent : Int) (k : Nat) : Prop where
  fits : mantissa < 2 ^ 53
  least_le : -1074 ≤ exponent
  /-- Only at the least exponent may the topmost bit be missing. -/
  normal : exponent = -1074 ∨ 2 ^ 52 ≤ mantissa
  eq : (k : Int) = (exponent + 1074) * 2 ^ 52 + mantissa
  lt_top : k < 2047 * 2 ^ 52

/-- The sign of a number and its place, counted from zero. -/
inductive Placed : UnpackedFloat → Sign → Nat → Prop
  | zero (s : Sign) : Placed (.zero s) s 0
  | finite (s : Sign) {m : Nat} {e : Int} {k : Nat} (hm : 0 < m) (h : IsPlace m e k) :
    Placed (.finite s m e hm) s k
  | infinity (s : Sign) : Placed (.infinity s) s (2047 * 2 ^ 52)

theorem IsPlace.pos {m k : Nat} {e : Int} (h : IsPlace m e k) (hm : 0 < m) : 0 < k := by
  have hleast := h.least_le
  have heq := h.eq
  omega

/-- Exponents are compared first, since the mantissa of a greater one has all bits. -/
theorem IsPlace.compare_eq {m m' k k' : Nat} {e e' : Int} (h : IsPlace m e k) (h' : IsPlace m' e' k') :
    (compare e e').then (compare m m') = compare k k' := by
  obtain ⟨hfits, hleast, hnormal, heq, -⟩ := h
  obtain ⟨hfits', hleast', hnormal', heq', -⟩ := h'
  rcases Int.lt_trichotomy e e' with he | rfl | he
  · have hk : k < k' := by omega
    rw [Int.compare_eq_lt.2 he, Nat.compare_eq_lt.2 hk]
    rfl
  · rw [Int.compare_eq_eq.2 rfl, Ordering.then]
    rcases Nat.lt_trichotomy m m' with hm | rfl | hm
    · have hk : k < k' := by omega
      rw [Nat.compare_eq_lt.2 hm, Nat.compare_eq_lt.2 hk]
    · have hk : k = k' := by omega
      rw [Nat.compare_eq_eq.2 rfl, Nat.compare_eq_eq.2 hk]
    · have hk : k' < k := by omega
      rw [Nat.compare_eq_gt.2 hm, Nat.compare_eq_gt.2 hk]
  · have hk : k' < k := by omega
    rw [Int.compare_eq_gt.2 he, Nat.compare_eq_gt.2 hk]
    rfl

private theorem compare_of_lt {k l : Nat} (h : k < l) : compare k l = .lt ∧ compare l k = .gt :=
  ⟨Nat.compare_eq_lt.2 h, Nat.compare_eq_gt.2 h⟩

/-- Of two numbers with one sign, the places decide. -/
theorem Placed.compare_eq {u v : UnpackedFloat} {s : Sign} {k l : Nat} (hu : Placed u s k)
    (hv : Placed v s l) :
    u.compare v = some (match s with | .positive => compare k l | .negative => compare l k) := by
  cases hu with
  | zero =>
    cases hv with
    | zero => cases s <;> rfl
    | infinity => cases s <;> rfl
    | finite _ hm h =>
      obtain ⟨hlt, hgt⟩ := compare_of_lt (h.pos hm)
      cases s with
      | positive => exact congrArg some hlt.symm
      | negative => exact congrArg some hgt.symm
  | infinity =>
    cases hv with
    | zero => cases s <;> rfl
    | infinity => cases s <;> rfl
    | finite _ hm h =>
      obtain ⟨hlt, hgt⟩ := compare_of_lt h.lt_top
      cases s with
      | positive => exact congrArg some hgt.symm
      | negative => exact congrArg some hlt.symm
  | finite _ hm h =>
    cases hv with
    | zero =>
      obtain ⟨hlt, hgt⟩ := compare_of_lt (h.pos hm)
      cases s with
      | positive => exact congrArg some hgt.symm
      | negative => exact congrArg some hlt.symm
    | infinity =>
      obtain ⟨hlt, hgt⟩ := compare_of_lt h.lt_top
      cases s with
      | positive => exact congrArg some hlt.symm
      | negative => exact congrArg some hgt.symm
    | finite _ hm' h' =>
      cases s with
      | positive => exact congrArg some (h.compare_eq h')
      | negative => rw [UnpackedFloat.compare, h.compare_eq h', ← Std.OrientedOrd.eq_swap]

private theorem compare_eq_compare {k l : Nat} {a b : Int} (hlt : k < l ↔ a < b) (hgt : l < k ↔ b < a) :
    compare k l = compare a b := by
  rcases Nat.lt_trichotomy k l with h | h | h
  · rw [Nat.compare_eq_lt.2 h, Int.compare_eq_lt.2 (hlt.1 h)]
  · have hab : a = b := by omega
    rw [Nat.compare_eq_eq.2 h, Int.compare_eq_eq.2 hab]
  · rw [Nat.compare_eq_gt.2 h, Int.compare_eq_gt.2 (hgt.1 h)]

/-- What is negative is below what is positive, unless both are zero. -/
private theorem Placed.compare_eq_of_negative {u v : UnpackedFloat} {k l : Nat} (hu : Placed u .negative k)
    (hv : Placed v .positive l) :
    u.compare v = some (compare (-(k : Int)) l) ∧ v.compare u = some (compare (l : Int) (-k)) := by
  have hless : 0 < k ∨ 0 < l → compare (-(k : Int)) l = .lt ∧ compare (l : Int) (-k) = .gt := fun h =>
    ⟨Int.compare_eq_lt.2 (by omega), Int.compare_eq_gt.2 (by omega)⟩
  cases hu with
  | zero =>
    cases hv with
    | zero => exact ⟨rfl, rfl⟩
    | infinity => exact ⟨rfl, rfl⟩
    | finite _ hm h =>
      obtain ⟨hlt, hgt⟩ := hless (.inr (h.pos hm))
      rw [hlt, hgt]
      exact ⟨rfl, rfl⟩
  | infinity =>
    obtain ⟨hlt, hgt⟩ := hless (.inl (by decide))
    rw [hlt, hgt]
    cases hv <;> exact ⟨rfl, rfl⟩
  | finite _ hm h =>
    obtain ⟨hlt, hgt⟩ := hless (.inl (h.pos hm))
    rw [hlt, hgt]
    cases hv <;> exact ⟨rfl, rfl⟩

/-- Numbers compare as their places do, those of negative numbers counted down. -/
theorem Placed.compare_eq_apply {u v : UnpackedFloat} {s t : Sign} {k l : Nat} (hu : Placed u s k)
    (hv : Placed v t l) : u.compare v = some (compare (s.apply k) (t.apply l)) := by
  cases s with
  | positive =>
    cases t with
    | positive =>
      rw [hu.compare_eq hv]
      exact congrArg some (compare_eq_compare Int.ofNat_lt.symm Int.ofNat_lt.symm)
    | negative => exact (hv.compare_eq_of_negative hu).2
  | negative =>
    cases t with
    | positive => exact (hu.compare_eq_of_negative hv).1
    | negative =>
      rw [hu.compare_eq hv]
      exact congrArg some (compare_eq_compare (by simp [Sign.apply]) (by simp [Sign.apply]))

/-! ### The place in the bits -/

private theorem toNat_unpackMantissa (b : BitVec 64) :
    (@unpackMantissa .binary64 b).toNat = b.toNat % 2 ^ 52 := by
  simp [unpackMantissa]

private theorem toNat_unpackExponent (b : BitVec 64) :
    (@unpackExponent .binary64 b).toNat = b.toNat / 2 ^ 52 % 2 ^ 11 := by
  simp [unpackExponent, Nat.shiftRight_eq_div_pow]

theorem ofBitVec_unpackSign (b : BitVec 64) :
    Sign.ofBitVec (@unpackSign .binary64 b) = if b.toNat < 2 ^ 63 then .positive else .negative := by
  have hb : b.toNat < 2 ^ 64 := b.isLt
  have htop : (@unpackSign .binary64 b).toNat = b.toNat >>> 63 % 2 ^ 1 :=
    BitVec.extractLsb_toNat 63 63 b
  have hbit : @unpackSign .binary64 b = 0#1 ↔ b.toNat < 2 ^ 63 := by
    rw [← BitVec.toNat_inj, htop, Nat.shiftRight_eq_div_pow, BitVec.toNat_zero]
    omega
  rw [Sign.ofBitVec]
  simp only [hbit]

private theorem toNat_one_append (m : BitVec 52) : (1#1 ++ m).toNat = 2 ^ 52 + m.toNat := by
  rw [BitVec.toNat_append]
  exact (Nat.shiftLeft_add_eq_or_of_lt m.isLt 1).symm

/-- The bits of a number, its sign aside, are its place. -/
theorem placed_unpack {b : BitVec 64} (h : (UnpackedFloat.unpack .binary64 b).isNaN = false) :
    Placed (UnpackedFloat.unpack .binary64 b) (Sign.ofBitVec (@unpackSign .binary64 b))
      (b.toNat % 2 ^ 63) := by
  have hexponent := toNat_unpackExponent b
  have hmantissa := toNat_unpackMantissa b
  have hbias : Float.Model.Format.binary64.exponentBias = 1023 := rfl
  unfold UnpackedFloat.unpack at h ⊢
  dsimp only at h ⊢
  rw [hbias] at h ⊢
  by_cases htop : @unpackExponent .binary64 b = -1#_
  · rw [htop] at hexponent
    change 2047 = _ at hexponent
    rw [if_pos htop] at h ⊢
    by_cases hnil : @unpackMantissa .binary64 b = 0#_
    · rw [hnil] at hmantissa
      change 0 = _ at hmantissa
      have hk : b.toNat % 2 ^ 63 = 2047 * 2 ^ 52 := by omega
      rw [if_pos hnil, hk]
      exact .infinity _
    · rw [if_neg hnil] at h
      cases h
  · have hbelow : b.toNat / 2 ^ 52 % 2 ^ 11 ≠ 2047 :=
      fun he => htop (BitVec.eq_of_toNat_eq (hexponent.trans he))
    rw [if_neg htop]
    by_cases hleast : @unpackExponent .binary64 b = 0#_
    · have hzero : b.toNat / 2 ^ 52 % 2 ^ 11 = 0 := hexponent.symm.trans (congrArg BitVec.toNat hleast)
      rw [if_pos hleast]
      by_cases hnil : @unpackMantissa .binary64 b = 0#_
      · rw [hnil] at hmantissa
        change 0 = _ at hmantissa
        have hk : b.toNat % 2 ^ 63 = 0 := by omega
        rw [dif_pos hnil, hk]
        exact .zero _
      · -- the exponent is the least one, so that the topmost bit of the mantissa is missing
        rw [dif_neg hnil, hexponent, hzero]
        exact .finite _ _ ⟨by omega, by decide, .inl (by decide), by omega, by omega⟩
    · have hpos : b.toNat / 2 ^ 52 % 2 ^ 11 ≠ 0 :=
        fun he => hleast (BitVec.eq_of_toNat_eq (hexponent.trans he))
      have hone := toNat_one_append (@unpackMantissa .binary64 b)
      rw [if_neg hleast, hexponent]
      exact .finite _ _ ⟨by omega, by omega, .inr (by omega), by omega, by omega⟩

/-- Bits that are not past those of infinity are those of a number. -/
theorem isNaN_unpack_of_le {b : BitVec 64} (h : b.toNat ≤ 2047 * 2 ^ 52) :
    (UnpackedFloat.unpack .binary64 b).isNaN = false := by
  have hexponent := toNat_unpackExponent b
  have hmantissa := toNat_unpackMantissa b
  unfold UnpackedFloat.unpack
  dsimp only
  by_cases htop : @unpackExponent .binary64 b = -1#_
  · rw [htop] at hexponent
    change 2047 = _ at hexponent
    have hnil : @unpackMantissa .binary64 b = 0#_ :=
      BitVec.eq_of_toNat_eq (hmantissa.trans (by rw [BitVec.toNat_zero]; omega))
    rw [if_pos htop, if_pos hnil]
    rfl
  · rw [if_neg htop]
    split
    · split <;> rfl
    · rfl

/-- A number ranks by its place, a negative one counted down from minus one. -/
theorem exists_placed {x : Float} (h : x.isNaN = false) : ∃ s k, Placed x.toModel.unpack s k ∧
    rank x = match s with | .positive => (k : Int) | .negative => -(k : Int) - 1 := by
  have hsign := ofBitVec_unpackSign x.toModel.toBits.toBitVec
  have hbits : x.toBits.toNat < 2 ^ 64 := x.toBits.toBitVec.isLt
  change _ = if x.toBits.toNat < 2 ^ 63 then Sign.positive else Sign.negative at hsign
  refine ⟨_, x.toBits.toNat % 2 ^ 63, placed_unpack h, ?_⟩
  simp only [rank, h, Bool.false_eq_true, if_false, Nat.pow_eq]
  rw [hsign]
  split
  · rename_i hnegative
    rw [if_neg (Nat.not_lt.2 hnegative)]
    dsimp only
    omega
  · rename_i hpositive
    rw [if_pos (Nat.not_le.1 hpositive), Nat.mod_eq_of_lt (Nat.not_le.1 hpositive)]

/-- How far above zero a number stands among the doubles, or how far below.  This differs from the rank in that both
zeros stand at zero. -/
def height (x : Float) : Int :=
  if rank x < 0 then rank x + 1 else rank x

theorem exists_height {x : Float} (h : x.isNaN = false) : ∃ s k, Placed x.toModel.unpack s k ∧
    height x = s.apply k := by
  obtain ⟨s, k, hu, hrank⟩ := exists_placed h
  refine ⟨s, k, hu, ?_⟩
  rw [height, hrank]
  cases s with
  | positive => exact if_neg (by dsimp only; omega)
  | negative =>
    dsimp only [Sign.apply]
    rw [if_pos (by omega)]
    omega

theorem height_mono {x y : Float} (h : rank x ≤ rank y) : height x ≤ height y := by
  unfold height
  split <;> split <;> omega

/-- Numbers compare as their heights do. -/
theorem le_iff_height_le {x y : Float} (hx : x.isNaN = false) (hy : y.isNaN = false) :
    x ≤ y ↔ height x ≤ height y := by
  obtain ⟨s, k, hu, hk⟩ := exists_height hx
  obtain ⟨t, l, hv, hl⟩ := exists_height hy
  change decide (x.toModel.unpack.le y.toModel.unpack) = true ↔ _
  rw [decide_eq_true_eq, UnpackedFloat.le, hu.compare_eq_apply hv, hk, hl]
  exact Int.isLE_compare

theorem lt_iff_height_lt {x y : Float} (hx : x.isNaN = false) (hy : y.isNaN = false) :
    x < y ↔ height x < height y := by
  obtain ⟨s, k, hu, hk⟩ := exists_height hx
  obtain ⟨t, l, hv, hl⟩ := exists_height hy
  change decide (x.toModel.unpack.lt y.toModel.unpack) = true ↔ _
  rw [decide_eq_true_eq, UnpackedFloat.lt, hu.compare_eq_apply hv, hk, hl, beq_iff_eq, Option.some_inj,
    Int.compare_eq_lt]

/-- Numbers that are in the total order compare. -/
theorem le_of_totalOrder {x y : Float} (hx : x.isNaN = false) (hy : y.isNaN = false)
    (h : (totalOrder x y).isLE) : x ≤ y :=
  (le_iff_height_le hx hy).2 (height_mono (Int.isLE_compare.1 h))

/-- A number ranks below those that it is less than. -/
theorem rank_lt_of_lt {x y : Float} (hx : x.isNaN = false) (hy : y.isNaN = false) (h : x < y) :
    rank x < rank y := by
  by_contra hranks
  exact absurd (height_mono (Int.not_lt.1 hranks)) (Int.not_le.2 ((lt_iff_height_lt hx hy).1 h))

/-- Numbers of one rank are one. -/
theorem eq_of_rank_eq {x y : Float} (hx : x.isNaN = false) (hy : y.isNaN = false) (h : rank x = rank y) :
    x = y := by
  have hbits : x.toBits.toNat < 2 ^ 64 := x.toBits.toBitVec.isLt
  have hbits' : y.toBits.toNat < 2 ^ 64 := y.toBits.toBitVec.isLt
  simp only [rank, hx, hy, Bool.false_eq_true, if_false, Nat.pow_eq] at h
  rw [← Float.toBits_inj, ← UInt64.toNat_inj]
  split at h <;> split at h <;> omega

/-! ### Ceilings -/

/-- What a finite double stands for. -/
def Binary.value? : Binary → Option ℚ
  | .finite negative m e => some (if negative then -(m * 2 ^ e) else m * 2 ^ e)
  | _ => none

private theorem ceil_div_two_pow (m k : Nat) : ⌈(m : ℚ) / 2 ^ k⌉₊ = (m + (2 ^ k - 1)) / 2 ^ k := by
  have hpos : 0 < 2 ^ k := Nat.two_pow_pos k
  have hpos' : (0 : ℚ) < 2 ^ k := by positivity
  refine eq_of_forall_ge_iff fun n => ?_
  have hcast : (m : ℚ) ≤ n * 2 ^ k ↔ m ≤ n * 2 ^ k := by exact_mod_cast Iff.rfl
  rw [Nat.ceil_le, div_le_iff₀ hpos', hcast, Nat.div_le_iff_le_mul_add_pred hpos, Nat.mul_comm]
  omega

/-- The least natural number not below a finite value. -/
theorem ceilNat_of_value? {x : Float} {q : ℚ} (h : (Binary.ofFloat x).value? = some q) (bound : Nat) :
    ceilNat x bound = ⌈q⌉₊ := by
  rw [ceilNat]
  cases hx : Binary.ofFloat x with
  | undefined | infinite =>
    rw [hx] at h
    cases h
  | finite negative m e =>
    rw [hx] at h
    cases h
    cases negative with
    | true =>
      have hle : -((m : ℚ) * 2 ^ e) ≤ 0 := neg_nonpos.2 (by positivity)
      exact (Nat.ceil_eq_zero.2 hle).symm
    | false =>
      cases e with
      | ofNat e =>
        have hcast : (m : ℚ) * 2 ^ Int.ofNat e = ((m * 2 ^ e : Nat) : ℚ) := by simp
        exact ((congrArg Nat.ceil hcast).trans (Nat.ceil_natCast _)).symm
      | negSucc e =>
        have hdiv : (m : ℚ) * 2 ^ Int.negSucc e = m / 2 ^ (e + 1) := by
          rw [zpow_negSucc, div_eq_mul_inv]
        exact ((congrArg Nat.ceil hdiv).trans (ceil_div_two_pow m (e + 1))).symm

/-! ### Zero -/

/-- There are two zeros. -/
theorem eq_or_eq_neg_of_zero {x : Float} (h : x == 0.0) : x = 0.0 ∨ x = -0.0 := by
  obtain ⟨-, -, heq | ⟨heq, -⟩ | ⟨heq, -⟩⟩ := Float.beq_iff_ne_nan_and_eq.1 h
  · exact .inl heq
  · exact .inl heq
  · exact .inr heq

/-- Zero is not beyond either end of the unit interval. -/
theorem clamp_of_zero {x : Float} (h : x == 0.0) : Scalar.clamp 0.0 1.0 x = x := by
  obtain rfl | rfl := eq_or_eq_neg_of_zero h <;> decide

private theorem ceilNat_of_nothing {x : Float} {negative : Bool} {e : Int}
    (h : Binary.ofFloat x = .finite negative 0 e) (bound : Nat) : ceilNat x bound = 0 := by
  rw [ceilNat, h]
  cases negative with
  | true => rfl
  | false =>
    cases e with
    | ofNat e => exact Nat.zero_mul _
    | negSucc e =>
      have hpos : 0 < Nat.pow 2 (e + 1) := Nat.two_pow_pos (e + 1)
      exact Nat.div_eq_of_lt (by omega)

/-- Zero times anything is zero, or no number if that is infinite. -/
theorem ceilNat_mul_of_zero {x : Float} (h : x == 0.0) (y : Float) (bound : Nat) : ceilNat (x * y) bound = 0 := by
  obtain ⟨s, hx⟩ : ∃ s, x.toModel.unpack = .zero s := by
    obtain rfl | rfl := eq_or_eq_neg_of_zero h
    · exact ⟨.positive, rfl⟩
    · exact ⟨.negative, rfl⟩
  have hmul : x * y = .ofModel (.pack (UnpackedFloat.mul .binary64 (.zero s) y.toModel.unpack)) := by
    rw [← hx]
    rfl
  have hzero : ∀ s, ceilNat (.ofModel (.pack (.zero s))) bound = 0 := by
    intro s
    cases s with
    | positive => exact ceilNat_of_nothing rfl bound
    | negative => exact ceilNat_of_nothing rfl bound
  have hnan : ceilNat (.ofModel (.pack .notANumber)) bound = 0 := rfl
  rw [hmul]
  cases y.toModel.unpack with
  | notANumber | infinity => exact hnan
  | zero | finite => exact hzero _

end EchoEngine.Decimal
