import EchoEngine.Scalar
import Mathlib.Analysis.SpecialFunctions.Pow.Real

/-!
# Exact scalars

Scores and means without rounding: real numbers, where dividing by zero gives no number (`ofReal_div_eq_ofReal_iff`)
and nothing that is computed from none is a number.  So a number is what no division by zero has gone into.
-/

namespace EchoEngine

/-- A real number, or none. -/
def Exact : Type :=
  Option ℝ

namespace Exact

def ofReal (r : ℝ) : Exact :=
  some r

noncomputable instance : Scalar Exact where
  add := Option.map₂ (· + ·)
  mul := Option.map₂ (· * ·)
  div x y := Option.bind y fun d => if d = 0 then none else Option.map (· / d) x
  ofScientific mantissa negative exponent := ofReal (OfScientific.ofScientific mantissa negative exponent)
  lt x y := ∃ r s, x = ofReal r ∧ y = ofReal s ∧ r < s
  le x y := ∃ r s, x = ofReal r ∧ y = ofReal s ∧ r ≤ s
  ofNat n := ofReal n
  halfPow := Option.map fun r => (1 / 2 : ℝ) ^ r
  order := compare (α := Option ℝ)
  isNumber := Option.isSome
  decidableLT := Classical.decRel _
  decidableLE := Classical.decRel _

/-! ### Computing with real numbers -/

variable {a b r : ℝ}

theorem ofReal_injective : Function.Injective ofReal :=
  fun _ _ => Option.some.inj

@[simp]
theorem ofScientific_eq (mantissa : Nat) (negative : Bool) (exponent : Nat) :
    (OfScientific.ofScientific mantissa negative exponent : Exact) =
      ofReal (OfScientific.ofScientific mantissa negative exponent) :=
  rfl

@[simp]
theorem ofNat_eq (n : Nat) : (Scalar.ofNat n : Exact) = ofReal n :=
  rfl

@[simp]
theorem ofReal_add (a b : ℝ) : ofReal a + ofReal b = ofReal (a + b) :=
  rfl

@[simp]
theorem ofReal_mul (a b : ℝ) : ofReal a * ofReal b = ofReal (a * b) :=
  rfl

/-- A quotient is a number if and only if the divisor is not zero. -/
theorem ofReal_div_eq_ofReal_iff : ofReal a / ofReal b = ofReal r ↔ b ≠ 0 ∧ a / b = r := by
  by_cases hb : b = 0
  · have hdiv : ofReal a / ofReal b = none := if_pos hb
    rw [hdiv]
    exact iff_of_false nofun fun h => h.1 hb
  · have hdiv : ofReal a / ofReal b = ofReal (a / b) := if_neg hb
    rw [hdiv, ofReal_injective.eq_iff, and_iff_right hb]

@[simp]
theorem ofReal_lt : ofReal a < ofReal b ↔ a < b := by
  constructor
  · rintro ⟨_, _, ha, hb, h⟩
    rwa [ofReal_injective ha, ofReal_injective hb]
  · exact fun h => ⟨a, b, rfl, rfl, h⟩

@[simp]
theorem ofReal_le : ofReal a ≤ ofReal b ↔ a ≤ b := by
  constructor
  · rintro ⟨_, _, ha, hb, h⟩
    rwa [ofReal_injective ha, ofReal_injective hb]
  · exact fun h => ⟨a, b, rfl, rfl, h⟩

/-! ### Numbers within bounds -/

/-- A number of a set. -/
def Within (s : Set ℝ) (x : Exact) : Prop :=
  ∃ r ∈ s, x = ofReal r

variable {s t : Set ℝ} {x : Exact}

@[simp]
theorem within_ofReal : (ofReal r).Within s ↔ r ∈ s :=
  ⟨fun ⟨_, hmem, h⟩ => ofReal_injective h ▸ hmem, fun h => ⟨r, h, rfl⟩⟩

theorem Within.mono (h : x.Within s) (hst : s ⊆ t) : x.Within t :=
  h.imp fun _ hr => hr.imp_left (hst ·)

theorem exists_map_ofReal {xs : List Exact} (h : ∀ x ∈ xs, x.Within s) :
    ∃ rs : List ℝ, (∀ r ∈ rs, r ∈ s) ∧ xs = rs.map ofReal := by
  induction xs with
  | nil => exact ⟨[], nofun, rfl⟩
  | cons x xs ih =>
    rw [List.forall_mem_cons] at h
    obtain ⟨⟨r, hr, rfl⟩, hxs⟩ := h
    obtain ⟨rs, hrs, rfl⟩ := ih hxs
    exact ⟨r :: rs, List.forall_mem_cons.2 ⟨hr, hrs⟩, rfl⟩

theorem sum_map_ofReal (rs : List ℝ) : Scalar.sum (rs.map ofReal) = ofReal rs.sum := by
  have hfoldl : ∀ r : ℝ, (rs.tail.map ofReal).foldl (· + ·) (ofReal r) = ofReal (r + rs.tail.sum) := by
    induction rs.tail with
    | nil => simp
    | cons r' rs ih =>
      intro r
      rw [List.map_cons, List.foldl_cons, ofReal_add, ih, List.sum_cons, add_assoc]
  cases rs with
  | nil => norm_num [Scalar.sum]
  | cons r rs =>
    rw [List.sum_cons]
    exact hfoldl r

theorem mean_map_ofReal {rs : List ℝ} (h : rs ≠ []) :
    Scalar.mean (rs.map ofReal) = ofReal (rs.sum / rs.length) := by
  have hlength : (rs.length : ℝ) ≠ 0 := Nat.cast_ne_zero.2 (List.length_eq_zero_iff.not.2 h)
  rw [Scalar.mean, sum_map_ofReal, List.length_map, ofNat_eq]
  exact ofReal_div_eq_ofReal_iff.2 ⟨hlength, rfl⟩

/-- The mean of numbers, as often as there are numbers, is their sum. -/
theorem mean_mul_length {xs : List Exact} (hne : xs ≠ []) (h : ∀ x ∈ xs, x.Within s) :
    Scalar.mean xs * Scalar.ofNat xs.length = Scalar.sum xs := by
  obtain ⟨rs, -, rfl⟩ := exists_map_ofReal h
  have hrsne : rs ≠ [] := List.map_eq_nil_iff.not.1 hne
  have hlength : (rs.length : ℝ) ≠ 0 := Nat.cast_ne_zero.2 (List.length_eq_zero_iff.not.2 hrsne)
  rw [mean_map_ofReal hrsne, sum_map_ofReal, List.length_map, ofNat_eq, ofReal_mul, div_mul_cancel₀ _ hlength]

/-- The mean of numbers is one that lies where they lie. -/
theorem within_mean {xs : List Exact} (hne : xs ≠ []) (h : ∀ x ∈ xs, x.Within (Set.Icc a b)) :
    (Scalar.mean xs).Within (Set.Icc a b) := by
  obtain ⟨rs, hrs, rfl⟩ := exists_map_ofReal h
  have hrsne : rs ≠ [] := List.map_eq_nil_iff.not.1 hne
  have hlength : (0 : ℝ) < rs.length := Nat.cast_pos.2 (List.length_pos_iff.2 hrsne)
  have hlow := rs.card_nsmul_le_sum a fun r hr => (hrs r hr).1
  have hhigh := rs.sum_le_card_nsmul b fun r hr => (hrs r hr).2
  rw [nsmul_eq_mul, mul_comm] at hlow hhigh
  rw [mean_map_ofReal hrsne, within_ofReal]
  exact ⟨(le_div_iff₀ hlength).2 hlow, (div_le_iff₀ hlength).2 hhigh⟩

/-- The share of a part of at least one thing. -/
theorem within_share {part whole : Nat} (hpart : part ≤ whole) (hwhole : 0 < whole) :
    (Scalar.ofNat part / Scalar.ofNat whole : Exact).Within (Set.Icc 0 1) := by
  have hpos : (0 : ℝ) < whole := Nat.cast_pos.2 hwhole
  refine ⟨part / whole, ⟨by positivity, ?_⟩, ofReal_div_eq_ofReal_iff.2 ⟨hpos.ne', rfl⟩⟩
  exact (div_le_one hpos).2 (Nat.cast_le.2 hpart)

theorem within_one : (1.0 : Exact).Within (Set.Icc 0 1) := by
  norm_num

/-- Clamping leaves alone what lies between the bounds. -/
theorem clamp_eq (h : x.Within (Set.Icc 0 1)) : Scalar.clamp 0.0 1.0 x = x := by
  obtain ⟨r, ⟨hlow, hhigh⟩, rfl⟩ := h
  norm_num [Scalar.clamp, hlow.not_gt, hhigh.not_gt]

theorem inUnit_iff : Scalar.inUnit x = true ↔ x.Within (Set.Icc 0 1) := by
  rw [Scalar.inUnit, Bool.and_eq_true, decide_eq_true_eq, decide_eq_true_eq]
  constructor
  · rintro ⟨hlow, hhigh⟩
    obtain ⟨r, -, rfl, -, -⟩ := id hhigh
    norm_num at hlow hhigh
    exact within_ofReal.2 ⟨hlow, hhigh⟩
  · rintro ⟨r, ⟨hlow, hhigh⟩, rfl⟩
    norm_num [hlow, hhigh]

end Exact

end EchoEngine
