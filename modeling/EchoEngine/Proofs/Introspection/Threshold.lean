import EchoEngine.Introspection.Snapshot
import EchoEngine.Proofs.Decimal.Order
import Mathlib.Data.List.Basic

/-!
# The attention threshold

The threshold is the score at the rank of a percentile, in ascending order.  Scores are sorted by the total order
of doubles, but they are compared with the threshold as numbers.  The two differ at zero, of which there are two,
and yet the threshold stands at its rank by comparison as well (`AtRank`, `Ascending.atRank`): what comes before it
is not above it, and what is below it comes before it.  As numbers have only one ascending order, it does not
matter in which order the scores are listed (`threshold_selects`).

At percentile zero the threshold is the least score, so every file is salient as long as all scores are numbers
(`perm_salient`).
-/

namespace EchoEngine

namespace Salience

/-! ### Sorting -/

/-- What is no number comes first, and numbers come in the total order. -/
theorem isLE_order_iff {x y : Float} :
    (order x y).isLE ↔ x.isNaN ∨ y.isNaN = false ∧ Decimal.rank x ≤ Decimal.rank y := by
  have htotal : (Scalar.order x y).isLE ↔ Decimal.rank x ≤ Decimal.rank y := Int.isLE_compare
  simp only [order, Scalar.isNumber]
  cases hx : x.isNaN with
  | true => cases y.isNaN <;> exact iff_of_true rfl (.inl rfl)
  | false =>
    cases hy : y.isNaN with
    | true => exact iff_of_false nofun nofun
    | false => exact htotal.trans ⟨fun hranks => .inr ⟨rfl, hranks⟩, fun h => (h.resolve_left nofun).2⟩

theorem isLE_order_trans {x y z : Float} (h : (order x y).isLE) (h' : (order y z).isLE) : (order x z).isLE := by
  rw [isLE_order_iff] at *
  rcases h with hx | ⟨hy, hxy⟩
  · exact .inl hx
  · rcases h' with hnan | ⟨hz, hyz⟩
    · rw [hy] at hnan
      cases hnan
    · exact .inr ⟨hz, Int.le_trans hxy hyz⟩

theorem isLE_order_total (x y : Float) : (order x y).isLE || (order y x).isLE := by
  rw [Bool.or_eq_true, isLE_order_iff, isLE_order_iff]
  cases x.isNaN with
  | true => exact .inl (.inl rfl)
  | false =>
    cases y.isNaN with
    | true => exact .inr (.inl rfl)
    | false =>
      rcases Int.le_total (Decimal.rank x) (Decimal.rank y) with hranks | hranks
      · exact .inl (.inr ⟨rfl, hranks⟩)
      · exact .inr (.inr ⟨rfl, hranks⟩)

/-- Scores one after another in the total order. -/
def Ascending (xs : List Float) : Prop :=
  xs.Pairwise fun x y => Decimal.rank x ≤ Decimal.rank y
deriving Decidable

theorem perm_sorted (order : Float → Float → Ordering) (xs : List Float) : (sorted order xs).Perm xs :=
  List.mergeSort_perm _ _

theorem ascending_sorted {xs : List Float} (hxs : ∀ x ∈ xs, x.isNaN = false) : Ascending (sorted order xs) := by
  have hsorted : (sorted order xs).Pairwise fun x y => (order x y).isLE = true :=
    @List.pairwise_mergeSort Float (fun x y => (order x y).isLE) (fun _ _ _ => isLE_order_trans)
      isLE_order_total xs
  refine hsorted.imp_of_mem ?_
  intro x y hx _ hxy
  rw [isLE_order_iff, hxs x ((perm_sorted order xs).mem_iff.1 hx)] at hxy
  exact (hxy.resolve_left Bool.false_ne_true).2

theorem ascending_sorted_total (xs : List Float) : Ascending (sorted Scalar.order xs) := by
  have hiff : ∀ x y : Float, (Scalar.order x y).isLE ↔ Decimal.rank x ≤ Decimal.rank y := fun x y =>
    Int.isLE_compare
  have hsorted : (sorted Scalar.order xs).Pairwise fun x y : Float => (Scalar.order x y).isLE = true := by
    refine @List.pairwise_mergeSort Float (fun x y => (Scalar.order x y).isLE) ?_ ?_ xs
    · intro x y z
      rw [hiff, hiff, hiff]
      exact Int.le_trans
    · intro x y
      rw [Bool.or_eq_true, hiff, hiff]
      exact Int.le_total _ _
  exact hsorted.imp (hiff _ _).1

/-- Numbers have one ascending order. -/
theorem Ascending.eq_of_perm {xs ys : List Float} (hxs : Ascending xs) (hys : Ascending ys) (h : xs.Perm ys)
    (hnumber : ∀ x ∈ xs, x.isNaN = false) : xs = ys := by
  refine List.Perm.eq_of_pairwise ?_ hxs hys h
  intro x y hx hy hxy hyx
  exact Decimal.eq_of_rank_eq (hnumber x hx) (hnumber y (h.mem_iff.2 hy)) (Int.le_antisymm hxy hyx)

theorem sorted_eq {xs ys : List Float} (hxs : ∀ x ∈ xs, x.isNaN = false) (hys : Ascending ys)
    (h : ys.Perm xs) : sorted order xs = ys := by
  have hperm := perm_sorted order xs
  exact (ascending_sorted hxs).eq_of_perm hys (hperm.trans h.symm) fun x hx => hxs x (hperm.mem_iff.1 hx)

/-! ### The score at a rank -/

/-- A score stands at a rank of a list: that many scores are not above it, fewer are below it, and what the rank
leaves of the list, the score included, is not below it. -/
structure AtRank (k : Nat) (xs : List Float) (t : Float) : Prop where
  rank_pos : 1 ≤ k
  rank_le : k ≤ xs.length
  mem : t ∈ xs
  le_countP_le : k ≤ xs.countP (· ≤ t)
  countP_lt_le : xs.countP (· < t) ≤ k - 1
  le_countP_ge : xs.length - k + 1 ≤ xs.countP (t ≤ ·)

theorem AtRank.perm {k : Nat} {xs ys : List Float} {t : Float} (h : AtRank k xs t) (hperm : xs.Perm ys) :
    AtRank k ys t where
  rank_pos := h.rank_pos
  rank_le := hperm.length_eq ▸ h.rank_le
  mem := hperm.mem_iff.1 h.mem
  le_countP_le := hperm.countP_eq _ ▸ h.le_countP_le
  countP_lt_le := hperm.countP_eq _ ▸ h.countP_lt_le
  le_countP_ge := hperm.countP_eq _ ▸ hperm.length_eq ▸ h.le_countP_ge

section

variable {xs : List Float} {i : Nat}

theorem Ascending.rank_le (h : Ascending xs) {j : Nat} (hij : i ≤ j) (hj : j < xs.length) :
    Decimal.rank xs[i] ≤ Decimal.rank xs[j] := by
  rcases Nat.lt_or_eq_of_le hij with hlt | rfl
  · exact List.pairwise_iff_getElem.1 h i j (by omega) hj hlt
  · exact Int.le_refl _

/-- In ascending order the scores up to an index are not above the one there, and those from it on are not
below. -/
theorem Ascending.atRank (h : Ascending xs) (hnumber : ∀ x ∈ xs, x.isNaN = false) (hi : i < xs.length) :
    AtRank (i + 1) xs xs[i] := by
  have hle : ∀ {j l} (hjl : j ≤ l) (hl : l < xs.length), xs[j] ≤ xs[l] := fun {j l} hjl hl =>
    Decimal.le_of_totalOrder (hnumber _ (List.getElem_mem _)) (hnumber _ (List.getElem_mem _))
      (Int.isLE_compare.2 (h.rank_le hjl hl))
  have hbelow : (xs.take (i + 1)).countP (· ≤ xs[i]) = (xs.take (i + 1)).length := by
    refine List.countP_eq_length.2 fun y hy => ?_
    obtain ⟨j, hj, rfl⟩ := List.mem_take_iff_getElem.1 hy
    exact decide_eq_true (hle (by omega) hi)
  have habove : ∀ y ∈ xs.drop i, xs[i] ≤ y ∧ ¬y < xs[i] := by
    intro y hy
    obtain ⟨j, hj, rfl⟩ := List.mem_drop_iff_getElem.1 hy
    simp only [Nat.add_comm i j]
    refine ⟨hle (Nat.le_add_left i j) hj, fun hlt => ?_⟩
    have hranks := Decimal.rank_lt_of_lt (hnumber _ (List.getElem_mem _)) (hnumber _ (List.getElem_mem hi)) hlt
    exact absurd (h.rank_le (Nat.le_add_left i j) hj) (Int.not_le.2 hranks)
  have hdrop : (xs.drop i).countP (xs[i] ≤ ·) = (xs.drop i).length :=
    List.countP_eq_length.2 fun y hy => decide_eq_true (habove y hy).1
  have hnone : (xs.drop i).countP (· < xs[i]) = 0 :=
    List.countP_eq_zero.2 fun y hy => by simpa using (habove y hy).2
  refine ⟨Nat.le_add_left _ _, hi, List.getElem_mem hi, ?_, ?_, ?_⟩
  · have hcount := (List.take_sublist (i + 1) xs).countP_le (p := (· ≤ xs[i]))
    rw [hbelow, List.length_take] at hcount
    omega
  · have hsplit : xs.countP (· < xs[i]) = (xs.take i).countP (· < xs[i]) + (xs.drop i).countP (· < xs[i]) := by
      rw [← List.countP_append, List.take_append_drop]
    have hcount := (xs.take i).countP_le_length (p := (· < xs[i]))
    rw [List.length_take] at hcount
    omega
  · have hcount := (List.drop_sublist i xs).countP_le (p := (xs[i] ≤ ·))
    rw [hdrop, List.length_drop] at hcount
    omega

end

/-! ### Percentiles -/

section

variable {percentile : Float}

theorem one_le_rank (percentile : Float) {count : Nat} (h : 0 < count) : 1 ≤ rank percentile count := by
  rw [rank]
  omega

theorem rank_le (percentile : Float) (count : Nat) : rank percentile count ≤ count :=
  Nat.min_le_right _ _

theorem rank_of_zero (h : percentile == 0.0) (count : Nat) : rank percentile count = min 1 count := by
  rw [rank, Decimal.clamp_of_zero h, Decimal.ceilNat_mul_of_zero h, Nat.max_eq_right (Nat.zero_le 1)]

/-- The rank is the share of the count that the percentile stands for, rounded up and kept between one and the
count. -/
theorem rank_of_value? {count : Nat} {q : ℚ}
    (h : (Decimal.Binary.ofFloat (Scalar.clamp 0.0 1.0 percentile * Float.ofNat count)).value? = some q) :
    rank percentile count = min (max ⌈q⌉₊ 1) count := by
  rw [rank, ← Decimal.ceilNat_of_value? h count]
  rfl

variable {xs : List Float}

theorem threshold_eq_getElem (order : Float → Float → Ordering) (percentile : Float) (h : xs ≠ []) :
    ∃ hlt : rank percentile xs.length - 1 < (sorted order xs).length,
      threshold order xs percentile = (sorted order xs)[rank percentile xs.length - 1] := by
  have hpos := List.length_pos_iff.2 h
  have hle := rank_le percentile xs.length
  have hlt : rank percentile xs.length - 1 < (sorted order xs).length := by
    rw [(perm_sorted order xs).length_eq]
    omega
  exact ⟨hlt, by rw [threshold, List.getElem?_eq_getElem hlt, Option.getD_some]⟩

theorem atRank_threshold (h : xs ≠ []) (hxs : ∀ x ∈ xs, x.isNaN = false) (percentile : Float) :
    AtRank (rank percentile xs.length) xs (threshold order xs percentile) := by
  have hperm := perm_sorted order xs
  obtain ⟨hlt, hthreshold⟩ := threshold_eq_getElem order percentile h
  have hat := (ascending_sorted hxs).atRank (fun x hx => hxs x (hperm.mem_iff.1 hx)) hlt
  rw [Nat.sub_add_cancel (one_le_rank percentile (List.length_pos_iff.2 h)), ← hthreshold] at hat
  exact hat.perm hperm

/-- At percentile zero nothing scores below the threshold. -/
theorem threshold_le_of_zero (h : percentile == 0.0) {xs : List Float} (hxs : ∀ x ∈ xs, x.isNaN = false)
    {x : Float} (hx : x ∈ xs) : threshold order xs percentile ≤ x := by
  have hpos := List.length_pos_of_mem hx
  have hcount := (atRank_threshold (List.ne_nil_of_mem hx) hxs percentile).le_countP_ge
  rw [rank_of_zero h] at hcount
  have hall : xs.countP (threshold order xs percentile ≤ ·) = xs.length :=
    Nat.le_antisymm List.countP_le_length (by omega)
  exact of_decide_eq_true (List.countP_eq_length.1 hall x hx)

end

end Salience

namespace Snapshot

/-- As many files are salient as score at least the threshold. -/
theorem length_salient (root : String) (percentile : Float) (files : List (SalientFile Float)) :
    (ofFiles root percentile files).salient.length = (files.map (·.salience)).countP
      (Salience.threshold Salience.order (files.map (·.salience)) percentile ≤ ·) := by
  rw [ofFiles, List.countP_map, List.countP_eq_length_filter]
  exact List.length_mergeSort _

theorem perm_salient (root : String) {percentile : Float} (h : percentile == 0.0)
    {files : List (SalientFile Float)} (hfiles : ∀ f ∈ files, f.salience.isNaN = false) :
    (ofFiles root percentile files).salient.Perm files := by
  have hall : (files.filter fun f =>
      Salience.threshold Salience.order (files.map (·.salience)) percentile ≤ f.salience) = files := by
    rw [List.filter_eq_self]
    intro f hf
    refine decide_eq_true (Salience.threshold_le_of_zero h ?_ (List.mem_map_of_mem hf))
    intro x hx
    obtain ⟨g, hg, rfl⟩ := List.mem_map.1 hx
    exact hfiles g hg
  rw [ofFiles]
  dsimp only
  rw [hall]
  exact List.mergeSort_perm _ _

end Snapshot

namespace Salience

/-- The threshold of numbers is the score at the rank of the percentile, which is the same by either order and
however the numbers are listed, does not fall when the rank rises, and is not above the scores of what the rank
leaves. -/
theorem threshold_selects {xs : List Float} (h : xs ≠ []) (hxs : ∀ x ∈ xs, x.isNaN = false)
    (percentile : Float) :
    (∀ q, (Decimal.Binary.ofFloat (Scalar.clamp 0.0 1.0 percentile * Float.ofNat xs.length)).value? = some q →
      rank percentile xs.length = min (max ⌈q⌉₊ 1) xs.length) ∧
    AtRank (rank percentile xs.length) xs (threshold order xs percentile) ∧
    threshold Scalar.order xs percentile = threshold order xs percentile ∧
    (∀ ys, ys.Perm xs → threshold order ys percentile = threshold order xs percentile) ∧
    (∀ p, rank percentile xs.length ≤ rank p xs.length → threshold order xs percentile ≤ threshold order xs p) ∧
    ∀ root files, files.map (·.salience) = xs →
      xs.length - rank percentile xs.length + 1 ≤ (Snapshot.ofFiles root percentile files).salient.length := by
  have hat := atRank_threshold h hxs percentile
  have hperm := perm_sorted order xs
  have hnumber : ∀ x ∈ sorted order xs, x.isNaN = false := fun x hx => hxs x (hperm.mem_iff.1 hx)
  have hascending := ascending_sorted hxs
  refine ⟨fun q => rank_of_value?, hat, ?_, ?_, ?_, ?_⟩
  · rw [threshold, threshold, sorted_eq hxs (ascending_sorted_total xs) (perm_sorted Scalar.order xs)]
  · intro ys hys
    have hsame : sorted order xs = sorted order ys :=
      sorted_eq hxs (ascending_sorted fun y hy => hxs y (hys.mem_iff.1 hy)) ((perm_sorted order ys).trans hys)
    rw [threshold, threshold, hsame, hys.length_eq]
  · intro p hp
    obtain ⟨hlt, hthreshold⟩ := threshold_eq_getElem order percentile h
    obtain ⟨hlt', hthreshold'⟩ := threshold_eq_getElem order p h
    rw [hthreshold, hthreshold']
    exact Decimal.le_of_totalOrder (hnumber _ (List.getElem_mem _)) (hnumber _ (List.getElem_mem _))
      (Int.isLE_compare.2 (hascending.rank_le (Nat.sub_le_sub_right hp 1) hlt'))
  · rintro root files rfl
    rw [Snapshot.length_salient]
    exact hat.le_countP_ge

/-- Both zeros are among the scores, the greater of them at rank two. -/
theorem threshold_selects_zeros :
    rank 0.4 5 = 2 ∧ threshold order [0.5, 0.0, 0.25, -0.0, 0.5] 0.4 = 0.0 ∧
      AtRank 2 [0.5, 0.0, 0.25, -0.0, 0.5] 0.0 := by
  have hrank : rank 0.4 5 = 2 := by decide +kernel
  have hsorted : sorted order [0.5, 0.0, 0.25, -0.0, 0.5] = [-0.0, 0.0, 0.25, 0.5, 0.5] :=
    sorted_eq (by decide) (by decide +kernel) (by decide +kernel)
  have hthreshold : threshold order [0.5, 0.0, 0.25, -0.0, 0.5] 0.4 = 0.0 := by
    rw [threshold, hsorted]
    decide +kernel
  obtain ⟨-, hat, -⟩ := threshold_selects (List.cons_ne_nil 0.5 [0.0, 0.25, -0.0, 0.5]) (by decide) 0.4
  rw [hthreshold] at hat
  exact ⟨hrank, hthreshold, hrank ▸ hat⟩

end Salience

end EchoEngine
