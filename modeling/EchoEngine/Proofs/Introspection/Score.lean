import EchoEngine.Proofs.Decimal.Numeral
import EchoEngine.Proofs.Introspection.Scan
import EchoEngine.Proofs.Introspection.Relative
import EchoEngine.Proofs.Introspection.Snapshot

/-!
# Scores as doubles

The score of a weighted sum `s` is `s / (1 + s)`.  Of exact numbers it is less than one and grows with the sum.  Of
doubles both hold only nearly: if the sum overflows there is no score, if adding one does not change the sum the score
is one, and rounding the two divisors may lower the score of a greater sum by two doubles (`Scoring.le_add_two`).

Both signals are from zero to one, so a weighted sum is at most the sum of the weights and grows with either of them
(`exists_stands_sum`, `sum_mono`).  From this follow the bounds of scores under accepted weights, and that some file is
salient as long as the sum of the weights is finite (`scores_scoredBy`).  Weights for which scores leave their range or
fall are given after it (`scores_sampleFile`).
-/

namespace EchoEngine

open Files Decimal

/-! ### The score of a sum -/

namespace Salience

/-- A weighted sum at place `k` is divided by a double at place `l`, and the score is at place `j`. -/
structure Scoring (s : Float) (k l j : Nat) : Prop where
  sum : Stands s k
  one_le : one ≤ l
  divisor : Rounds (1 + valueAt k) l
  quotient : Rounds (valueAt k / valueAt l) j
  score : Stands (s / (1.0 + s)) j
  le_one : j ≤ one

variable {s s' : Float} {k k' l l' j j' : Nat}

/-- One more than a double rounds to a finite double. -/
theorem lt_top_of_rounds (hk : k < top) (h : Rounds (1 + valueAt k) l) : l < top := by
  by_contra htop
  obtain ⟨i, rfl⟩ : ∃ i, l = i + 1 := Nat.exists_eq_succ_of_ne_zero (by unfold top at htop; omega)
  have hlast : 2 < gap (top - 1) := by
    have hearlier : gap (1076 * 2 ^ 52 + 2 ^ 52) ≤ gap (top - 1) := gap_mono (by decide)
    rw [gap_eq (by decide) (.inr le_rfl)] at hearlier
    exact lt_of_lt_of_le (by norm_num) hearlier
  have hstep : valueAt top = valueAt (top - 1) + gap (top - 1) := valueAt_succ (top - 1)
  have hk' := valueAt_strictMono.monotone (show k ≤ top - 1 by omega)
  have hi := valueAt_strictMono.monotone (show top - 1 ≤ i by omega)
  have hl := valueAt_strictMono.monotone (Nat.not_lt.1 htop)
  rcases h.above i rfl with habove | ⟨habove, -⟩ <;> linarith

theorem exists_scoring (h : Stands s k) (hk : k < top) : ∃ l j, Scoring s k l j := by
  obtain ⟨l, hl, hdivisor⟩ := roundsTo_add stands_one h (by decide) hk
  rw [valueAt_one] at hl
  have htop := lt_top_of_rounds hk hl
  rw [Nat.min_eq_left htop.le] at hdivisor
  have hone : one ≤ l := hl.le_of_valueAt_le (by rw [valueAt_one]; linarith [valueAt_nonneg k])
  have hpos : 0 < l := lt_of_lt_of_le (by decide) hone
  have hle : valueAt k / valueAt l ≤ valueAt one := by
    have hkl : k ≤ l := hl.le_of_valueAt_le (by linarith)
    rw [valueAt_one]
    exact div_le_one_of_le₀ (valueAt_strictMono.monotone hkl) (valueAt_nonneg l)
  obtain ⟨j, hj, hquotient, hscore⟩ := (roundsTo_div h hdivisor hk htop hpos).of_le hle (by decide)
  exact ⟨l, j, h, hone, hl, hquotient, hscore, hj⟩

namespace Scoring

section

variable (h : Scoring s k l j)

include h

theorem divisor_pos : 0 < valueAt l := by
  have hone := valueAt_strictMono.monotone h.one_le
  rw [valueAt_one] at hone
  linarith

/-- As long as adding one changes the sum, the score is less than one. -/
theorem lt_one_of_lt (hkl : k < l) : j < one := by
  obtain ⟨i, rfl⟩ : ∃ i, l = i + 1 := Nat.exists_eq_succ_of_ne_zero (by omega)
  have hpred : valueAt (one - 1) = (2 ^ 53 - 1) / 2 ^ 53 := by
    have hsteps : one - 1 = 1021 * 2 ^ 52 + (2 ^ 53 - 1) := by decide
    rw [hsteps, valueAt_eq (by decide) (.inr (by decide))]
    norm_num
  have hle : valueAt k / valueAt (i + 1) ≤ valueAt (one - 1) := by
    have hk := valueAt_strictMono.monotone (Nat.le_of_lt_succ hkl)
    have hsteps := valueAt_le_gap i
    have hnext := valueAt_succ i
    rw [hpred, div_le_div_iff₀ h.divisor_pos (by norm_num)]
    linarith
  exact Nat.lt_of_le_pred (by decide) (h.quotient.le_of_le_valueAt hle)

/-- Adding one changes what is less than `2 ^ 53`. -/
theorem lt_one (hk : k < (53 + 1023) * 2 ^ 52) : j < one := by
  refine h.lt_one_of_lt (h.divisor.le_of_valueAt_le ?_)
  have hstep : gap k ≤ gap (1074 * 2 ^ 52 + (2 ^ 53 - 1)) := gap_mono (by omega)
  rw [gap_eq (by decide) (.inr (by decide))] at hstep
  norm_num at hstep
  linarith [valueAt_succ k]

/-- The divisor is one more than the sum but for half a step. -/
theorem divisor_near : (2 ^ 53 - 1) * valueAt l ≤ 2 ^ 53 * (1 + valueAt k) ∧
    2 ^ 53 * (1 + valueAt k) ≤ (2 ^ 53 + 1) * valueAt l := by
  have hsteps := gap_le_valueAt (le_trans (by decide) h.one_le)
  have hup := h.divisor.le_add_gap
  have hdown := h.divisor.sub_gap_le (by linarith [valueAt_nonneg k])
  constructor <;> linarith

end

/-- Before the last rounding, a greater sum gives a score that is lower by rounding the two divisors only. -/
theorem quotient_near (h : Scoring s k l j) (h' : Scoring s' k' l' j') (hk : k ≤ k') :
    (2 ^ 53 - 1) * (valueAt k / valueAt l) ≤ (2 ^ 53 + 1) * (valueAt k' / valueAt l') := by
  have hnear := h.divisor_near.2
  have hnear' := h'.divisor_near.1
  have hle := valueAt_strictMono.monotone hk
  have hpos := valueAt_nonneg k
  have hpos' := valueAt_nonneg k'
  rw [← mul_div_assoc, ← mul_div_assoc, div_le_div_iff₀ h.divisor_pos h'.divisor_pos]
  calc (2 ^ 53 - 1) * valueAt k * valueAt l'
      = valueAt k * ((2 ^ 53 - 1) * valueAt l') := by ring
    _ ≤ valueAt k * (2 ^ 53 * (1 + valueAt k')) := mul_le_mul_of_nonneg_left hnear' hpos
    _ ≤ valueAt k' * (2 ^ 53 * (1 + valueAt k)) := by linarith
    _ ≤ valueAt k' * ((2 ^ 53 + 1) * valueAt l) := mul_le_mul_of_nonneg_left hnear hpos'
    _ = (2 ^ 53 + 1) * valueAt k' * valueAt l := by ring

/-- A greater sum gives a score that is at most two doubles lower. -/
theorem le_add_two (h : Scoring s k l j) (h' : Scoring s' k' l' j') (hk : k ≤ k') : j ≤ j' + 2 := by
  have hnear := h.quotient_near h' hk
  have hup := h'.quotient.le_add_gap
  by_contra hlt
  obtain ⟨i, rfl⟩ : ∃ i, j = i + 1 := Nat.exists_eq_succ_of_ne_zero (by omega)
  have hfar : valueAt (j' + 2) + valueAt (j' + 3) ≤ 2 * (valueAt k / valueAt l) := by
    have hlow := valueAt_strictMono.monotone (show j' + 2 ≤ i by omega)
    have hhigh := valueAt_strictMono.monotone (show j' + 3 ≤ i + 1 by omega)
    rcases h.quotient.above i rfl with habove | ⟨habove, -⟩ <;> linarith
  have hpos := gap_pos j'
  have hmono := gap_mono (Nat.le_succ (j' + 1))
  have hsteps := valueAt_le_gap j'
  have hsteps' := valueAt_le_gap (j' + 1)
  rw [valueAt_succ (j' + 2), valueAt_succ (j' + 1), valueAt_succ j'] at hfar
  rw [valueAt_succ j'] at hsteps'
  rcases gap_succ j' with hgap | hgap <;> linarith

end Scoring

/-! ### The two signals -/

theorem exists_stands_weight (category : FileCategory) : ∃ k ≤ one, Stands category.weight k := by
  cases category
  all_goals exact ⟨_, by decide, stands_of_toNat_toBits rfl (by decide)⟩

theorem exists_stands_ofNat (n : Nat) : ∃ k, Stands (.ofNat n) k := by
  obtain ⟨k, -, hk⟩ := roundsTo_ofNat n
  exact ⟨_, hk⟩

/-- A machine word that is not zero is a finite double from one on. -/
theorem exists_stands_word {n : Nat} (hpos : 0 < n) (hword : n < 2 ^ 64) :
    ∃ k < top, one ≤ k ∧ Stands (.ofNat n) k := by
  have hhigh : (n : ℚ) ≤ valueAt ((64 + 1023) * 2 ^ 52) := by
    rw [valueAt_two_pow]
    exact_mod_cast hword.le
  have hlow : valueAt one ≤ n := by
    rw [valueAt_one]
    exact_mod_cast hpos
  obtain ⟨k, hk, hrounds, hstands⟩ := (roundsTo_ofNat n).of_le hhigh (by decide)
  exact ⟨k, hk.trans_lt (by decide), hrounds.le_of_valueAt_le hlow, hstands⟩

/-- Coherence is a number from zero to one, as both of its shares are not more than they should be and these make up
one. -/
theorem exists_stands_coherence (category : FileCategory) (depth : Nat) :
    ∃ k ≤ one, Stands (coherence category depth : Float) k := by
  have hshare : Stands 0.7 (Float.toBits 0.7).toNat := stands_of_toNat_toBits rfl (by decide)
  have hrest : Stands 0.3 (Float.toBits 0.3).toNat := stands_of_toNat_toBits rfl (by decide)
  have hwhole : Stands (0.7 + 0.3) one := stands_of_toNat_toBits (by decide) (by decide)
  obtain ⟨w, hw, hweight⟩ := exists_stands_weight category
  obtain ⟨d, hdepth⟩ := exists_stands_ofNat depth
  obtain ⟨l, hl, hone, -⟩ := exists_stands_add stands_one hdepth
  obtain ⟨i, hi, hkind⟩ := exists_stands_mul hshare hweight (by decide) hw
  obtain ⟨j, hj, hnear⟩ := exists_stands_div hrest hl hone (.inl (by decide))
  obtain ⟨k, hk, -, -⟩ := exists_stands_add hkind hnear
  exact ⟨k, add_mono hkind hnear hshare hrest hi hj hk hwhole, hk⟩

theorem exists_stands_seconds (age : Nat) : ∃ k, Stands (seconds age : Float) k := by
  obtain ⟨i, hwhole⟩ := exists_stands_ofNat (age / 1000000000)
  obtain ⟨j, hpart⟩ := exists_stands_ofNat (age % 1000000000)
  obtain ⟨l, hl, hone, hunit⟩ := exists_stands_word (n := 1000000000) (by decide) (by decide)
  obtain ⟨j', -, hfraction⟩ := exists_stands_div hpart hunit hone (.inr hl)
  obtain ⟨k, hk, -, -⟩ := exists_stands_add hwhole hfraction
  exact ⟨k, hk⟩

end Salience

/-- A power of one half goes from one down to zero. -/
def Scalar.Decays (halfPow : Float → Float) : Prop :=
  ∀ x, 0.0 ≤ x → 0.0 ≤ halfPow x ∧ halfPow x ≤ 1.0

namespace Scanner

variable {s : Scanner} {settings : IntrospectionSettings} {halfPow : Float → Float}

theorem halfLife_pos (h : new settings = .ok s) : 0 < s.settings.halfLife := by
  rw [(new_eq_ok h).1, Nat.pos_iff_ne_zero]
  intro hzero
  have hinvalid : settings.validate ≠ .ok () := by
    rw [IntrospectionSettings.validate, if_pos hzero]
    split <;> nofun
  unfold new at h
  cases hvalid : settings.validate with
  | ok => exact hinvalid hvalid
  | error e =>
    rw [hvalid] at h
    cases h

theorem exists_stands_novelty (hpow : Scalar.Decays halfPow) {halfLife : Nat} (hpos : 0 < halfLife)
    (hword : halfLife < 2 ^ 64) (age : Nat) :
    ∃ k ≤ one, Stands (@Salience.novelty Float (.doubles halfPow) age halfLife) k := by
  obtain ⟨i, hage⟩ := Salience.exists_stands_seconds age
  obtain ⟨l, hl, hone, hlife⟩ := Salience.exists_stands_word hpos hword
  obtain ⟨j, -, hratio⟩ := exists_stands_div hage hlife hone (.inr hl)
  have hzero : Stands 0.0 0 := stands_of_toNat_toBits rfl (by decide)
  obtain ⟨hlow, hhigh⟩ := hpow _ ((hzero.le_iff hratio).2 (Nat.zero_le j))
  obtain ⟨k, hk⟩ := exists_stands hlow
  exact ⟨k, (hk.le_iff stands_one).1 hhigh, hk⟩

theorem exists_stands_signals (hpow : Scalar.Decays halfPow) (h : new settings = .ok s)
    (hword : settings.halfLife < 2 ^ 64) (w : Weights Float) (newest : Int) (v : Visit) :
    ∃ c ≤ one, ∃ n ≤ one, Stands (s.scoredBy halfPow w newest v).coherence c ∧
      Stands (s.scoredBy halfPow w newest v).novelty n := by
  rw [← (new_eq_ok h).1] at hword
  obtain ⟨c, hc, hcoherence⟩ :=
    Salience.exists_stands_coherence (.ofPath ("/".intercalate v.names)) (v.names.length - 1)
  obtain ⟨n, hn, hnovelty⟩ := exists_stands_novelty hpow (halfLife_pos h) hword (newest - v.modified).toNat
  exact ⟨c, hc, n, hn, hcoherence, hnovelty⟩

end Scanner

/-! ### Weights -/

namespace Weights

/-- Weights are ones that may be given. -/
def Accepted (w : Weights Float) : Prop :=
  new w.coherence w.novelty = .ok w
deriving Decidable

/-- The weighted sum of the signals of a file. -/
def sum (w : Weights Float) (f : SalientFile Float) : Float :=
  w.coherence * f.coherence + w.novelty * f.novelty

theorem exists_stands_of_check {name : String} {x y : Float} (h : check name x = .ok y) : ∃ k < top, Stands x k := by
  rw [check] at h
  split at h
  · cases h
  · rename_i haccepted
    rw [Bool.or_eq_true, Bool.not_eq_true', decide_eq_true_eq, not_or, Bool.not_eq_false] at haccepted
    exact exists_stands_of_isFinite haccepted.1 haccepted.2

theorem Accepted.exists_stands {w : Weights Float} (h : w.Accepted) :
    ∃ i < top, ∃ j < top, Stands w.coherence i ∧ Stands w.novelty j := by
  unfold Accepted new at h
  cases hcoherence : check "coherence_weight" w.coherence with
  | error e =>
    rw [hcoherence] at h
    cases h
  | ok c =>
    cases hnovelty : check "novelty_weight" w.novelty with
    | error e =>
      rw [hcoherence, hnovelty] at h
      cases h
    | ok n =>
      obtain ⟨i, hi, hfirst⟩ := exists_stands_of_check hcoherence
      obtain ⟨j, hj, hsecond⟩ := exists_stands_of_check hnovelty
      exact ⟨i, hi, j, hj, hfirst, hsecond⟩

variable {w w' : Weights Float} {f f' : SalientFile Float} {c n : Nat}

/-- A weighted sum is not more than the sum of the weights. -/
theorem Accepted.exists_stands_sum (h : w.Accepted) (hc : c ≤ one) (hn : n ≤ one)
    (hcoherence : Stands f.coherence c) (hnovelty : Stands f.novelty n) :
    ∃ k l, k ≤ l ∧ Stands (w.sum f) k ∧ Stands (w.coherence + w.novelty) l := by
  obtain ⟨i, hi, j, hj, hfirst, hsecond⟩ := h.exists_stands
  obtain ⟨a, ha, hleft⟩ := exists_stands_mul hfirst hcoherence hi hc
  obtain ⟨b, hb, hright⟩ := exists_stands_mul hsecond hnovelty hj hn
  obtain ⟨k, hk, -, -⟩ := exists_stands_add hleft hright
  obtain ⟨l, hl, -, -⟩ := exists_stands_add hfirst hsecond
  exact ⟨k, l, add_mono hleft hright hfirst hsecond ha hb hk hl, hk, hl⟩

/-- Raising the weights does not lower the weighted sum of signals that stay as they are. -/
theorem Accepted.sum_mono (h : w.Accepted) (h' : w'.Accepted) (hfirst : w.coherence ≤ w'.coherence)
    (hsecond : w.novelty ≤ w'.novelty) (hc : c ≤ one) (hn : n ≤ one) (hcoherence : Stands f.coherence c)
    (hnovelty : Stands f.novelty n) (hcoherence' : Stands f'.coherence c) (hnovelty' : Stands f'.novelty n)
    {k k' : Nat} (hk : Stands (w.sum f) k) (hk' : Stands (w'.sum f') k') : k ≤ k' := by
  obtain ⟨i, hi, j, hj, hwc, hwn⟩ := h.exists_stands
  obtain ⟨i', hi', j', hj', hwc', hwn'⟩ := h'.exists_stands
  obtain ⟨a, -, hleft⟩ := exists_stands_mul hwc hcoherence hi hc
  obtain ⟨b, -, hright⟩ := exists_stands_mul hwn hnovelty hj hn
  obtain ⟨a', -, hleft'⟩ := exists_stands_mul hwc' hcoherence' hi' hc
  obtain ⟨b', -, hright'⟩ := exists_stands_mul hwn' hnovelty' hj' hn
  have hctop := hc.trans_lt (show one < top by decide)
  have hntop := hn.trans_lt (show one < top by decide)
  have ha := mul_mono hwc hcoherence hwc' hcoherence' ((hwc.le_iff hwc').1 hfirst) le_rfl hi' hctop hleft hleft'
  have hb := mul_mono hwn hnovelty hwn' hnovelty' ((hwn.le_iff hwn').1 hsecond) le_rfl hj' hntop hright hright'
  exact add_mono hleft hright hleft' hright' ha hb hk hk'

/-- What the score of a file is like under weights. -/
structure Scores (w : Weights Float) (f : SalientFile Float) : Prop where
  /-- It is a number if and only if the weighted sum has not overflowed. -/
  isNaN_iff : f.salience.isNaN = true ↔ (w.sum f).isFinite = false
  unit : (w.sum f).isFinite = true → 0.0 ≤ f.salience ∧ f.salience ≤ 1.0
  lt_one : w.sum f < 9007199254740992.0 → f.salience < 1.0
  sum_le : w.sum f ≤ w.coherence + w.novelty

section

variable (hf : f.salience = w.sum f / (1.0 + w.sum f))

include hf

theorem Accepted.scores (h : w.Accepted) (hc : c ≤ one) (hn : n ≤ one) (hcoherence : Stands f.coherence c)
    (hnovelty : Stands f.novelty n) : w.Scores f := by
  obtain ⟨k, l, hkl, hk, hl⟩ := h.exists_stands_sum hc hn hcoherence hnovelty
  have hzero : Stands 0.0 0 := stands_of_toNat_toBits rfl (by decide)
  have hlimit : Stands 9007199254740992.0 ((53 + 1023) * 2 ^ 52) :=
    stands_of_toNat_toBits (by decide) (by decide)
  have hsum : w.sum f ≤ w.coherence + w.novelty := (hk.le_iff hl).2 hkl
  by_cases hfinite : k < top
  · obtain ⟨d, j, hscoring⟩ := Salience.exists_scoring hk hfinite
    have hscore := hscoring.score
    rw [← hf] at hscore
    refine ⟨?_, fun _ => ⟨?_, ?_⟩, fun hless => ?_, hsum⟩
    · rw [hscore.isNaN_eq, hk.isFinite_iff.2 hfinite]
      exact iff_of_false nofun nofun
    · exact (hzero.le_iff hscore).2 (Nat.zero_le j)
    · exact (hscore.le_iff stands_one).2 hscoring.le_one
    · exact (hscore.lt_iff stands_one).2 (hscoring.lt_one ((hk.lt_iff hlimit).1 hless))
  · have hoverflow : (w.sum f).isFinite = false := by
      rw [← Bool.not_eq_true, hk.isFinite_iff]
      exact hfinite
    have hktop : k = top := le_antisymm hk.le_top (Nat.not_lt.1 hfinite)
    obtain ⟨d, hd, -, hkd⟩ := exists_stands_add stands_one hk
    have hdtop : d = top := le_antisymm hd.le_top (hktop ▸ hkd)
    refine ⟨iff_of_true ?_ hoverflow, fun hnone => ?_, fun hless => ?_, hsum⟩
    · rw [hf]
      exact isNaN_div_of_top hk hd hktop hdtop
    · rw [hoverflow] at hnone
      cases hnone
    · have hlt := (hk.lt_iff hlimit).1 hless
      exact absurd (hktop ▸ hlt) (by decide)

end

/-- What raising weights to `w'` does to the score of a file. -/
structure Raises (w w' : Weights Float) (f f' : SalientFile Float) : Prop where
  sum_le : w.sum f ≤ w'.sum f'
  /-- Rounding makes the score lower by two doubles at most. -/
  height_le : (w'.sum f').isFinite = true → height f.salience ≤ height f'.salience + 2

theorem Accepted.raises (h : w.Accepted) (h' : w'.Accepted) (hfirst : w.coherence ≤ w'.coherence)
    (hsecond : w.novelty ≤ w'.novelty) (hc : c ≤ one) (hn : n ≤ one) (hcoherence : Stands f.coherence c)
    (hnovelty : Stands f.novelty n) (hcoherence' : Stands f'.coherence c) (hnovelty' : Stands f'.novelty n)
    (hf : f.salience = w.sum f / (1.0 + w.sum f)) (hf' : f'.salience = w'.sum f' / (1.0 + w'.sum f')) :
    w.Raises w' f f' := by
  obtain ⟨k, -, -, hk, -⟩ := h.exists_stands_sum hc hn hcoherence hnovelty
  obtain ⟨k', -, -, hk', -⟩ := h'.exists_stands_sum hc hn hcoherence' hnovelty'
  have hle := h.sum_mono h' hfirst hsecond hc hn hcoherence hnovelty hcoherence' hnovelty' hk hk'
  refine ⟨(hk.le_iff hk').2 hle, fun hfinite => ?_⟩
  have hfinite' := hk'.isFinite_iff.1 hfinite
  obtain ⟨l, j, hscoring⟩ := Salience.exists_scoring hk (hle.trans_lt hfinite')
  obtain ⟨l', j', hscoring'⟩ := Salience.exists_scoring hk' hfinite'
  rw [hf, hf', hscoring.score.height_eq, hscoring'.score.height_eq]
  have hscores := hscoring.le_add_two hscoring' hle
  omega

end Weights

/-! ### Snapshots -/

namespace Snapshot

variable (root : String) (percentile : Float) {files : List (SalientFile Float)}

/-- Some file is salient as long as scores are numbers. -/
theorem salient_ne_nil (hne : files ≠ []) (hfiles : ∀ f ∈ files, f.salience.isNaN = false) :
    (ofFiles root percentile files).salient ≠ [] := by
  have hscores : ∀ x ∈ files.map (·.salience), x.isNaN = false := List.forall_mem_map.2 hfiles
  obtain ⟨f, hf, hthreshold⟩ := List.mem_map.1
    (Salience.atRank_threshold (List.map_eq_nil_iff.not.2 hne) hscores percentile).mem
  have hle : (ofFiles root percentile files).threshold ≤ f.salience := by
    have hat : (ofFiles root percentile files).threshold = f.salience := hthreshold.symm
    rw [hat]
    exact (le_iff_height_le (hfiles f hf) (hfiles f hf)).2 le_rfl
  exact List.ne_nil_of_mem ((mem_salient_iff root percentile f).2 ⟨hf, hle⟩)

/-- No file is salient if no score is a number. -/
theorem salient_eq_nil (hfiles : ∀ f ∈ files, f.salience.isNaN = true) :
    (ofFiles root percentile files).salient = [] := by
  refine List.eq_nil_iff_forall_not_mem.2 fun f hf => ?_
  obtain ⟨hmem, hle⟩ := (mem_salient_iff root percentile f).1 hf
  have hnumber := (isNaN_eq_false_of_le hle).2
  rw [hfiles f hmem] at hnumber
  cases hnumber

end Snapshot

namespace Scanner

variable {s : Scanner} {settings : IntrospectionSettings} {halfPow : Float → Float} {w : Weights Float}

/-- A scan with some power of one half. -/
def scanBy (s : Scanner) (halfPow : Float → Float) (w : Weights Float) (world : World) (root : String) :
    Except Error (Snapshot Float) :=
  @scan Float (.doubles halfPow) s world root w

theorem scanBy_pow (s : Scanner) (w : Weights Float) (world : World) (root : String) :
    s.scanBy (Float.pow 0.5) w world root = s.scan world root w :=
  rfl

theorem exists_of_scanBy_eq_ok {world : World} {root : String} {snapshot : Snapshot Float}
    (h : s.scanBy halfPow w world root = .ok snapshot) :
    ∃ place visits, snapshot = s.snapshotBy halfPow w (Path.absolute place) visits := by
  unfold scanBy scan at h
  split at h
  · cases h
  · rename_i place _
    split at h
    · cases h
      exact ⟨place, _, rfl⟩
    · cases h

/-- Scores under accepted weights are numbers from zero to one unless the weighted sum overflows, and less than one
unless it reaches `2 ^ 53`.  Raising the weights lowers a score by no more than rounding does.  So some file is salient
in every scan that has processed any, as long as the sum of the weights is finite. -/
theorem scores_scoredBy (hpow : Scalar.Decays halfPow) (h : new settings = .ok s)
    (hword : settings.halfLife < Nat.pow 2 64) (hw : w.Accepted) :
    (∀ newest v, w.Scores (s.scoredBy halfPow w newest v)) ∧
    (∀ w' : Weights Float, w'.Accepted → w.coherence ≤ w'.coherence → w.novelty ≤ w'.novelty →
      ∀ newest v, w.Raises w' (s.scoredBy halfPow w newest v) (s.scoredBy halfPow w' newest v)) ∧
    ((w.coherence + w.novelty).isFinite = true → ∀ world root snapshot,
      s.scanBy halfPow w world root = .ok snapshot → 0 < snapshot.processed → snapshot.salient ≠ []) := by
  have hscores : ∀ newest v, w.Scores (s.scoredBy halfPow w newest v) := by
    intro newest v
    obtain ⟨c, hc, n, hn, hcoherence, hnovelty⟩ := exists_stands_signals hpow h hword w newest v
    exact hw.scores rfl hc hn hcoherence hnovelty
  refine ⟨hscores, fun w' hw' hfirst hsecond newest v => ?_, fun hfinite world root snapshot hscan hsome => ?_⟩
  · obtain ⟨c, hc, n, hn, hcoherence, hnovelty⟩ := exists_stands_signals hpow h hword w newest v
    exact hw.raises hw' hfirst hsecond hc hn hcoherence hnovelty hcoherence hnovelty rfl rfl
  · obtain ⟨place, visits, rfl⟩ := exists_of_scanBy_eq_ok hscan
    rw [snapshotBy_eq] at hsome ⊢
    refine Snapshot.salient_ne_nil _ _ (List.length_pos_iff.1 hsome) (List.forall_mem_map.2 fun v _ => ?_)
    obtain ⟨c, hc, n, hn, hcoherence, hnovelty⟩ := exists_stands_signals hpow h hword w (newest visits) v
    obtain ⟨k, l, hkl, hk, hl⟩ := hw.exists_stands_sum hc hn hcoherence hnovelty
    have hsum := hk.isFinite_iff.2 (hkl.trans_lt (hl.isFinite_iff.1 hfinite))
    rw [← Bool.not_eq_true, (hscores (newest visits) v).isNaN_iff, hsum]
    nofun

theorem decays_samplePow : Scalar.Decays samplePow := by
  intro x _
  rw [samplePow]
  split
  · decide
  · split <;> decide

theorem scores_scoredBy_sampleWorld :
    Scalar.Decays samplePow ∧ new sampleSettings = .ok sampleScanner ∧
      Weights.Accepted .standard ∧ Weights.Accepted ⟨0.6, 0.5⟩ ∧
      (∀ newest v, Weights.standard.Scores (sampleScanner.scoredBy samplePow .standard newest v)) ∧
      (∀ newest v, Weights.standard.Raises ⟨0.6, 0.5⟩ (sampleScanner.scoredBy samplePow .standard newest v)
        (sampleScanner.scoredBy samplePow ⟨0.6, 0.5⟩ newest v)) ∧
      ∃ snapshot, sampleScanner.scanBy samplePow .standard sampleWorld "/tree" = .ok snapshot ∧
        snapshot.processed = 2 ∧ snapshot.salient ≠ [] := by
  have hnew : new sampleSettings = .ok sampleScanner := rfl
  have hstandard : Weights.Accepted .standard := rfl
  have hraised : Weights.Accepted ⟨0.6, 0.5⟩ := rfl
  have hscan : sampleScanner.scanBy samplePow .standard sampleWorld "/tree" =
      .ok (sampleScanner.snapshotBy samplePow .standard "/tree" (sampleScanner.visits (.dir sampleEntries))) :=
    @scan_eq_ok Float (.doubles samplePow) sampleScanner .standard _ _ _ _ reaches_sampleWorld rfl
  have hcount : (sampleScanner.visits (.dir sampleEntries)).length = 2 := by decide +kernel
  have hprocessed : (sampleScanner.snapshotBy samplePow .standard "/tree"
      (sampleScanner.visits (.dir sampleEntries))).processed = 2 := (List.length_map _).trans hcount
  obtain ⟨hscores, hraises, hsalient⟩ := scores_scoredBy decays_samplePow hnew (by decide) hstandard
  exact ⟨decays_samplePow, hnew, hstandard, hraised, hscores, hraises _ hraised (by decide) (by decide), _, hscan,
    hprocessed, hsalient (by decide) _ _ _ hscan (hprocessed ▸ Nat.two_pos)⟩

/-- The newest file of a tree, in its root. -/
def sampleFile : Visit :=
  ⟨["a.rs"], 0⟩

/-- With great weights the only file of a tree has no score and is not salient, or has the score one.  With small ones
its score is lower after a weight has been raised. -/
theorem scores_sampleFile :
    (Weights.Accepted ⟨1e308, 1e308⟩ ∧
      (openScanner.scoredBy samplePow ⟨1e308, 1e308⟩ 0 sampleFile).salience.isNaN = true ∧
      (openScanner.snapshotBy samplePow ⟨1e308, 1e308⟩ "/tree" [sampleFile]).processed = 1 ∧
      (openScanner.snapshotBy samplePow ⟨1e308, 1e308⟩ "/tree" [sampleFile]).salient = []) ∧
    (Weights.Accepted ⟨4503599627370496.0, 4503599627370496.0⟩ ∧
      (openScanner.scoredBy samplePow ⟨4503599627370496.0, 4503599627370496.0⟩ 0 sampleFile).salience = 1.0) ∧
    (Weights.Accepted ⟨0.732595708849, 1.0⟩ ∧ Weights.Accepted ⟨0.7325957088490002, 1.0⟩ ∧
      (0.732595708849 : Float) < 0.7325957088490002 ∧
      (openScanner.scoredBy samplePow ⟨0.7325957088490002, 1.0⟩ 0 sampleFile).salience <
        (openScanner.scoredBy samplePow ⟨0.732595708849, 1.0⟩ 0 sampleFile).salience) := by
  have hnone : (openScanner.scoredBy samplePow ⟨1e308, 1e308⟩ 0 sampleFile).salience.isNaN = true := by
    decide +kernel
  refine ⟨⟨by decide +kernel, hnone, rfl, ?_⟩, by decide +kernel, by decide +kernel⟩
  rw [snapshotBy_eq]
  exact Snapshot.salient_eq_nil _ _ (List.forall_mem_singleton.2 hnone)

end Scanner

end EchoEngine
