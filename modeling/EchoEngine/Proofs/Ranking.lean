import Mathlib.Data.List.Nodup
import Mathlib.Data.String.Basic

/-!
# Rankings

Files are ranked by their scores and terms by their counts: whatever measures more comes first, and what measures the
same comes in the order of names.  Where names differ no two things share a place (`RanksBy.pairwise_mergeSort`), and
the same things have one ranking (`RanksBy.mergeSort_eq_of_perm`).
-/

namespace EchoEngine

/-- A comparison ranks by a measure, greater ones first, and by name where the measures are equal. -/
def RanksBy {α β : Type} [LinearOrder β] (before : α → α → Bool) (measure : α → β) (name : α → String) : Prop :=
  ∀ a b, before a b = true ↔ measure b < measure a ∨ measure a = measure b ∧ name a ≤ name b

namespace RanksBy

variable {α β : Type} [LinearOrder β] {before : α → α → Bool} {measure : α → β} {name : α → String}

theorem trans (h : RanksBy before measure name) {a b c : α} (hab : before a b = true) (hbc : before b c = true) :
    before a c = true := by
  rw [h] at *
  rcases hab with hab | ⟨hab, hname⟩
  · rcases hbc with hbc | ⟨hbc, -⟩
    · exact .inl (hbc.trans hab)
    · exact .inl (hbc ▸ hab)
  · rcases hbc with hbc | ⟨hbc, hname'⟩
    · exact .inl (hab ▸ hbc)
    · exact .inr ⟨hab.trans hbc, hname.trans hname'⟩

theorem total (h : RanksBy before measure name) (a b : α) : before a b || before b a := by
  rw [Bool.or_eq_true, h, h]
  rcases lt_trichotomy (measure b) (measure a) with hlt | heq | hgt
  · exact .inl (.inl hlt)
  · exact (le_total (name a) (name b)).imp (fun hle => .inr ⟨heq.symm, hle⟩) fun hle => .inr ⟨heq, hle⟩
  · exact .inr (.inl hgt)

/-- Things with names of their own are sorted into one strict order. -/
theorem pairwise_mergeSort (h : RanksBy before measure name) {xs : List α} (hnames : (xs.map name).Nodup) :
    (xs.mergeSort before).Pairwise fun a b =>
      measure b < measure a ∨ measure a = measure b ∧ name a < name b := by
  have hsorted : (xs.mergeSort before).Pairwise fun a b => before a b = true :=
    @List.pairwise_mergeSort _ before (fun _ _ _ => h.trans) h.total xs
  have hnodup : ((xs.mergeSort before).map name).Nodup := ((List.mergeSort_perm _ _).map _).nodup_iff.2 hnames
  rw [List.Nodup, List.pairwise_map] at hnodup
  refine (hsorted.and hnodup).imp ?_
  rintro a b ⟨hbefore, hne⟩
  exact ((h a b).1 hbefore).imp_right fun ⟨hmeasure, hname⟩ => ⟨hmeasure, lt_of_le_of_ne hname hne⟩

theorem mergeSort_eq_of_perm (h : RanksBy before measure name) {xs ys : List α} (hperm : ys.Perm xs)
    (hnames : (xs.map name).Nodup) : ys.mergeSort before = xs.mergeSort before := by
  have hys := h.pairwise_mergeSort ((hperm.map _).nodup_iff.2 hnames)
  have hsame := (List.mergeSort_perm ys before).trans (hperm.trans (List.mergeSort_perm xs before).symm)
  refine List.Perm.eq_of_pairwise ?_ hys (h.pairwise_mergeSort hnames) hsame
  intro a b _ _ hab hba
  rcases hab with hab | ⟨hab, hname⟩
  · rcases hba with hba | ⟨hba, -⟩
    · exact absurd hab hba.not_gt
    · exact absurd hba hab.ne
  · rcases hba with hba | ⟨-, hname'⟩
    · exact absurd hab hba.ne
    · exact absurd hname hname'.not_gt

end RanksBy

end EchoEngine
