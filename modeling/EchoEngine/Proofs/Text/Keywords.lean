import EchoEngine.Proofs.Ranking
import EchoEngine.Proofs.Text.Terms
import Mathlib.Algebra.BigOperators.Group.Finset.Basic
import Mathlib.Algebra.GroupWithZero.Nat

/-!
# Keywords

Keywords are the first terms of a text by their counts, and equal counts are in the order of the alphabet.  No two
terms share a place in this order, so what is cut off ranks below all that is listed, also where counts are the same
(`leads_take`).  Counting forgets in which order terms come, and so do keywords (`tally_perm`).
-/

namespace EchoEngine.Text

open Std (ExtTreeMap ExtTreeSet)

/-! ### Counts -/

variable (ts : List String)

theorem mem_tally {e : String × Nat} : e ∈ (tally ts).toList ↔ e.1 ∈ ts ∧ e.2 = ts.count e.1 := by
  rw [ExtTreeMap.mem_toList_iff_getElem?_eq_some, getElem?_tally]
  split <;> simp_all [eq_comm]

theorem nodup_keys_tally : ((tally ts).toList.map Prod.fst).Nodup := by
  rw [List.Nodup, List.pairwise_map]
  refine ExtTreeMap.distinct_keys_toList.imp ?_
  intro a b h he
  exact h (Std.compare_eq_iff_eq.2 he)

theorem toFinset_keys_tally : ((tally ts).toList.map Prod.fst).toFinset = ts.toFinset := by
  ext t
  rw [List.mem_toFinset, List.mem_toFinset, List.mem_map]
  constructor
  · rintro ⟨e, he, rfl⟩
    exact ((mem_tally ts).1 he).1
  · exact fun ht => ⟨(t, ts.count t), (mem_tally ts).2 ⟨ht, rfl⟩, rfl⟩

theorem length_toList_tally : (tally ts).toList.length = ts.toFinset.card := by
  rw [← toFinset_keys_tally, List.toFinset_card_of_nodup (nodup_keys_tally ts), List.length_map]

/-- The counts of all terms add up to how many terms there are. -/
theorem sum_tally : ((tally ts).toList.map Prod.snd).sum = ts.length := by
  have hcounts : (tally ts).toList.map Prod.snd = ((tally ts).toList.map Prod.fst).map ts.count := by
    rw [List.map_map]
    exact List.map_congr_left fun e he => ((mem_tally ts).1 he).2
  rw [hcounts, ← List.sum_toFinset _ (nodup_keys_tally ts), toFinset_keys_tally, List.sum_toFinset_count_eq_length]

theorem tally_perm {ts us : List String} (h : us.Perm ts) : tally us = tally ts := by
  apply ExtTreeMap.ext_getElem?
  intro t
  rw [getElem?_tally, getElem?_tally, h.count_eq]
  simp only [h.mem_iff]

/-! ### Ranks -/

/-- A counted term ranks above another one: it is counted more often, or as often and comes first in the alphabet. -/
def Outranks (a b : String × Nat) : Prop :=
  b.2 < a.2 ∨ a.2 = b.2 ∧ a.1 < b.1

theorem ranksBy_ranksBefore : RanksBy ranksBefore Prod.snd Prod.fst := by
  intro a b
  simp [ranksBefore]

/-- The counted terms of a tally in the order of their ranks. -/
def ranking : List (String × Nat) :=
  (tally ts).toList.mergeSort ranksBefore

theorem perm_ranking : (ranking ts).Perm (tally ts).toList :=
  List.mergeSort_perm _ _

theorem pairwise_ranking : (ranking ts).Pairwise Outranks :=
  ranksBy_ranksBefore.pairwise_mergeSort (nodup_keys_tally ts)

/-! ### The terms that lead -/

/-- Some counted terms lead all that are counted: they are as many as the limit allows, in the order of their ranks,
with their counts, and every other term ranks below each of them. -/
structure Leads (leading : List (String × Nat)) (members : Finset String) (count : String → Nat) (limit : Nat) :
    Prop where
  length : leading.length = min limit members.card
  ordered : leading.Pairwise Outranks
  counted : ∀ e ∈ leading, e.1 ∈ members ∧ e.2 = count e.1
  rest : ∀ t ∈ members, t ∉ leading.map Prod.fst → ∀ e ∈ leading, Outranks e (t, count t)

theorem leads_take (limit : Nat) : Leads ((ranking ts).take limit) ts.toFinset ts.count limit where
  length := by
    rw [List.length_take, (perm_ranking ts).length_eq, length_toList_tally]
  ordered := (pairwise_ranking ts).sublist (List.take_sublist _ _)
  counted := by
    intro e he
    have hmem := (perm_ranking ts).mem_iff.1 (List.mem_of_mem_take he)
    rw [List.mem_toFinset]
    exact (mem_tally ts).1 hmem
  rest := by
    intro t ht hout e he
    have hmem : (t, ts.count t) ∈ (ranking ts).take limit ++ (ranking ts).drop limit := by
      rw [List.take_append_drop, (perm_ranking ts).mem_iff, mem_tally]
      exact ⟨List.mem_toFinset.1 ht, rfl⟩
    have hpairs := pairwise_ranking ts
    rw [← List.take_append_drop limit (ranking ts), List.pairwise_append] at hpairs
    rcases List.mem_append.1 hmem with htake | hdrop
    · exact absurd (List.mem_map_of_mem htake) hout
    · exact hpairs.2.2 e he _ hdrop

/-! ### Keywords -/

/-- Keywords lead the terms of a text by their counts.  Fewer keywords are the first ones of more, all of them together
count every term of the text, and they are the same for the same terms in any order. -/
theorem leads_keywords (s : String) :
    (∀ limit, Leads (keywords s limit) (terms s).toFinset (terms s).count limit) ∧
    (∀ fewer more, fewer ≤ more → keywords s fewer <+: keywords s more) ∧
    (∀ limit, (terms s).toFinset.card ≤ limit → ((keywords s limit).map Prod.snd).sum = (terms s).length) ∧
    ∀ t, (terms t).Perm (terms s) → ∀ limit, keywords t limit = keywords s limit := by
  refine ⟨leads_take (terms s), ?shorter, ?all, ?reordered⟩
  case shorter =>
    intro fewer more h
    exact List.take_prefix_take_left h
  case all =>
    intro limit h
    have hlength : (ranking (terms s)).length ≤ limit := by
      rwa [(perm_ranking _).length_eq, length_toList_tally]
    have hall : keywords s limit = ranking (terms s) := List.take_of_length_le hlength
    rw [hall, ((perm_ranking (terms s)).map _).sum_eq, sum_tally]
  case reordered =>
    intro t h limit
    rw [keywords, tally_perm h, keywords]

/-- Equal counts are cut in the order of the alphabet. -/
example : keywords "echo tree echo memory graph tree echo" 3 = [("echo", 3), ("tree", 2), ("graph", 1)] := by
  cbv

theorem leads_keywords_sampleTexts :
    1 ≤ 2 ∧ (terms "echo tree memory echo").toFinset.card ≤ 4 ∧
    (terms "Memory: echo, echo, tree!").Perm (terms "echo tree memory echo") ∧
    Leads (keywords "echo tree memory echo" 2) (terms "echo tree memory echo").toFinset
      (terms "echo tree memory echo").count 2 ∧
    keywords "echo tree memory echo" 1 <+: keywords "echo tree memory echo" 2 ∧
    ((keywords "echo tree memory echo" 4).map Prod.snd).sum = (terms "echo tree memory echo").length ∧
    keywords "Memory: echo, echo, tree!" 2 = keywords "echo tree memory echo" 2 := by
  have hcard : (terms "echo tree memory echo").toFinset.card ≤ 4 := by decide +kernel
  have hperm : (terms "Memory: echo, echo, tree!").Perm (terms "echo tree memory echo") := by decide +kernel
  obtain ⟨hleads, hstart, hsum, hsame⟩ := leads_keywords "echo tree memory echo"
  exact ⟨by decide, hcard, hperm, hleads 2, hstart 1 2 (by decide), hsum 4 hcard, hsame _ hperm 2⟩

end EchoEngine.Text
