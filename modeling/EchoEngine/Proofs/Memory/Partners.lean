import EchoEngine.Proofs.Memory.Extension
import EchoEngine.Proofs.Text.Terms
import Mathlib.Data.Set.Card

/-!
# Partners

The partners of a file are found by counting, over its topics, the other files that carry them.  They
are the files that share enough topics with it, of those that not too many files carry
(`mem_partners`).  Wherever the topics of files are what they carry, that relation is symmetric and
says nothing of which file has come first.
-/

namespace EchoEngine

open Std (ExtTreeMap ExtTreeSet)

variable {α : Type}

namespace MemoryGraph

/-- Not too many files carry a topic for it to link them. -/
def Distinctive (g : MemoryGraph α) (topic : String) : Prop :=
  (g.carriers.members topic).size ≤ g.settings.maxTopicFanout

theorem mem_sharers {g : MemoryGraph α} {key topic other : String} :
    other ∈ g.sharers key topic ↔
      g.Distinctive topic ∧ other ∈ g.carriers.members topic ∧ other ≠ key := by
  unfold sharers Distinctive
  dsimp only
  split
  · rename_i h
    simp [Nat.not_le.2 h]
  · rename_i h
    simp [Nat.not_lt.1 h]

private theorem nodup_sharers (g : MemoryGraph α) (key topic : String) : (g.sharers key topic).Nodup := by
  unfold sharers
  dsimp only
  split
  · exact List.nodup_nil
  · exact List.Nodup.filter _ (KeySets.nodup_toList _)

private theorem count_flatMap_sharers (g : MemoryGraph α) (key other : String) (topics : List String) :
    (topics.flatMap (g.sharers key)).count other
      = (topics.filter fun t => other ∈ g.sharers key t).length := by
  induction topics with
  | nil => rfl
  | cons t topics ih =>
    rw [List.flatMap_cons, List.count_append, ih, (nodup_sharers g key t).count, List.filter_cons]
    by_cases h : other ∈ g.sharers key t
    · simp [h, Nat.add_comm]
    · simp [h]

/-- The topics of a node that link another key to it. -/
private def links (g : MemoryGraph α) (key : String) (n : MemoryNode α) (other : String) : List String :=
  n.topics.toList.filter fun t => other ∈ g.sharers key t

private theorem mem_links {g : MemoryGraph α} {key other t : String} {n : MemoryNode α} :
    t ∈ g.links key n other ↔
      t ∈ n.topics ∧ g.Distinctive t ∧ other ∈ g.carriers.members t ∧ other ≠ key := by
  rw [links, List.mem_filter, ExtTreeSet.mem_toList, decide_eq_true_eq, mem_sharers]

private theorem mem_partners_of_node {g : MemoryGraph α} {key other : String} {n : MemoryNode α}
    (hn : g.node? key = some n) :
    other ∈ g.partners key ↔
      g.links key n other ≠ [] ∧ g.settings.minSharedTopics ≤ (g.links key n other).length := by
  have hcount : (n.topics.toList.flatMap (g.sharers key)).count other = (g.links key n other).length :=
    count_flatMap_sharers g key other n.topics.toList
  have hmem : other ∈ n.topics.toList.flatMap (g.sharers key) ↔ g.links key n other ≠ [] := by
    rw [← List.count_pos_iff, hcount, List.length_pos_iff]
  have htally : ∀ c, (other, c) ∈ (Text.tally (n.topics.toList.flatMap (g.sharers key))).toList ↔
      g.links key n other ≠ [] ∧ (g.links key n other).length = c := by
    intro c
    rw [ExtTreeMap.mem_toList_iff_getElem?_eq_some, Text.getElem?_tally, hcount, ← hmem]
    split
    · rename_i h
      simp [h]
    · rename_i h
      simp [h]
  simp only [partners, hn, List.mem_map, List.mem_filter, decide_eq_true_eq]
  constructor
  · rintro ⟨⟨o, c⟩, ⟨hc, hmin⟩, ho⟩
    subst ho
    obtain ⟨hne, hlength⟩ := (htally c).1 hc
    exact ⟨hne, hlength ▸ hmin⟩
  · rintro ⟨hne, hmin⟩
    exact ⟨(other, _), ⟨(htally _).2 ⟨hne, rfl⟩, hmin⟩, rfl⟩

private theorem exists_node_of_mem_partners {g : MemoryGraph α} {key other : String}
    (h : other ∈ g.partners key) : ∃ n, g.node? key = some n := by
  unfold partners at h
  split at h
  · exact ⟨_, ‹_›⟩
  · contradiction

/-- What is a partner carries a topic. -/
theorem exists_carrier_of_mem_partners {g : MemoryGraph α} {key other : String}
    (h : other ∈ g.partners key) : ∃ topic, other ∈ g.carriers.members topic := by
  obtain ⟨n, hn⟩ := exists_node_of_mem_partners h
  obtain ⟨t, ht⟩ := List.exists_mem_of_ne_nil _ ((mem_partners_of_node hn).1 h).1
  exact ⟨t, (mem_links.1 ht).2.2.1⟩

/-! ### Partners as a relation -/

/-- A path carries a topic if its node has it. -/
def Indexed (g : MemoryGraph α) : Prop :=
  ∀ key t, IsPath key → (key ∈ g.carriers.members t ↔ ∃ n, g.node? key = some n ∧ t ∈ n.topics)

/-- The topics that link two keys. -/
def common (g : MemoryGraph α) (a b : String) : Set String :=
  {t | g.Distinctive t ∧ a ∈ g.carriers.members t ∧ b ∈ g.carriers.members t}

/-- Two keys have enough topics in common, and at least one. -/
structure Partners (g : MemoryGraph α) (a b : String) : Prop where
  ne : a ≠ b
  nonempty : (g.common a b).Nonempty
  enough : g.settings.minSharedTopics ≤ (g.common a b).encard

theorem Partners.symm {g : MemoryGraph α} {a b : String} (h : g.Partners a b) : g.Partners b a := by
  have hcommon : g.common b a = g.common a b := by
    ext t
    exact and_congr_right fun _ => and_comm
  refine ⟨h.ne.symm, ?_, ?_⟩
  · rw [hcommon]
    exact h.nonempty
  · rw [hcommon]
    exact h.enough

/-- Partners stay partners where they have no less in common. -/
theorem Partners.of_common_subset {g g' : MemoryGraph α} {a b : String} (h : g.Partners a b)
    (hsettings : g'.settings = g.settings) (hcommon : g.common a b ⊆ g'.common a b) : g'.Partners a b where
  ne := h.ne
  nonempty := h.nonempty.mono hcommon
  enough := by
    rw [hsettings]
    exact h.enough.trans (Set.encard_le_encard hcommon)

/-- The partners of a path are the keys that have enough topics in common with it. -/
theorem mem_partners {g : MemoryGraph α} (h : g.Indexed) {key other : String} (hkey : IsPath key) :
    other ∈ g.partners key ↔ g.Partners key other := by
  -- the list that is counted has each topic in common once
  have hlinks : ∀ n, g.node? key = some n → other ≠ key →
      g.common key other = ((g.links key n other).toFinset : Set String) := by
    intro n hn hne
    have htopics : ∀ t, t ∈ n.topics ↔ key ∈ g.carriers.members t := by
      intro t
      rw [h key t hkey, hn]
      simp
    ext t
    rw [List.coe_toFinset, Set.mem_ofPred_eq, mem_links, htopics]
    simp only [common, Set.mem_ofPred_eq]
    tauto
  have hlength : ∀ n, g.node? key = some n → other ≠ key →
      (g.common key other).encard = (g.links key n other).length := by
    intro n hn hne
    rw [hlinks n hn hne, Set.encard_coe_eq_coe_finsetCard, List.toFinset_card_of_nodup]
    exact List.Nodup.filter _ (KeySets.nodup_toList _)
  constructor
  · intro hmem
    obtain ⟨n, hn⟩ := exists_node_of_mem_partners hmem
    obtain ⟨hnil, hmin⟩ := (mem_partners_of_node hn).1 hmem
    obtain ⟨t, ht⟩ := List.exists_mem_of_ne_nil _ hnil
    have hne := (mem_links.1 ht).2.2.2
    refine ⟨hne.symm, ⟨t, ?_⟩, ?_⟩
    · rw [hlinks n hn hne]
      simpa using ht
    · rw [hlength n hn hne]
      exact_mod_cast hmin
  · rintro ⟨hne, ⟨t, ht⟩, hmin⟩
    obtain ⟨n, hn, -⟩ := (h key t hkey).1 ht.2.1
    rw [hlinks n hn hne.symm] at ht
    rw [hlength n hn hne.symm] at hmin
    refine (mem_partners_of_node hn).2 ⟨List.ne_nil_of_mem (a := t) (by simpa using ht), ?_⟩
    exact_mod_cast hmin

/-! ### Growing carriers -/

private theorem size_le_of_subset {s t : ExtTreeSet String} (h : ∀ x ∈ s, x ∈ t) : s.size ≤ t.size := by
  rw [← ExtTreeSet.length_toList, ← ExtTreeSet.length_toList]
  refine (List.subperm_of_subset (KeySets.nodup_toList s) ?_).length_le
  intro x hx
  rw [ExtTreeSet.mem_toList] at hx ⊢
  exact h x hx

/-- The more files carry topics, the fewer topics are distinctive. -/
theorem Distinctive.anti {g g' : MemoryGraph α} (h : g.Extends g') {topic : String}
    (htopic : g'.Distinctive topic) : g.Distinctive topic := by
  unfold Distinctive at *
  rw [h.settings] at htopic
  exact (size_le_of_subset (h.carrier topic)).trans htopic

end MemoryGraph

end EchoEngine
