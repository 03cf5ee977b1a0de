import Std.Data.ExtTreeMap
import Std.Data.ExtTreeSet

/-!
# Named sets of keys

The memory graph keeps several families of sets of keys: the neighbors of each key, the files of each
directory, the carriers of each topic. A name that is not bound stands for the empty set.
-/

namespace EchoEngine

open Std (ExtTreeMap ExtTreeSet)

/-- Sets of keys by name. -/
abbrev KeySets := ExtTreeMap String (ExtTreeSet String)

namespace KeySets

/-- The keys in the set of a name. -/
def members (sets : KeySets) (name : String) : ExtTreeSet String :=
  sets[name]?.getD ∅

/-- The sets with one more key under a name. -/
def enroll (sets : KeySets) (name key : String) : KeySets :=
  sets.insert name ((sets.members name).insert key)

/-- The sets with a key taken from those under a name, if that is bound. -/
def withdraw (sets : KeySets) (name key : String) : KeySets :=
  sets.modify name fun keys => keys.erase key

/-- A set lists no key twice. -/
theorem nodup_toList (keys : ExtTreeSet String) : keys.toList.Nodup := by
  refine ExtTreeSet.distinct_toList.imp ?_
  intro a b h he
  exact h (Std.compare_eq_iff_eq.2 he)

@[simp] theorem members_empty (name : String) : members ∅ name = ∅ := by
  simp [members]

/-- Without a name, its set is empty. -/
theorem members_erase (sets : KeySets) (name other : String) :
    members (sets.erase name) other = if name = other then ∅ else sets.members other := by
  rw [members, ExtTreeMap.getElem?_erase]
  simp only [Std.compare_eq_iff_eq]
  split <;> rfl

theorem members_enroll (sets : KeySets) (name key other : String) :
    (sets.enroll name key).members other
      = if name = other then (sets.members name).insert key else sets.members other := by
  unfold enroll
  rw [members, ExtTreeMap.getElem?_insert]
  simp only [Std.compare_eq_iff_eq]
  split <;> rfl

theorem getElem?_enroll (sets : KeySets) (name key other : String) :
    (sets.enroll name key)[other]?
      = if name = other then some ((sets.members name).insert key) else sets[other]? := by
  unfold enroll
  rw [ExtTreeMap.getElem?_insert]
  simp only [Std.compare_eq_iff_eq]

/-- A key is in a set after enrolling if it has been enrolled there just now or before. -/
@[simp] theorem mem_members_enroll {sets : KeySets} {name key other x : String} :
    x ∈ (sets.enroll name key).members other ↔ (other = name ∧ x = key) ∨ x ∈ sets.members other := by
  rw [members_enroll]
  split
  · subst_vars
    rw [ExtTreeSet.mem_insert, Std.compare_eq_iff_eq, eq_comm]
    simp
  · rename_i h
    simp [Ne.symm h]

/-- Enrolling keys one after another adds them all. -/
theorem mem_members_foldl_enroll {β : Type} (name key : β → String) (xs : List β) (sets : KeySets)
    (other k : String) :
    k ∈ (xs.foldl (fun sets x => sets.enroll (name x) (key x)) sets).members other ↔
      (∃ x ∈ xs, other = name x ∧ k = key x) ∨ k ∈ sets.members other := by
  induction xs generalizing sets with
  | nil => simp
  | cons x xs ih =>
    rw [List.foldl_cons, ih, mem_members_enroll, ← or_assoc]
    simp only [List.mem_cons, or_and_right, exists_or, exists_eq_left]
    exact or_congr_left or_comm

/-- Enrolling a key where it is already changes nothing. -/
theorem enroll_of_mem {sets : KeySets} {name key : String} (h : key ∈ sets.members name) :
    sets.enroll name key = sets := by
  apply ExtTreeMap.ext_getElem?
  intro k
  unfold enroll
  rw [ExtTreeMap.getElem?_insert]
  split
  · rename_i hk
    obtain rfl := Std.compare_eq_iff_eq.1 hk
    cases hs : sets[name]? with
    | none => simp [members, hs] at h
    | some keys =>
      have hmem : key ∈ keys := by simpa [members, hs] using h
      have : keys.insert key = keys := by
        apply ExtTreeSet.ext_mem
        intro x
        rw [ExtTreeSet.mem_insert, Std.compare_eq_iff_eq]
        constructor
        · rintro (rfl | hx)
          · exact hmem
          · exact hx
        · exact .inr
      simp [members, hs, this]
  · rfl

theorem members_withdraw (sets : KeySets) (name key other : String) :
    (sets.withdraw name key).members other
      = if name = other then (sets.members name).erase key else sets.members other := by
  unfold withdraw
  rw [members, ExtTreeMap.getElem?_modify]
  simp only [Std.compare_eq_iff_eq]
  split
  · rename_i h
    subst h
    cases h : sets[name]? <;> simp [members, h]
  · rfl

theorem getElem?_withdraw (sets : KeySets) (name key other : String) :
    (sets.withdraw name key)[other]?
      = if name = other then sets[name]?.map fun keys => keys.erase key else sets[other]? := by
  unfold withdraw
  rw [ExtTreeMap.getElem?_modify]
  simp only [Std.compare_eq_iff_eq]

/-- A key is in a set after one has been withdrawn if it was there and is not the one withdrawn. -/
@[simp] theorem mem_members_withdraw {sets : KeySets} {name key other x : String} :
    x ∈ (sets.withdraw name key).members other ↔ ¬(other = name ∧ x = key) ∧ x ∈ sets.members other := by
  rw [members_withdraw]
  split
  · subst_vars
    rw [ExtTreeSet.mem_erase, ne_eq, Std.compare_eq_iff_eq, eq_comm]
    simp
  · rename_i h
    simp [Ne.symm h]

end KeySets

end EchoEngine
