import EchoEngine.Parameters
import Mathlib.Data.List.Sort
import Mathlib.Data.String.Basic

/-!
# Parameters as JSON

A parameter that is written as JSON and read again is the same, save that each double within it that is not finite
has become null (`ofJson_toJson`).  Integers and doubles are kept apart, since the reader asks for the kind of a number
and not for its value.

Values are nested, and facts about them go by induction on the nesting (`ParamValue.induction`).  What is within a
value at any depth is told by `Holds`.
-/

namespace EchoEngine

open Std (ExtTreeMap)

/-- A list with ascending keys is the list of the map that it makes. -/
theorem toList_ofList {β : Type} {entries : List (String × β)} (h : (entries.map Prod.fst).Pairwise (· < ·)) :
    (ExtTreeMap.ofList entries compare).toList = entries := by
  have hdistinct : entries.Pairwise fun a b => ¬compare a.1 b.1 = .eq :=
    (List.pairwise_map.1 h).imp fun {a b} hlt heq => hlt.ne (Std.compare_eq_iff_eq.1 heq)
  have hget {key : String} {v : β} (hmem : (key, v) ∈ entries) : (ExtTreeMap.ofList entries compare)[key]? = some v :=
    ExtTreeMap.getElem?_ofList_of_mem Std.ReflOrd.compare_self hdistinct hmem
  have hirrefl : Std.Irrefl fun a b : String × β => compare a.1 b.1 = .lt :=
    ⟨fun a hlt => absurd (Std.ReflOrd.compare_self.symm.trans hlt) nofun⟩
  have hasymm : Std.Asymm fun a b : String × β => compare a.1 b.1 = .lt :=
    ⟨fun a b hab hba => (compare_lt_iff_lt.1 hab).asymm (compare_lt_iff_lt.1 hba)⟩
  refine List.Pairwise.eq_of_mem_iff ExtTreeMap.ordered_keys_toList ?_ ?_
  · exact (List.pairwise_map.1 h).imp fun {a b} hlt => compare_lt_iff_lt.2 hlt
  · rintro ⟨key, v⟩
    rw [ExtTreeMap.mem_toList_iff_getElem?_eq_some]
    refine ⟨fun hsome => ?_, hget⟩
    have hkey : key ∈ ExtTreeMap.ofList entries compare :=
      ExtTreeMap.mem_iff_isSome_getElem?.2 (Option.isSome_iff_exists.2 ⟨v, hsome⟩)
    rw [ExtTreeMap.mem_ofList, List.contains_iff_mem, List.mem_map] at hkey
    obtain ⟨⟨key, v'⟩, hmem, rfl⟩ := hkey
    rwa [← Option.some_inj.1 ((hget hmem).symm.trans hsome)]

namespace Json

theorem canonicalItems_eq (items : List Json) : canonicalItems items = items.map canonical := by
  induction items with
  | nil => rfl
  | cons v vs ih => rw [canonicalItems, ih, List.map_cons]

theorem canonicalMembers_eq (members : List (String × Json)) :
    canonicalMembers members = members.map fun m => (m.1, m.2.canonical) := by
  induction members with
  | nil => rfl
  | cons m rest ih => rw [canonicalMembers, ih, List.map_cons]

end Json

namespace ParamValue

/-! ### Nesting -/

/-- What holds of a list whenever it holds of its items, and of a map whenever it holds of its values, holds of all. -/
@[elab_as_elim]
theorem induction {motive : ParamValue → Prop} (null : motive null) (bool : ∀ b, motive (bool b))
    (int : ∀ n, motive (int n)) (float : ∀ x, motive (float x)) (text : ∀ s, motive (text s))
    (list : ∀ items, (∀ v ∈ items, motive v) → motive (list items))
    (map : ∀ entries, (∀ e ∈ entries, motive e.2) → motive (map entries)) (v : ParamValue) : motive v :=
  match v with
  | .null => null
  | .bool b => bool b
  | .int n => int n
  | .float x => float x
  | .text s => text s
  | .list items => list items fun v _ => induction null bool int float text list map v
  | .map entries => map entries fun e hmem =>
    have hsmall : sizeOf e.2 < sizeOf entries := by
      have hentry := List.sizeOf_lt_of_mem hmem
      rw [Prod.mk.sizeOf_spec] at hentry
      omega
    induction null bool int float text list map e.2
termination_by v

/-- A value is another one or within it. -/
inductive Holds (w : ParamValue) : ParamValue → Prop
  | self : Holds w w
  | list {items : List ParamValue} {v : ParamValue} (hmem : v ∈ items) (h : Holds w v) : Holds w (list items)
  | map {entries : List (String × ParamValue)} {e : String × ParamValue} (hmem : e ∈ entries) (h : Holds w e.2) :
    Holds w (map entries)

/-- No map of a value has a key twice, and keys are ascending. -/
def Ordered (v : ParamValue) : Prop :=
  ∀ entries, Holds (map entries) v → (entries.map Prod.fst).Pairwise (· < ·)

theorem Ordered.of_list {items : List ParamValue} (h : Ordered (list items)) : ∀ v ∈ items, Ordered v :=
  fun _ hmem entries hholds => h entries (.list hmem hholds)

theorem Ordered.of_map {entries : List (String × ParamValue)} (h : Ordered (map entries)) :
    ∀ e ∈ entries, Ordered e.2 :=
  fun _ hmem entries' hholds => h entries' (.map hmem hholds)

/-- All doubles within a value are finite. -/
def Finite (v : ParamValue) : Prop :=
  ∀ x, Holds (float x) v → x.isFinite = true

theorem finite_float_iff {x : Float} : Finite (float x) ↔ x.isFinite = true := by
  refine ⟨fun h => h x .self, fun h y hholds => ?_⟩
  cases hholds
  exact h

theorem finite_list_iff {items : List ParamValue} : Finite (list items) ↔ ∀ v ∈ items, Finite v := by
  refine ⟨fun h v hmem x hholds => h x (.list hmem hholds), fun h x hholds => ?_⟩
  cases hholds with
  | list hmem hholds => exact h _ hmem x hholds

theorem finite_map_iff {entries : List (String × ParamValue)} : Finite (map entries) ↔ ∀ e ∈ entries, Finite e.2 := by
  refine ⟨fun h e hmem x hholds => h x (.map hmem hholds), fun h x hholds => ?_⟩
  cases hholds with
  | map hmem hholds => exact h _ hmem x hholds

/-! ### The value that is read -/

mutual

/-- The value with null for each double that is not finite. -/
def settled : ParamValue → ParamValue
  | float x => if x.isFinite then float x else null
  | list items => list (settledItems items)
  | map entries => map (settledEntries entries)
  | v => v
termination_by structural v => v

def settledItems : List ParamValue → List ParamValue
  | [] => []
  | v :: vs => v.settled :: settledItems vs
termination_by structural vs => vs

def settledEntries : List (String × ParamValue) → List (String × ParamValue)
  | [] => []
  | (k, v) :: rest => (k, v.settled) :: settledEntries rest
termination_by structural es => es

end

theorem settledItems_eq (items : List ParamValue) : settledItems items = items.map settled := by
  induction items with
  | nil => rfl
  | cons v vs ih => rw [settledItems, ih, List.map_cons]

theorem settledEntries_eq (entries : List (String × ParamValue)) :
    settledEntries entries = entries.map fun e => (e.1, e.2.settled) := by
  induction entries with
  | nil => rfl
  | cons e rest ih => rw [settledEntries, ih, List.map_cons]

theorem itemsToJson_eq (items : List ParamValue) : itemsToJson items = items.map toJson := by
  induction items with
  | nil => rfl
  | cons v vs ih => rw [itemsToJson, ih, List.map_cons]

theorem entriesToJson_eq (entries : List (String × ParamValue)) :
    entriesToJson entries = entries.map fun e => (e.1, e.2.toJson) := by
  induction entries with
  | nil => rfl
  | cons e rest ih => rw [entriesToJson, ih, List.map_cons]

theorem itemsOfJson_eq (items : List Json) : itemsOfJson items = items.map ofJson := by
  induction items with
  | nil => rfl
  | cons v vs ih => rw [itemsOfJson, ih, List.map_cons]

theorem entriesOfJson_eq (members : List (String × Json)) :
    entriesOfJson members = members.map fun m => (m.1, ofJson m.2) := by
  induction members with
  | nil => rfl
  | cons m rest ih => rw [entriesOfJson, ih, List.map_cons]

/-- An integer of a parameter is in the range in which numbers are read as integers. -/
theorem ofInt_toInt (n : Int64) : ofInt n.toInt = int n := by
  have hlow := Int64.le_toInt n
  have hhigh := Int64.toInt_lt n
  rw [ofInt, if_pos ⟨hlow, hhigh⟩, Int64.ofInt_toInt]

theorem ofJson_toJson (v : ParamValue) : ofJson v.toJson = v.settled := by
  induction v using induction with
  | null | bool | text => rfl
  | int n => exact ofInt_toInt n
  | float x =>
    rw [toJson, Json.ofFloat, settled]
    cases x.isFinite <;> rfl
  | list items ih =>
    rw [toJson, ofJson, settled, itemsToJson_eq, itemsOfJson_eq, settledItems_eq, List.map_map]
    exact congrArg _ (List.map_congr_left ih)
  | map entries ih =>
    rw [toJson, ofJson, settled, entriesToJson_eq, entriesOfJson_eq, settledEntries_eq, List.map_map]
    exact congrArg _ (List.map_congr_left fun e he => congrArg _ (ih e he))

theorem settled_eq_self_iff (v : ParamValue) : v.settled = v ↔ v.Finite := by
  induction v using induction with
  | null | bool | int | text => exact iff_of_true rfl fun _ h => nomatch h
  | float x =>
    rw [settled, finite_float_iff]
    cases x.isFinite <;> simp
  | list items ih =>
    have hsame := List.map_inj_left (l := items) (f := settled) (g := id)
    rw [List.map_id] at hsame
    rw [settled, settledItems_eq, list.injEq, finite_list_iff, hsame]
    exact forall₂_congr ih
  | map entries ih =>
    have hsame := List.map_inj_left (l := entries) (f := fun e => (e.1, e.2.settled)) (g := id)
    rw [List.map_id] at hsame
    rw [settled, settledEntries_eq, map.injEq, finite_map_iff, hsame]
    refine forall₂_congr fun e he => ?_
    rw [← ih e he, Prod.ext_iff]
    exact and_iff_right rfl

/-- An ordered value is written as a map sees it. -/
theorem canonical_toJson {v : ParamValue} (h : v.Ordered) : v.toJson.canonical = v.toJson := by
  induction v using induction with
  | null | bool | int | text => rfl
  | float x =>
    rw [toJson, Json.ofFloat]
    cases x.isFinite <;> rfl
  | list items ih =>
    rw [toJson, itemsToJson_eq, Json.canonical, Json.canonicalItems_eq, List.map_map]
    exact congrArg _ (List.map_congr_left fun v hmem => ih v hmem (h.of_list v hmem))
  | map entries ih =>
    have hsame : Json.canonicalMembers (entriesToJson entries) = entriesToJson entries := by
      rw [entriesToJson_eq, Json.canonicalMembers_eq, List.map_map]
      exact List.map_congr_left fun e hmem => congrArg _ (ih e hmem (h.of_map e hmem))
    have hascending : ((entriesToJson entries).map Prod.fst).Pairwise (· < ·) := by
      rw [entriesToJson_eq, List.map_map]
      exact h entries .self
    rw [toJson, Json.canonical, hsame, Json.sortMembers, toList_ofList hascending]

end ParamValue

theorem ParamValue.asText?_eq_none {v : ParamValue} (h : ∀ s, v ≠ text s) : v.asText? = none := by
  cases v with
  | text s => exact absurd rfl (h s)
  | _ => rfl

namespace Parameters

/-! ### Optional parameters -/

section

variable {β : Type} {p : Parameters} {expected key : String} {view : ParamValue → Option β} {v : ParamValue}

theorem contains_eq_isSome_get? : p.contains key = (p.get? key).isSome :=
  ExtTreeMap.contains_eq_isSome_getElem?

theorem optAs_of_absent (h : p.get? key = none) : p.optAs expected view key = .ok none := by
  rw [optAs, contains_eq_isSome_get?, h, Option.isSome_none, if_neg Bool.false_ne_true]

/-- An optional parameter that is there is read as it is. -/
theorem optAs_of_get? {a : β} (h : p.get? key = some v) (hview : view v = some a) :
    p.optAs expected view key = .ok (some a) := by
  rw [optAs, contains_eq_isSome_get?, h, Option.isSome_some, if_pos rfl, getAs, require, h]
  simp only [bind, Except.bind, hview]
  rfl

/-- An optional parameter of another kind is not taken for absent. -/
theorem optAs_of_mismatch (h : p.get? key = some v) (hview : view v = none) :
    p.optAs expected view key = .error (.parameterType key expected v.typeName) := by
  rw [optAs, contains_eq_isSome_get?, h, Option.isSome_some, if_pos rfl, getAs, require, h]
  simp only [bind, Except.bind, hview]
  rfl

end

end Parameters

/-- A value, and parameters, survive being written as JSON and read again, where null stands for a double that has no
JSON.  So values remain the same exactly if all their doubles are finite.  In the JSON of a value whose maps are
ordered, members are ordered too. -/
theorem Parameters.survive_json (v : ParamValue) (p : Parameters) :
    (ParamValue.ofJson v.toJson = v.settled ∧ (ParamValue.ofJson v.toJson = v ↔ v.Finite) ∧
      (v.Ordered → v.toJson.canonical = v.toJson)) ∧
    ∃ q, ofJson p.toJson = .ok q ∧ ∀ key, q.get? key = (p.get? key).map ParamValue.settled := by
  have hvalue := ParamValue.ofJson_toJson v
  refine ⟨⟨hvalue, hvalue ▸ ParamValue.settled_eq_self_iff v, ParamValue.canonical_toJson⟩, ?_⟩
  have hentries : ParamValue.entriesOfJson (ParamValue.entriesToJson p.toList) =
      (p.values.map fun _ => ParamValue.settled).toList := by
    rw [ParamValue.entriesToJson_eq, ParamValue.entriesOfJson_eq, List.map_map, ExtTreeMap.toList_map]
    exact List.map_congr_left fun e _ => congrArg _ (ParamValue.ofJson_toJson e.2)
  have hread : ofJson p.toJson = .ok ⟨p.values.map fun _ => ParamValue.settled⟩ := by
    rw [toJson, ofJson, hentries, ExtTreeMap.toList_inj.1 (toList_ofList ?_)]
    rw [ExtTreeMap.map_fst_toList_eq_keys]
    exact ExtTreeMap.ordered_keys.imp fun hlt => compare_lt_iff_lt.1 hlt
  exact ⟨_, hread, fun key => ExtTreeMap.getElem?_map⟩

namespace ParamValue

/-- A value with a double that is not finite, a negative zero and a whole number as a double. -/
def sampleValue : ParamValue :=
  map [("limits", list [float (1 / 0), int 3, float 3]), ("zero", float (-0.0))]

theorem ordered_sampleValue : sampleValue.Ordered := by
  intro entries hholds
  cases hholds with
  | self => decide
  | map hmem hholds =>
    simp only [List.mem_cons, List.not_mem_nil, or_false] at hmem
    rcases hmem with rfl | rfl
    · cases hholds with
      | list hmem hholds =>
        simp only [List.mem_cons, List.not_mem_nil, or_false] at hmem
        rcases hmem with rfl | rfl | rfl <;> cases hholds
    · cases hholds

end ParamValue

theorem Parameters.survive_json_sampleValue :
    ParamValue.sampleValue.Ordered ∧
      ParamValue.ofJson ParamValue.sampleValue.toJson =
        .map [("limits", .list [.null, .int 3, .float 3]), ("zero", .float (-0.0))] ∧
      ParamValue.sampleValue.toJson.canonical = ParamValue.sampleValue.toJson := by
  obtain ⟨⟨hread, -, hcanonical⟩, -⟩ := survive_json ParamValue.sampleValue .empty
  refine ⟨ParamValue.ordered_sampleValue, hread.trans ?_, hcanonical ParamValue.ordered_sampleValue⟩
  rfl

end EchoEngine
