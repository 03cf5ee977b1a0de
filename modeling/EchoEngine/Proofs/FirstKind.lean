import EchoEngine.Proofs.Parameters
import EchoEngine.Task

/-!
# Values of their first kind

A parameter can be made of a JSON value in two ways.  One looks at what the value is and makes the parameter of it
(`ParamValue.ofJson`); the other tries the kinds of parameters in a fixed order and takes the first that accepts the
value (`ParamValue.ofJson?`), as a field of a record is read.  Both make the same parameter of the same value
(`ofJson?_eq`): an integer is taken before a double is tried, and a double accepts only those integers that are left,
which are out of range.

The second way also reads objects that repeat a name, and reads them as a map sees them.  So parameters within a record
are those of the value that stands in it (`Task.ofJson?_parameters`).
-/

namespace EchoEngine

open Std (ExtTreeMap)

/-! ### Maps of images -/

theorem mapM_eq_some_map {α β : Type} {f : α → Option β} {g : α → β} {l : List α} (h : ∀ a ∈ l, f a = some (g a)) :
    l.mapM f = some (l.map g) := by
  induction l with
  | nil => rfl
  | cons a l ih =>
    rw [List.mapM_cons, h a List.mem_cons_self, ih fun b hb => h b (List.mem_cons_of_mem a hb)]
    rfl

section

variable {β γ : Type} (f : β → γ)

private theorem map_insert (t : ExtTreeMap String β) (key : String) (v : β) :
    (t.insert key v).map (fun _ => f) = (t.map fun _ => f).insert key (f v) := by
  refine ExtTreeMap.ext_getElem? fun other => ?_
  rw [ExtTreeMap.getElem?_map, ExtTreeMap.getElem?_insert, ExtTreeMap.getElem?_insert, ExtTreeMap.getElem?_map]
  split <;> rfl

private theorem map_insertMany (t : ExtTreeMap String β) (l : List (String × β)) :
    (t.insertMany l).map (fun _ => f) = (t.map fun _ => f).insertMany (l.map fun e => (e.1, f e.2)) := by
  induction l generalizing t with
  | nil => rw [List.map_nil, ExtTreeMap.insertMany_nil, ExtTreeMap.insertMany_nil]
  | cons e l ih => rw [List.map_cons, ExtTreeMap.insertMany_cons, ExtTreeMap.insertMany_cons, ih, map_insert]

/-- The last one of a name wins, before values are mapped as after. -/
theorem toList_ofList_map (l : List (String × β)) :
    (ExtTreeMap.ofList (l.map fun e => (e.1, f e.2)) compare).toList
      = (ExtTreeMap.ofList l compare).toList.map fun e => (e.1, f e.2) := by
  have hempty : (∅ : ExtTreeMap String β).map (fun _ => f) = ∅ := rfl
  rw [← ExtTreeMap.toList_map (f := fun _ => f), ExtTreeMap.ofList_eq_insertMany_empty,
    ExtTreeMap.ofList_eq_insertMany_empty, map_insertMany, hempty]

theorem ofList_toList (t : ExtTreeMap String β) : ExtTreeMap.ofList t.toList compare = t := by
  refine ExtTreeMap.toList_inj.1 (toList_ofList ?_)
  rw [ExtTreeMap.map_fst_toList_eq_keys]
  exact ExtTreeMap.ordered_keys.imp fun hlt => compare_lt_iff_lt.1 hlt

end

namespace Json

/-- What holds of an array whenever it holds of its items, and of an object whenever it holds of its members, holds of
all values. -/
@[elab_as_elim]
theorem induction {motive : Json → Prop} (null : motive null) (bool : ∀ b, motive (bool b))
    (int : ∀ n, motive (int n)) (float : ∀ x, motive (float x)) (str : ∀ s, motive (str s))
    (arr : ∀ items, (∀ v ∈ items, motive v) → motive (arr items))
    (obj : ∀ members, (∀ m ∈ members, motive m.2) → motive (obj members)) (v : Json) : motive v :=
  match v with
  | .null => null
  | .bool b => bool b
  | .int n => int n
  | .float x => float x
  | .str s => str s
  | .arr items => arr items fun v _ => induction null bool int float str arr obj v
  | .obj members => obj members fun m hmem =>
    have hsmall : sizeOf m.2 < sizeOf members := by
      have hmember := List.sizeOf_lt_of_mem hmem
      rw [Prod.mk.sizeOf_spec] at hmember
      omega
    induction null bool int float str arr obj m.2
termination_by v

/-- A map sees no more in a value when it sees it again. -/
theorem canonical_canonical (v : Json) : v.canonical.canonical = v.canonical := by
  induction v using induction with
  | null | bool | int | float | str => rfl
  | arr items ih =>
    rw [canonical, canonical, canonicalItems_eq, canonicalItems_eq, List.map_map]
    exact congrArg _ (List.map_congr_left ih)
  | obj members ih =>
    have hsame : (members.map fun m => (m.1, m.2.canonical)).map (fun m => (m.1, m.2.canonical))
        = members.map fun m => (m.1, m.2.canonical) := by
      rw [List.map_map]
      exact List.map_congr_left fun m hmem => congrArg _ (ih m hmem)
    rw [canonical, canonical, canonicalMembers_eq, canonicalMembers_eq, sortMembers, sortMembers, ← toList_ofList_map,
      hsame, ofList_toList]

end Json

namespace ParamValue

/-! ### Kinds in their order -/

theorem itemsOfJson?_eq (items : List Json) : itemsOfJson? items = items.mapM ofJson? := by
  induction items with
  | nil => rfl
  | cons v vs ih =>
    rw [itemsOfJson?, ih, List.mapM_cons]

theorem entriesOfJson?_eq (members : List (String × Json)) :
    entriesOfJson? members = members.mapM fun m => (ofJson? m.2).map fun v => (m.1, v) := by
  induction members with
  | nil => rfl
  | cons m rest ih =>
    rw [entriesOfJson?, ih, List.mapM_cons]
    cases ofJson? m.2 <;> rfl

/-- How a value is read as a parameter of each kind, in the order of the kinds. -/
def kinds : List (Json.Reader ParamValue) :=
  [fun v => (Json.Reader.unit v).map fun _ => null,
    fun v => (Json.Reader.bool v).map bool,
    fun v => (Json.Reader.int64 v).map int,
    fun v => (Json.Reader.float v).map float,
    fun v => (Json.Reader.string v).map text,
    fun v => (Json.Reader.list ofJson? v).map list,
    fun v => (Json.Reader.members ofJson? v).map fun es => map (ExtTreeMap.ofList es compare).toList]

/-- The first kind that accepts a value is taken. -/
theorem ofJson?_eq_findSome? (v : Json) : ofJson? v = kinds.findSome? fun read => read v := by
  have hcons (read : Json.Reader ParamValue) (rest : List (Json.Reader ParamValue)) :
      ((read :: rest).findSome? fun read => read v) = (read v <|> rest.findSome? fun read => read v) := by
    rw [List.findSome?_cons]
    cases read v <;> rfl
  have hnone (o : Option ParamValue) : (o <|> none) = o := by cases o <;> rfl
  simp only [kinds, hcons, hnone, List.findSome?_nil]
  cases v with
  | null | bool | int | float | str => rfl
  | arr items =>
    rw [Json.Reader.list, ← itemsOfJson?_eq]
    rfl
  | obj members =>
    rw [Json.Reader.members, ← entriesOfJson?_eq]
    rfl

/-- Entries whose values are read alike are read as they are written. -/
theorem entriesOfJson?_eq_some {members : List (String × Json)}
    (h : ∀ m ∈ members, ofJson? m.2 = some (ofJson m.2.canonical)) :
    entriesOfJson? members = some (members.map fun m => (m.1, ofJson m.2.canonical)) := by
  rw [entriesOfJson?_eq]
  exact mapM_eq_some_map fun m hmem => congrArg _ (h m hmem)

/-- The entries of an object as a map sees them are the map of its entries. -/
theorem entriesOfJson_sortMembers (members : List (String × Json)) :
    entriesOfJson (Json.sortMembers (Json.canonicalMembers members))
      = (ExtTreeMap.ofList (members.map fun m => (m.1, ofJson m.2.canonical)) compare).toList := by
  rw [entriesOfJson_eq, Json.canonicalMembers_eq, Json.sortMembers, ← toList_ofList_map, List.map_map]
  rfl

/-- Every value is read, as what it is. -/
theorem ofJson?_eq (v : Json) : ofJson? v = some (ofJson v.canonical) := by
  induction v using Json.induction with
  | null | bool | float | str => rfl
  | int n =>
    have hread : ofJson? (.int n) = ((Json.Reader.int64 (.int n)).map int <|> some (float (Float.ofInt n))) := rfl
    have hmade : (Json.int n).canonical = .int n := rfl
    rw [hread, hmade, ofJson, ofInt, Json.Reader.int64]
    split <;> rfl
  | arr items ih =>
    have hread : ofJson? (.arr items) = ((itemsOfJson? items).map list <|> none) := rfl
    rw [hread, itemsOfJson?_eq, mapM_eq_some_map ih, Json.canonical, ofJson, itemsOfJson_eq, Json.canonicalItems_eq,
      List.map_map]
    rfl
  | obj members ih =>
    have hread : ofJson? (.obj members)
      = (entriesOfJson? members).map fun es => map (ExtTreeMap.ofList es compare).toList := rfl
    rw [hread, entriesOfJson?_eq_some ih, Json.canonical, ofJson, entriesOfJson_sortMembers]
    rfl

end ParamValue

/-! ### Parameters of a record -/

/-- Parameters within a record are those of the value there, as a map sees it. -/
theorem Parameters.ofJson?_eq (v : Json) : ofJson? v = (ofJson v.canonical).toOption := by
  cases v with
  | obj members =>
    rw [ofJson?, Json.Reader.members, ← ParamValue.entriesOfJson?_eq,
      ParamValue.entriesOfJson?_eq_some fun m _ => ParamValue.ofJson?_eq m.2, Json.canonical, ofJson,
      ParamValue.entriesOfJson_sortMembers, ofList_toList]
    rfl
  | _ => rfl

namespace Json.Fields

variable {names : List String} {fs : Fields} {key : String} {v : Json}

private theorem lookup_of_mem {entries : List (String × Json)} (hmem : (key, v) ∈ entries)
    (hnodup : (entries.map Prod.fst).Nodup) : entries.lookup key = some v := by
  obtain ⟨before, behind, rfl⟩ := List.append_of_mem hmem
  rw [List.lookup_eq_some_iff]
  refine ⟨before, behind, rfl, fun e he => ?_⟩
  rw [List.map_append, List.map_cons, List.nodup_append] at hnodup
  exact bne_iff_ne.2 (hnodup.2.2 e.1 (List.mem_map_of_mem he) key List.mem_cons_self).symm

/-- A known member of an object that is read as a record is the field of its name. -/
theorem lookup_of_member {members : List (String × Json)} (h : of? names (.obj members) = some fs)
    (hname : key ∈ names) (hmem : (key, v) ∈ members) : fs.present.lookup key = some v := by
  unfold of? at h
  dsimp only at h
  split at h
  · rename_i hnodup
    cases h
    exact lookup_of_mem (List.mem_filter.2 ⟨hmem, List.contains_iff_mem.2 hname⟩) hnodup
  · cases h

/-- Where all places of an array are filled, each item is the field of its place. -/
theorem lookup_of_place {items : List Json} (h : of? names (.arr items) = some fs) (hnodup : names.Nodup)
    (hfilled : names.length ≤ items.length) {i : Nat} (hname : names[i]? = some key) (hplace : items[i]? = some v) :
    fs.present.lookup key = some v := by
  unfold of? at h
  dsimp only at h
  split at h
  · cases h
    refine lookup_of_mem (List.mem_of_getElem? (List.getElem?_zip_eq_some.2 ⟨hname, hplace⟩)) ?_
    rwa [List.map_fst_zip hfilled]
  · cases h

end Json.Fields

namespace Task

/-- A value stands where the parameters of a task are written: as the member of that name, or in the sixth place. -/
inductive Carries (v : Json) : Json → Prop
  | member {members : List (String × Json)} (hmem : ("parameters", v) ∈ members) : Carries v (.obj members)
  | place {items : List Json} (hplace : items[5]? = some v) : Carries v (.arr items)

/-- A record of a task with a value for its parameters. -/
def recordWith (t : Task) (v : Json) : Json :=
  .obj [("id", .str t.id), ("task_type", t.type.toJson), ("input", .str t.input), ("status", t.status.toJson),
    ("agent_id", t.agent.toJson), ("parameters", v)]

theorem ofJson?_recordWith {t : Task} {v : Json} {p : Parameters} (h : Parameters.ofJson? v = some p) :
    ofJson? (t.recordWith v) = some { t with parameters := p } := by
  have hfields : Json.Fields.of? ["id", "task_type", "input", "status", "agent_id", "parameters"] (t.recordWith v)
      = some ⟨[("id", .str t.id), ("task_type", t.type.toJson), ("input", .str t.input), ("status", t.status.toJson),
        ("agent_id", t.agent.toJson), ("parameters", v)], false⟩ := rfl
  have htype : TaskType.ofJson? t.type.toJson = some t.type := by cases t.type <;> rfl
  have hstatus : TaskStatus.ofJson? t.status.toJson = some t.status := by cases t.status <;> rfl
  rw [ofJson?, hfields]
  simp [Json.Fields.required, Json.Fields.defaulted, List.lookup_cons, htype, hstatus, h, Json.Reader.string,
    AgentId.ofJson?, AgentId.toJson]

/-- The parameters of a task that is read are those of the value that its record carries. -/
theorem ofJson?_parameters {v record : Json} {t : Task} (hcarries : Carries v record) (h : ofJson? record = some t) :
    Parameters.ofJson? v = some t.parameters := by
  unfold ofJson? at h
  obtain ⟨fs, hfields, h⟩ := Option.bind_eq_some_iff.1 h
  obtain ⟨id, -, h⟩ := Option.bind_eq_some_iff.1 h
  obtain ⟨type, -, h⟩ := Option.bind_eq_some_iff.1 h
  obtain ⟨input, -, h⟩ := Option.bind_eq_some_iff.1 h
  obtain ⟨status, -, h⟩ := Option.bind_eq_some_iff.1 h
  obtain ⟨agent, -, h⟩ := Option.bind_eq_some_iff.1 h
  obtain ⟨p, hp, h⟩ := Option.bind_eq_some_iff.1 h
  cases h
  have hlookup : fs.present.lookup "parameters" = some v := by
    cases hcarries with
    | member hmem => exact Json.Fields.lookup_of_member hfields (by decide) hmem
    | place hplace =>
      have hfilled := (List.getElem?_eq_some_iff.1 hplace).1
      exact Json.Fields.lookup_of_place hfields (by decide) hfilled rfl hplace
  rw [Json.Fields.defaulted, hlookup] at hp
  exact hp

end Task

namespace Parameters

theorem ofJson?_eq_some_iff {v : Json} {p : Parameters} : ofJson? v = some p ↔ ofJson v.canonical = .ok p := by
  rw [ofJson?_eq]
  cases ofJson v.canonical <;> simp [Except.toOption]

/-- The first kind that accepts a value makes the same parameter of it as a look at what the value is, and a value that
repeats names is read as the map sees it.  So a task that is read carries the parameters that are made of the value in
its record, and one with such parameters is read from a record with that value. -/
theorem decoders_agree (v : Json) :
    (ParamValue.ofJson? v = ParamValue.kinds.findSome? fun read => read v) ∧
    ParamValue.ofJson? v.canonical = some (ParamValue.ofJson v.canonical) ∧
    ParamValue.ofJson? v = ParamValue.ofJson? v.canonical ∧
    (∀ p, ofJson? v = some p ↔ ofJson v.canonical = .ok p) ∧
    (∀ record t, Task.Carries v record → Task.ofJson? record = some t → ofJson v.canonical = .ok t.parameters) ∧
    ∀ (t : Task) p, ofJson v.canonical = .ok p → Task.ofJson? (t.recordWith v) = some { t with parameters := p } := by
  have hcanonical := ParamValue.ofJson?_eq v.canonical
  rw [Json.canonical_canonical] at hcanonical
  refine ⟨ParamValue.ofJson?_eq_findSome? v, hcanonical, ?_, fun _ => ofJson?_eq_some_iff, ?_, ?_⟩
  · rw [hcanonical, ParamValue.ofJson?_eq]
  · intro record t hcarries hread
    exact ofJson?_eq_some_iff.1 (Task.ofJson?_parameters hcarries hread)
  · intro t p hmade
    exact Task.ofJson?_recordWith (ofJson?_eq_some_iff.2 hmade)

/-- The largest integer and the one behind it, a negative zero, empty values within a list, and a name twice. -/
def sampleJson : Json :=
  .obj [("last", .int 9223372036854775807), ("nested", .null), ("beyond", .int 9223372036854775808),
    ("zero", .float (-0.0)), ("nested", .arr [.obj [], .arr [], .obj [("x", .float 1.5), ("x", .bool true)]])]

theorem decoders_agree_sampleJson : ∃ p, ofJson sampleJson.canonical = .ok p ∧
    Task.ofJson? ((Task.new "task-1" .plugin "" ⟨"agent-1"⟩).recordWith sampleJson)
      = some { Task.new "task-1" .plugin "" ⟨"agent-1"⟩ with parameters := p } ∧
    p.get? "last" = some (.int 9223372036854775807) ∧ p.get? "beyond" = some (.float 9223372036854775808) ∧
    p.get? "zero" = some (.float (-0.0)) ∧
    p.get? "nested" = some (.list [.map [], .list [], .map [("x", .bool true)]]) := by
  obtain ⟨-, -, -, -, hcarried, hread⟩ := decoders_agree sampleJson
  have hmade := hread (Task.new "task-1" .plugin "" ⟨"agent-1"⟩) _ rfl
  have hsame := hcarried _ _ (.member (by simp)) hmade
  refine ⟨_, hsame, hmade, ?_, ?_, ?_, ?_⟩
  · rfl
  · rfl
  · rfl
  · rfl

end Parameters

end EchoEngine
