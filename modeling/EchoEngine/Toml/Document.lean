import EchoEngine.Json.Basic

/-!
# TOML documents

A document is a tree of tables that is built statement by statement. A header opens a table, or one
more element of an array of tables; an assignment gives a key of the open table a value. Keys with
dots create the tables on their way. Nothing is defined twice: a table is opened by one header at
most, and a table made by dots is extended by dots only.
-/

namespace EchoEngine.Toml

inductive Item where
  | value (v : Json)
  /-- A table. It is implicit until a header opens it, and dotted if the dots of an assignment made
  it. -/
  | table (isImplicit isDotted : Bool) (items : List (String × Item))
  /-- An array of tables, the newest one first. -/
  | tables (elements : List (List (String × Item)))
deriving Inhabited

/-- What a table holds. -/
abbrev Items := List (String × Item)

namespace Items

/-- The items with one of them set. -/
def set (key : String) (item : Item) : Items → Items
  | [] => [(key, item)]
  | (other, old) :: rest =>
    if other = key then (key, item) :: rest else (other, old) :: set key item rest

/-- Changes the table that a path leads to. Tables that are missing on the way are made, and belong
to dots if `viaDots` holds; dots do not lead through a table that a header has opened. The change is
told whether its table belongs to dots. -/
def update (viaDots : Bool) (change : Bool → Items → Option Items) (isDotted : Bool) (items : Items) :
    List String → Option Items
  | [] => change isDotted items
  | key :: path =>
    match items.lookup key with
    | none => do
      let sub ← update viaDots change viaDots [] path
      return items ++ [(key, .table true viaDots sub)]
    | some (.value _) => none
    | some (.table isImplicit isDotted sub) =>
      if viaDots && !isImplicit then none
      else do
        let sub ← update viaDots change isDotted sub path
        return set key (.table isImplicit isDotted sub) items
    | some (.tables []) => none
    | some (.tables (last :: others)) => do
      let last ← update viaDots change false last path
      return set key (.tables (last :: others)) items

/-- Opens the table of a header. -/
def openTable (key : String) (items : Items) : Option Items :=
  match items.lookup key with
  | none => some (items ++ [(key, .table false false [])])
  | some (.table true false sub) => some (set key (.table false false sub) items)
  | some _ => none

/-- Opens one more element of an array of tables. -/
def openElement (key : String) (items : Items) : Option Items :=
  match items.lookup key with
  | none => some (items ++ [(key, .tables [[]])])
  | some (.tables elements) => some (set key (.tables ([] :: elements)) items)
  | some _ => none

/-- Gives a key a value in the table that the dots before it lead to. -/
def assign (path : List String) (key : String) (v : Json) (isDotted : Bool) (items : Items) :
    Option Items :=
  update true (fun isDotted sub =>
    if isDotted = path.isEmpty ∨ (sub.lookup key).isSome then none
    else some (sub ++ [(key, .value v)])) isDotted items path

end Items

/-- A statement of a document. -/
inductive Statement where
  | header (path : List String) (key : String)
  | elementHeader (path : List String) (key : String)
  | assignment (path : List String) (key : String) (v : Json)

/-- A document that is being built: the tables so far, and the path to the open one. -/
structure Document where
  items : Items
  current : List String

namespace Document

def empty : Document :=
  ⟨[], []⟩

/-- The document after one more statement. -/
def add (d : Document) : Statement → Option Document
  | .header path key => do
    return ⟨← d.items.update false (fun _ sub => sub.openTable key) false path, path ++ [key]⟩
  | .elementHeader path key => do
    return ⟨← d.items.update false (fun _ sub => sub.openElement key) false path, path ++ [key]⟩
  | .assignment path key v => do
    return ⟨← d.items.update false (fun _ sub => sub.assign path key v false) false d.current, d.current⟩

end Document

mutual

/-- The value of an item. -/
def Item.toJson : Item → Json
  | .value v => v
  | .table _ _ items => .obj (itemsToJson items)
  | .tables elements => .arr (elementsToJson elements).reverse
termination_by structural i => i

def itemsToJson : List (String × Item) → List (String × Json)
  | [] => []
  | (key, item) :: rest => (key, item.toJson) :: itemsToJson rest
termination_by structural is => is

def elementsToJson : List (List (String × Item)) → List Json
  | [] => []
  | items :: rest => .obj (itemsToJson items) :: elementsToJson rest
termination_by structural es => es

end

/-- The table of a document. -/
def Document.toJson (d : Document) : Json :=
  .obj (itemsToJson d.items)

/-- The inline table of assignments. -/
def inlineTable? (assignments : List (List String × String × Json)) : Option Json := do
  let items ← assignments.foldlM (fun (items : Items) (path, key, v) => items.assign path key v false) []
  return .obj (itemsToJson items)

end EchoEngine.Toml
