import EchoEngine.Error
import EchoEngine.ParamValue

/-!
# Parameters

Parameters are values by name. Reading one fails with the cause: no such parameter, or a value of
another kind. An optional parameter may be absent, but not of another kind.
-/

namespace EchoEngine

open Std (ExtTreeMap)

structure Parameters where
  values : ExtTreeMap String ParamValue

namespace Parameters

def empty : Parameters :=
  ⟨∅⟩

instance : Inhabited Parameters := ⟨empty⟩

def insert (p : Parameters) (key : String) (value : ParamValue) : Parameters :=
  ⟨p.values.insert key value⟩

def get? (p : Parameters) (key : String) : Option ParamValue :=
  p.values[key]?

def contains (p : Parameters) (key : String) : Bool :=
  p.values.contains key

def size (p : Parameters) : Nat :=
  p.values.size

/-- The parameters in ascending order of their names. -/
def toList (p : Parameters) : List (String × ParamValue) :=
  p.values.toList

def require (p : Parameters) (key : String) : Except Error ParamValue :=
  match p.get? key with
  | some v => .ok v
  | none => .error (.missingParameter key)

/-- A required parameter read through `view`, which knows values called `expected`. -/
def getAs (p : Parameters) (expected : String) (view : ParamValue → Option α) (key : String) :
    Except Error α := do
  let v ← p.require key
  match view v with
  | some a => .ok a
  | none => .error (.parameterType key expected v.typeName)

/-- An optional parameter read through `view`. -/
def optAs (p : Parameters) (expected : String) (view : ParamValue → Option α) (key : String) :
    Except Error (Option α) :=
  if p.contains key then (p.getAs expected view key).map some else .ok none

def getText (p : Parameters) (key : String) : Except Error String :=
  p.getAs "string" ParamValue.asText? key

def getFloat (p : Parameters) (key : String) : Except Error Float :=
  p.getAs "number" ParamValue.asFloat? key

def getInt (p : Parameters) (key : String) : Except Error Int64 :=
  p.getAs "integer" ParamValue.asInt? key

def getBool (p : Parameters) (key : String) : Except Error Bool :=
  p.getAs "bool" ParamValue.asBool? key

def getMap (p : Parameters) (key : String) : Except Error (List (String × ParamValue)) :=
  p.getAs "map" ParamValue.asMap? key

def optText (p : Parameters) (key : String) : Except Error (Option String) :=
  p.optAs "string" ParamValue.asText? key

def optFloat (p : Parameters) (key : String) : Except Error (Option Float) :=
  p.optAs "number" ParamValue.asFloat? key

def optInt (p : Parameters) (key : String) : Except Error (Option Int64) :=
  p.optAs "integer" ParamValue.asInt? key

def optBool (p : Parameters) (key : String) : Except Error (Option Bool) :=
  p.optAs "bool" ParamValue.asBool? key

def toJson (p : Parameters) : Json :=
  .obj (ParamValue.entriesToJson p.toList)

/-- Parameters come from an object and from nothing else. -/
def ofJson : Json → Except Error Parameters
  | .obj members => .ok ⟨ExtTreeMap.ofList (ParamValue.entriesOfJson members) compare⟩
  | v => .error (.invalidParameter
      ("parameters must be an object, got " ++ (ParamValue.ofJson v).typeName))

/-- Parameters as a field of a record, whose objects may still hold repeats. -/
def ofJson? : Json.Reader Parameters := fun v =>
  (Json.Reader.members ParamValue.ofJson? v).map fun es => ⟨ExtTreeMap.ofList es compare⟩

/-- Equality of parameters, doubles compared as numbers. -/
def same (p q : Parameters) : Bool :=
  ParamValue.sameEntries p.toList q.toList

end Parameters

end EchoEngine
