import EchoEngine.Json.Printer
import EchoEngine.Json.Record

/-!
# Parameter values

A parameter is one of seven kinds of value, and the accessors read a value only as its own kind, with
the one exception that an integer may be read as a double. A value and its JSON form determine each
other, save that a double which is not finite becomes `null`.
-/

namespace EchoEngine

open Std (ExtTreeMap)

inductive ParamValue where
  | null
  | bool (b : Bool)
  | int (n : Int64)
  | float (x : Float)
  | text (s : String)
  | list (items : List ParamValue)
  | map (entries : List (String × ParamValue))
deriving Inhabited

namespace ParamValue

def typeName : ParamValue → String
  | null => "null"
  | bool _ => "bool"
  | int _ => "integer"
  | float _ => "float"
  | text _ => "string"
  | list _ => "list"
  | map _ => "map"

def asText? : ParamValue → Option String
  | text s => some s
  | _ => none

/-- Integers widen to doubles; nothing else converts. -/
def asFloat? : ParamValue → Option Float
  | int n => some n.toFloat
  | float x => some x
  | _ => none

def asInt? : ParamValue → Option Int64
  | int n => some n
  | _ => none

def asBool? : ParamValue → Option Bool
  | bool b => some b
  | _ => none

def asMap? : ParamValue → Option (List (String × ParamValue))
  | map entries => some entries
  | _ => none

/-- An integer where it fits sixty-four bits with a sign, else the nearest double. -/
def ofInt (n : Int) : ParamValue :=
  if -(Nat.pow 2 63 : Int) ≤ n ∧ n < (Nat.pow 2 63 : Int) then int (Int64.ofInt n) else float (Float.ofInt n)

mutual

def toJson : ParamValue → Json
  | null => .null
  | bool b => .bool b
  | int n => .int n.toInt
  | float x => Json.ofFloat x
  | text s => .str s
  | list items => .arr (itemsToJson items)
  | map entries => .obj (entriesToJson entries)
termination_by structural v => v

def itemsToJson : List ParamValue → List Json
  | [] => []
  | v :: vs => v.toJson :: itemsToJson vs
termination_by structural vs => vs

def entriesToJson : List (String × ParamValue) → List (String × Json)
  | [] => []
  | (k, v) :: rest => (k, v.toJson) :: entriesToJson rest
termination_by structural es => es

end

mutual

/-- The value of a JSON value, member by member. -/
def ofJson : Json → ParamValue
  | .null => null
  | .bool b => bool b
  | .int n => ofInt n
  | .float x => float x
  | .str s => text s
  | .arr items => list (itemsOfJson items)
  | .obj members => map (entriesOfJson members)
termination_by structural v => v

def itemsOfJson : List Json → List ParamValue
  | [] => []
  | v :: vs => ofJson v :: itemsOfJson vs
termination_by structural vs => vs

def entriesOfJson : List (String × Json) → List (String × ParamValue)
  | [] => []
  | (k, v) :: rest => (k, ofJson v) :: entriesOfJson rest
termination_by structural ms => ms

end

mutual

/-- The value as a field of a record: the kinds are tried in the order of their declaration, and the first one that
accepts it is taken. -/
def ofJson? (v : Json) : Option ParamValue :=
  ((Json.Reader.unit v).map fun _ => null)
    <|> (Json.Reader.bool v).map bool
    <|> (Json.Reader.int64 v).map int
    <|> (Json.Reader.float v).map float
    <|> (Json.Reader.string v).map text
    <|> (match v with
      | .arr items => (itemsOfJson? items).map list
      | _ => none)
    <|> (match v with
      | .obj members => (entriesOfJson? members).map fun es => map (ExtTreeMap.ofList es compare).toList
      | _ => none)
termination_by structural v

def itemsOfJson? : List Json → Option (List ParamValue)
  | [] => some []
  | v :: vs => do return (← ofJson? v) :: (← itemsOfJson? vs)
termination_by structural vs => vs

/-- The entries as they are written, repeats included. -/
def entriesOfJson? : List (String × Json) → Option (List (String × ParamValue))
  | [] => some []
  | (k, v) :: rest => do return (k, ← ofJson? v) :: (← entriesOfJson? rest)
termination_by structural ms => ms

end

/-- Text stands for itself, every other value for its JSON text. -/
def display : ParamValue → String
  | text s => s
  | v => v.toJson.compress

mutual

/-- Equality of values, doubles compared as numbers. -/
def same : ParamValue → ParamValue → Bool
  | null, null => true
  | bool a, bool b => a == b
  | int a, int b => a == b
  | float a, float b => a == b
  | text a, text b => a == b
  | list as, list bs => sameItems as bs
  | map as, map bs => sameEntries as bs
  | _, _ => false
termination_by structural v => v

def sameItems : List ParamValue → List ParamValue → Bool
  | [], [] => true
  | a :: as, b :: bs => same a b && sameItems as bs
  | _, _ => false
termination_by structural vs => vs

def sameEntries : List (String × ParamValue) → List (String × ParamValue) → Bool
  | [], [] => true
  | (k, a) :: as, (l, b) :: bs => k == l && same a b && sameEntries as bs
  | _, _ => false
termination_by structural es => es

end

end ParamValue

end EchoEngine
