import Std.Data.ExtTreeMap

/-!
# JSON values

A value keeps the members of an object as they were written, repeats included, so that a reader of
records can refuse a repeated member. `canonical` is the value as a map sees it: members in ascending
order of their names, the last one of a name winning.
-/

namespace EchoEngine

open Std (ExtTreeMap)

/-- A JSON value. Integers are those of a signed or an unsigned 64-bit word; every other number is a
double. -/
inductive Json where
  | null
  | bool (b : Bool)
  | int (n : Int)
  | float (x : Float)
  | str (s : String)
  | arr (items : List Json)
  | obj (members : List (String × Json))
deriving Inhabited

namespace Json

/-- The members of an object by name, the last one of a name winning, in ascending order. -/
def sortMembers (members : List (String × Json)) : List (String × Json) :=
  (ExtTreeMap.ofList members compare).toList

mutual

/-- The value with every object's members sorted and without repeats. -/
def canonical : Json → Json
  | arr items => arr (canonicalItems items)
  | obj members => obj (sortMembers (canonicalMembers members))
  | v => v
termination_by structural v => v

def canonicalItems : List Json → List Json
  | [] => []
  | v :: vs => v.canonical :: canonicalItems vs
termination_by structural vs => vs

def canonicalMembers : List (String × Json) → List (String × Json)
  | [] => []
  | (k, v) :: rest => (k, v.canonical) :: canonicalMembers rest
termination_by structural ms => ms

end

/-- The member of an object that is called `key`: the first one that is written. -/
def member? (key : String) : Json → Option Json
  | obj members => members.lookup key
  | _ => none

/-- Whole numbers of a double's own text are doubles: a double that is not finite has no text. -/
def ofFloat (x : Float) : Json :=
  if x.isFinite then float x else null

def ofOption (f : α → Json) : Option α → Json
  | none => null
  | some a => f a

def ofStrings (ss : List String) : Json :=
  arr (ss.map str)

/-- Members that are left out when they have no value. -/
def optionalMember (key : String) (f : α → Json) : Option α → List (String × Json)
  | none => []
  | some a => [(key, f a)]

end Json

end EchoEngine
