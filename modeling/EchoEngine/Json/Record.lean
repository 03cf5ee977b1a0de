import EchoEngine.Json.Basic

/-!
# Reading records

The rules by which a value is read as a record. A record is an object, whose unknown members are
ignored and whose known ones must not repeat, or an array of its fields in order. A field may be
required, nullable (absent and `null` mean no value, but a place in an array must be filled), or
defaulted. Numbers are never narrowed: an integer may stand for a double, never the reverse.
-/

namespace EchoEngine.Json

/-- A way to read a value, which may refuse it. -/
abbrev Reader (α : Type) := Json → Option α

/-- The known fields of a record that are present. -/
structure Fields where
  present : List (String × Json)
  /-- The record was given as an array, where only a defaulted field may be missing. -/
  byPlace : Bool

namespace Fields

/-- The fields of a record whose fields are called `names`, in that order. -/
def of? (names : List String) : Json → Option Fields
  | obj members =>
    let known := members.filter fun m => names.contains m.1
    if (known.map Prod.fst).Nodup then some ⟨known, false⟩ else none
  | arr items =>
    if items.length ≤ names.length then some ⟨names.zip items, true⟩ else none
  | _ => none

def required (fs : Fields) (name : String) (read : Reader α) : Option α :=
  (fs.present.lookup name).bind read

def nullable (fs : Fields) (name : String) (read : Reader α) : Option (Option α) :=
  match fs.present.lookup name with
  | none => if fs.byPlace then none else some none
  | some .null => some none
  | some v => (read v).map some

def defaulted (fs : Fields) (name : String) (read : Reader α) (fallback : α) : Option α :=
  match fs.present.lookup name with
  | none => some fallback
  | some v => read v

end Fields

namespace Reader

/-- Only `null` is no value. -/
def unit : Reader Unit
  | .null => some ()
  | _ => none

def string : Reader String
  | .str s => some s
  | _ => none

def bool : Reader Bool
  | .bool b => some b
  | _ => none

/-- An integer of 64 bits with a sign. -/
def int64 : Reader Int64
  | .int n => if -(Nat.pow 2 63 : Int) ≤ n ∧ n < (Nat.pow 2 63 : Int) then some (Int64.ofInt n) else none
  | _ => none

def float : Reader Float
  | .float x => some x
  | .int n => some (Float.ofInt n)
  | _ => none

/-- A natural number below `bound`. -/
def natBelow (bound : Nat) : Reader Nat
  | .int n => if 0 ≤ n ∧ n < bound then some n.toNat else none
  | _ => none

/-- A natural number of 64 bits. -/
def word : Reader Nat :=
  natBelow (Nat.pow 2 64)

def list (read : Reader α) : Reader (List α)
  | .arr items => items.mapM read
  | _ => none

/-- A value or `null`. -/
def nullable (read : Reader α) : Reader (Option α)
  | .null => some none
  | v => (read v).map some

/-- Members of any names, the last one of a name winning. -/
def members (read : Reader α) : Reader (List (String × α))
  | .obj ms => ms.mapM fun (k, v) => (read v).map fun a => (k, a)
  | _ => none

/-- One of finitely many values by its name; the name may also stand as the only member of an object,
with the value `null`. -/
def oneOf (all : List α) (name : α → String) : Reader α
  | .str s => all.find? fun a => name a = s
  | .obj [(s, .null)] => all.find? fun a => name a = s
  | _ => none

end Reader

end EchoEngine.Json
