import EchoEngine.Decimal.Shortest

/-!
# How a double is written

One record, `Layout`, says where positional notation ends and what is written around the digits. The
formats of this library are values of it: `Layout.plain`, `Layout.json`, `Layout.toml` and
`Layout.inspected`. A fixed number of places is written by `fixed`, which rounds the exact binary
value and sends a tie to the even digit.
-/

namespace EchoEngine.Decimal

structure Layout where
  /-- Magnitudes that are written without an exponent; `none` admits every one. -/
  positional : Option (Int × Int)
  /-- Whether a positional integer ends in `.0`. -/
  keepsPoint : Bool
  /-- Whether a positive exponent has a plus sign. -/
  signsExponent : Bool
  undefined : String
  infinity : String
deriving DecidableEq, Repr

namespace Layout

/-- Error messages: digits only, without an exponent or a closing `.0`. -/
def plain : Layout := ⟨none, false, false, "NaN", "inf"⟩

/-- Values in JSON text; a number that is not finite has no text there and becomes `null`. -/
def json : Layout := ⟨some (-5, 15), true, true, "null", "null"⟩

/-- Values in a configuration file. -/
def toml : Layout := ⟨none, true, false, "nan", "inf"⟩

/-- Values inside an inspected record. -/
def inspected : Layout := ⟨some (-4, 15), true, false, "NaN", "inf"⟩

def isPositional (l : Layout) (magnitude : Int) : Bool :=
  match l.positional with
  | none => true
  | some (low, high) => low ≤ magnitude ∧ magnitude ≤ high

end Layout

def zeros (n : Nat) : String :=
  String.ofList (List.replicate n '0')

/-- Positional notation of a decimal: the point stands after the digit of magnitude zero. -/
def positional (keepsPoint : Bool) (d : Scaled) : String :=
  let digits := toString d.digits
  match d.exponent with
  | .ofNat e => digits ++ zeros e ++ (if keepsPoint then ".0" else "")
  | .negSucc e =>
    let places := e + 1
    let chars := digits.toList
    if places < chars.length then
      String.ofList (chars.take (chars.length - places)) ++ "."
        ++ String.ofList (chars.drop (chars.length - places))
    else "0." ++ zeros (places - chars.length) ++ digits

/-- Exponent notation of a decimal: one digit, the others after a point, the magnitude. -/
def scientific (signsExponent : Bool) (d : Scaled) : String :=
  let chars := (toString d.digits).toList
  let rest := String.ofList (chars.drop 1)
  let magnitude := d.magnitude
  String.ofList (chars.take 1) ++ (if rest.isEmpty then "" else "." ++ rest) ++ "e"
    ++ (if signsExponent && decide (0 ≤ magnitude) then "+" else "") ++ toString magnitude

/-- A double in a layout. -/
def render (l : Layout) (x : Float) : String :=
  match Binary.ofFloat x with
  | .undefined => l.undefined
  | .infinite negative =>
    if negative ∧ l.infinity ≠ "null" then "-" ++ l.infinity else l.infinity
  | .finite negative m q =>
    let d := shortest m q
    let body :=
      if m = 0 ∨ l.isPositional d.magnitude then positional l.keepsPoint d
      else scientific l.signsExponent d
    if negative then "-" ++ body else body

/-- `num / den` rounded to the nearest natural number, a tie to the even one. -/
def roundDiv (num den : Nat) : Nat :=
  let q := num / den
  let r := num % den
  if 2 * r < den then q else if den < 2 * r then q + 1 else if q % 2 = 0 then q else q + 1

/-- A double with a fixed number of places. -/
def fixed (places : Nat) (x : Float) : String :=
  match Binary.ofFloat x with
  | .undefined => Layout.plain.undefined
  | .infinite negative => (if negative then "-" else "") ++ Layout.plain.infinity
  | .finite negative m q =>
    let r := Ratio.ofBinary m q
    let scaled := roundDiv (r.num * Nat.pow 10 places) r.den
    let whole := toString (scaled / Nat.pow 10 places)
    let part := toString (scaled % Nat.pow 10 places)
    (if negative then "-" else "") ++ whole
      ++ (if places = 0 then "" else "." ++ zeros (places - part.length) ++ part)

end EchoEngine.Decimal
