import EchoEngine.Decimal.Binary

/-!
# Numerals

Reading digits, numerals in a text, and the nearest double to a decimal numeral.
-/

namespace EchoEngine.Decimal

/-- The value of a run of decimal digits. -/
def natOfDigits (digits : List Char) : Nat :=
  digits.foldl (fun n c => 10 * n + (c.toNat - 48)) 0

/-- The value of a digit in a base up to sixteen. -/
def digitValue? (c : Char) : Option Nat :=
  if '0' ≤ c && c ≤ '9' then some (c.toNat - 48)
  else if 'a' ≤ c && c ≤ 'f' then some (c.toNat - 87)
  else if 'A' ≤ c && c ≤ 'F' then some (c.toNat - 55)
  else none

/-- A decimal numeral: sign, digits before and after the point, and exponent. -/
structure Numeral where
  negative : Bool
  whole : List Char
  fraction : List Char
  exponent : Int
deriving DecidableEq, Repr

namespace Numeral

/-- The double nearest to a numeral. Past four hundred places the scale is certain, and the exponent
is held there. -/
def toFloat (n : Numeral) : Float :=
  let digits := natOfDigits (n.whole ++ n.fraction)
  let scale := n.exponent - n.fraction.length
  let places : Int := (n.whole ++ n.fraction).length
  let magnitude : Float :=
    if digits = 0 then 0
    else if 400 < scale then 1 / 0
    else if scale + places < -400 then 0
    else match scale with
      | .ofNat e => Float.ofScientific digits false e
      | .negSucc e => Float.ofScientific digits true (e + 1)
  if n.negative then -magnitude else magnitude

/-- Whether a text starts with a minus sign, and what follows its sign if it has one. -/
def signed : List Char → Bool × List Char
  | '-' :: cs => (true, cs)
  | '+' :: cs => (false, cs)
  | cs => (false, cs)

/-- The exponent that the end of a numeral gives; no end means no exponent. -/
def exponent? : List Char → Option Int
  | [] => some 0
  | e :: cs =>
    let (negative, digits) := signed cs
    if (e ≠ 'e' ∧ e ≠ 'E') ∨ digits = [] ∨ !digits.all Char.isDigit then none
    else if negative then some (-natOfDigits digits)
    else some (natOfDigits digits)

/-- The numeral that a text is: digits with a point before, between or after them. -/
def ofChars? (cs : List Char) : Option Numeral :=
  let (negative, cs) := signed cs
  let whole := cs.takeWhile Char.isDigit
  let (fraction, tail) := match cs.dropWhile Char.isDigit with
    | '.' :: cs => (cs.takeWhile Char.isDigit, cs.dropWhile Char.isDigit)
    | cs => ([], cs)
  if whole = [] ∧ fraction = [] then none
  else (exponent? tail).map fun exponent => ⟨negative, whole, fraction, exponent⟩

end Numeral

/-- The double that a text names, as a numeral or by a word for what has no digits. -/
def floatOfText? (s : String) : Option Float :=
  let (negative, cs) := Numeral.signed s.toList
  let word := String.ofList (cs.map Char.toLower)
  if word = "inf" ∨ word = "infinity" then some (if negative then -1 / 0 else 1 / 0)
  else if word = "nan" then some (0 / 0)
  else (Numeral.ofChars? s.toList).map Numeral.toFloat

end EchoEngine.Decimal
