/-!
# Doubles taken apart

A double is read from its bits as a sign, a natural mantissa and a power of two, so that everything
the other modules say about a double is said about integers: the total order that puts `-0.0` below
`0.0` (`Binary.rank`), and the least integer above a non-negative value (`ceilNat`).
-/

namespace EchoEngine.Decimal

/-- What the bits of a double stand for; a finite value is `mantissa * 2 ^ exponent`. -/
inductive Binary where
  | undefined
  | infinite (negative : Bool)
  | finite (negative : Bool) (mantissa : Nat) (exponent : Int)
deriving DecidableEq, Repr

namespace Binary

/-- The reading of a 64-bit pattern: one sign bit, eleven exponent bits, fifty-two fraction bits. -/
def ofBits (bits : UInt64) : Binary :=
  let n := bits.toNat
  let negative : Bool := Nat.pow 2 63 ≤ n
  let biased : Nat := n / Nat.pow 2 52 % Nat.pow 2 11
  let fraction : Nat := n % Nat.pow 2 52
  if biased = 2047 then
    if fraction = 0 then infinite negative else undefined
  else if biased = 0 then finite negative fraction (-1074)
  else finite negative (Nat.pow 2 52 + fraction) ((biased : Int) - 1075)

def ofFloat (x : Float) : Binary :=
  ofBits x.toBits

end Binary

/-- Position of a double in the total order: negatives by falling magnitude, then `-0.0`, `0.0`, the
positives, and the undefined value above all. -/
def rank (x : Float) : Int :=
  let n := x.toBits.toNat
  if x.isNaN then (Nat.pow 2 63 : Int)
  else if Nat.pow 2 63 ≤ n then -((n - Nat.pow 2 63 : Nat) : Int) - 1
  else n

/-- The total order of doubles as a comparison. -/
def totalOrder (x y : Float) : Ordering :=
  compare (rank x) (rank y)

/-- The least natural number not below `x`; zero for the undefined value and for negatives, and
`bound` for infinity. -/
def ceilNat (x : Float) (bound : Nat) : Nat :=
  match Binary.ofFloat x with
  | .undefined => 0
  | .infinite negative => if negative then 0 else bound
  | .finite true _ _ => 0
  | .finite false m (.ofNat e) => m * Nat.pow 2 e
  | .finite false m (.negSucc e) => (m + (Nat.pow 2 (e + 1) - 1)) / Nat.pow 2 (e + 1)

end EchoEngine.Decimal
