import EchoEngine.Decimal.Binary

/-!
# Scalars

Scores, coherences and means are computed over a type of scalars. The program runs on doubles, whose
operations round; the same definitions over an ordered field say what they compute without rounding.
-/

namespace EchoEngine

/-- Numbers that scores are made of. -/
class Scalar (α : Type) extends Add α, Mul α, Div α, OfScientific α, LT α, LE α where
  ofNat : Nat → α
  /-- One half to the power of a number. -/
  halfPow : α → α
  /-- A total order, also of values that no comparison relates. -/
  order : α → α → Ordering
  /-- Whether a value is a number at all. -/
  isNumber : α → Bool
  decidableLT : DecidableLT α
  decidableLE : DecidableLE α

namespace Scalar

attribute [reducible, instance] Scalar.decidableLT Scalar.decidableLE

instance : Scalar Float where
  ofNat := Float.ofNat
  halfPow x := Float.pow 0.5 x
  order := Decimal.totalOrder
  isNumber x := !x.isNaN
  decidableLT := Float.decLt
  decidableLE := Float.decLe

variable {α : Type} [Scalar α]

/-- The sum of numbers from left to right. -/
def sum : List α → α
  | [] => 0.0
  | x :: xs => xs.foldl (· + ·) x

/-- The arithmetic mean of at least one number. -/
def mean (xs : List α) : α :=
  sum xs / ofNat xs.length

/-- The nearest value of the interval from `low` to `high`. -/
def clamp (low high x : α) : α :=
  if x < low then low else if high < x then high else x

/-- Whether a value is a number from zero to one. -/
def inUnit (x : α) : Bool :=
  decide ((0.0 : α) ≤ x) && decide (x ≤ (1.0 : α))

end Scalar

end EchoEngine
