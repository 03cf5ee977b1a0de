import EchoEngine.Decimal.Binary

/-!
# Shortest decimals

The fewest decimal digits that read back as a given double. The reals that round to `m * 2 ^ q` form
an interval; grids of 1, 2, … digits are tried in turn, and on the first grid that has a point in the
interval the point nearest to the value is taken, an exact tie going to the even digit.
-/

namespace EchoEngine.Decimal

/-- A decimal `digits * 10 ^ exponent`. -/
structure Scaled where
  digits : Nat
  exponent : Int
deriving DecidableEq, Repr

namespace Scaled

/-- How many decimal digits a natural number has; zero has one. -/
def digitCount (n : Nat) : Nat :=
  (Nat.toDigits 10 n).length

/-- Power of ten of the first digit. -/
def magnitude (d : Scaled) : Int :=
  d.exponent + (digitCount d.digits - 1 : Nat)

/-- The same value without zeros at the end of the digits; at most `fuel` of them are removed. -/
def trimZeros : Nat → Scaled → Scaled
  | 0, d => d
  | fuel + 1, d =>
    if d.digits ≠ 0 ∧ d.digits % 10 = 0 then trimZeros fuel ⟨d.digits / 10, d.exponent + 1⟩ else d

end Scaled

/-- A positive ratio of natural numbers. -/
structure Ratio where
  num : Nat
  den : Nat
deriving DecidableEq, Repr

namespace Ratio

/-- `m * 2 ^ q`. -/
def ofBinary (m : Nat) : Int → Ratio
  | .ofNat q => ⟨m * Nat.pow 2 q, 1⟩
  | .negSucc q => ⟨m, Nat.pow 2 (q + 1)⟩

/-- Power of ten of the first digit of a positive ratio. -/
def magnitude (r : Ratio) : Int :=
  if r.den ≤ r.num then (Scaled.digitCount (r.num / r.den) - 1 : Nat)
  else -(Scaled.digitCount ((r.den + r.num - 1) / r.num - 1) : Nat)

/-- The ratio divided by `10 ^ k`. -/
def scaleDown (r : Ratio) : Int → Ratio
  | .ofNat k => ⟨r.num, r.den * Nat.pow 10 k⟩
  | .negSucc k => ⟨r.num * Nat.pow 10 (k + 1), r.den⟩

end Ratio

/-- The reals that read back as a double, between two ratios over one denominator. -/
structure Interval where
  low : Nat
  value : Nat
  high : Nat
  den : Nat
  closed : Bool
deriving Repr

namespace Interval

/-- The interval of `m * 2 ^ q`: half a step on each side, half of that below a power of two, where
the steps get shorter; the ends belong to it when `m` is even. -/
def ofBinary (m : Nat) (q : Int) : Interval :=
  let below := if m = Nat.pow 2 52 ∧ -1074 < q then 1 else 2
  let unit := Ratio.ofBinary 1 (q - 2)
  ⟨(4 * m - below) * unit.num, 4 * m * unit.num, (4 * m + 2) * unit.num, unit.den, m % 2 = 0⟩

/-- Whether the point `d` of the grid with step `10 ^ k` reads back as the value. -/
def holds (i : Interval) (k : Int) (d : Nat) : Bool :=
  let step := Ratio.scaleDown ⟨1, 1⟩ (-k)
  let point := d * step.num * i.den
  let low := i.low * step.den
  let high := i.high * step.den
  if i.closed then low ≤ point ∧ point ≤ high else low < point ∧ point < high

/-- The best point of the grid with step `10 ^ k`, if one reads back. -/
def pick (i : Interval) (k : Int) : Option Nat :=
  let scaled := Ratio.scaleDown ⟨i.value, i.den⟩ k
  let d := scaled.num / scaled.den
  let rest := scaled.num % scaled.den
  match i.holds k d, i.holds k (d + 1) with
  | true, false => some d
  | false, true => some (d + 1)
  | false, false => none
  | true, true =>
    if 2 * rest < scaled.den then some d
    else if scaled.den < 2 * rest then some (d + 1)
    else if d % 2 = 0 then some d else some (d + 1)

/-- Tries `n` digits, then one more, at most `fuel` times. -/
def search (i : Interval) (magnitude : Int) : Nat → Nat → Scaled
  | 0, _ => ⟨0, 0⟩
  | fuel + 1, n =>
    let k := magnitude - n + 1
    match i.pick k with
    | some d => Scaled.trimZeros 20 ⟨d, k⟩
    | none => search i magnitude fuel (n + 1)

end Interval

/-- The shortest decimal of the positive double `m * 2 ^ q`; seventeen digits always suffice. -/
def shortest (m : Nat) (q : Int) : Scaled :=
  if m = 0 then ⟨0, 0⟩
  else (Interval.ofBinary m q).search (Ratio.ofBinary m q).magnitude 18 1

end EchoEngine.Decimal
