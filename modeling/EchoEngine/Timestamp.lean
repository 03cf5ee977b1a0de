import EchoEngine.Json.Record

/-!
# Timestamps

A timestamp is a moment in Coordinated Universal Time to the nanosecond. Its text is the one of
RFC 3339, with three, six or nine digits after the point where the second is not whole. Dates are
those of the Gregorian calendar, counted in days from the first of March of the year zero, so that a
leap day is the last day of its year.
-/

namespace EchoEngine

/-- A moment, counted from the start of the year 1970. -/
structure Timestamp where
  seconds : Int
  nanoseconds : Nat
deriving DecidableEq, Repr, Inhabited

namespace Timestamp

/-! ### Dates -/

structure Date where
  year : Int
  month : Nat
  day : Nat
deriving DecidableEq, Repr

/-- Days from the first of March of the year zero to the start of 1970. -/
def epoch : Int := 719468

/-- Days of the months before the `m`-th one, March being month zero. -/
def daysBefore (m : Nat) : Nat :=
  (153 * m + 2) / 5

/-- The day number of a date, counted from the start of 1970. -/
def Date.toDays (d : Date) : Int :=
  let year := if d.month ≤ 2 then d.year - 1 else d.year
  365 * year + year / 4 - year / 100 + year / 400 + daysBefore ((d.month + 9) % 12) + d.day - 1 - epoch

/-- The date of a day number, counted from the start of 1970. -/
def Date.ofDays (days : Int) : Date :=
  let z := days + epoch
  let era := z / 146097
  let dayOfEra := (z % 146097).toNat
  let yearOfEra := (dayOfEra - dayOfEra / 1460 + dayOfEra / 36524 - dayOfEra / 146096) / 365
  let dayOfYear := dayOfEra - (365 * yearOfEra + yearOfEra / 4 - yearOfEra / 100)
  let m := (5 * dayOfYear + 2) / 153
  let month := (m + 2) % 12 + 1
  { year := era * 400 + yearOfEra + (if month ≤ 2 then 1 else 0)
    month
    day := dayOfYear - daysBefore m + 1 }

/-! ### Text -/

/-- A number in at least `width` digits. -/
def padded (width n : Nat) : String :=
  let digits := toString n
  String.ofList (List.replicate (width - digits.length) '0') ++ digits

/-- The digits after the point of a second, if there are any. -/
def fraction (nanoseconds : Nat) : String :=
  if nanoseconds = 0 then ""
  else if nanoseconds % 1000000 = 0 then "." ++ padded 3 (nanoseconds / 1000000)
  else if nanoseconds % 1000 = 0 then "." ++ padded 6 (nanoseconds / 1000)
  else "." ++ padded 9 nanoseconds

def text (t : Timestamp) : String :=
  let date := Date.ofDays (t.seconds / 86400)
  let second := (t.seconds % 86400).toNat
  padded 4 date.year.toNat ++ "-" ++ padded 2 date.month ++ "-" ++ padded 2 date.day ++ "T"
    ++ padded 2 (second / 3600) ++ ":" ++ padded 2 (second / 60 % 60) ++ ":" ++ padded 2 (second % 60)
    ++ fraction t.nanoseconds ++ "Z"

/-- A number written in exactly `width` digits, and what follows it. -/
def number? (width : Nat) (cs : List Char) : Option (Nat × List Char) :=
  let digits := cs.take width
  if digits.length = width ∧ digits.all Char.isDigit then
    some (digits.foldl (fun n c => 10 * n + (c.toNat - '0'.toNat)) 0, cs.drop width)
  else none

/-- What follows a character that satisfies `p`. -/
def after? (p : Char → Bool) : List Char → Option (List Char)
  | c :: cs => if p c then some cs else none
  | [] => none

/-- The nanoseconds that the digits after a point stand for; digits beyond the ninth are dropped. -/
def nanosecondsOf (digits : List Char) : Nat :=
  ((digits ++ List.replicate 9 '0').take 9).foldl (fun n c => 10 * n + (c.toNat - '0'.toNat)) 0

def fraction? : List Char → Option (Nat × List Char)
  | '.' :: cs =>
    match cs.takeWhile Char.isDigit with
    | [] => none
    | digits => some (nanosecondsOf digits, cs.dropWhile Char.isDigit)
  | cs => some (0, cs)

/-- The seconds by which a zone at the end of a text is ahead. -/
def zone? : List Char → Option Int
  | ['Z'] | ['z'] => some 0
  | sign :: cs => do
    let (hours, cs) ← number? 2 cs
    let cs ← after? (· = ':') cs
    let (minutes, cs) ← number? 2 cs
    let ahead : Int := 3600 * hours + 60 * minutes
    if cs ≠ [] ∨ 24 ≤ hours ∨ 60 ≤ minutes then none
    else if sign = '+' then some ahead
    else if sign = '-' then some (-ahead)
    else none
  | [] => none

/-- The moment that a text names. -/
def parse? (s : String) : Option Timestamp := do
  let (year, cs) ← number? 4 s.toList
  let cs ← after? (· = '-') cs
  let (month, cs) ← number? 2 cs
  let cs ← after? (· = '-') cs
  let (day, cs) ← number? 2 cs
  let cs ← after? (fun c => c = 'T' || c = 't' || c = ' ') cs
  let (hour, cs) ← number? 2 cs
  let cs ← after? (· = ':') cs
  let (minute, cs) ← number? 2 cs
  let cs ← after? (· = ':') cs
  let (second, cs) ← number? 2 cs
  let (nanoseconds, cs) ← fraction? cs
  let ahead ← zone? cs
  let date : Date := ⟨year, month, day⟩
  if Date.ofDays date.toDays ≠ date ∨ 24 ≤ hour ∨ 60 ≤ minute ∨ 60 ≤ second then none
  else
    let clock : Int := 3600 * hour + 60 * minute + second
    some ⟨86400 * date.toDays + clock - ahead, nanoseconds⟩

def toJson (t : Timestamp) : Json :=
  .str t.text

def ofJson? : Json.Reader Timestamp := fun v =>
  (Json.Reader.string v).bind parse?

end Timestamp

end EchoEngine
