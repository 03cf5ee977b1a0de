import EchoEngine.Decimal.Numeral
import EchoEngine.Json.Basic

/-!
# Reading JSON text

`Json.parse?` reads one value with nothing but white space around it. It refuses control characters
and lone surrogates in strings, numbers that overflow the doubles, and nesting past a depth.

Every reader takes the characters that are left and returns what is left after it.
-/

namespace EchoEngine.Json

open EchoEngine.Decimal

/-- Depth of arrays and objects that is still read. -/
def maxDepth : Nat := 127

def skipSpace (cs : List Char) : List Char :=
  cs.dropWhile fun c => c = ' ' || c = '\n' || c = '\t' || c = '\r'

/-- A character of a string literal, or one 16-bit unit that was written by its number. -/
inductive Piece where
  | char (c : Char)
  | unit (n : Nat)

def hexUnit? (a b c d : Char) : Option Nat := do
  let a ← digitValue? a
  let b ← digitValue? b
  let c ← digitValue? c
  let d ← digitValue? d
  return ((a * 16 + b) * 16 + c) * 16 + d

def simpleEscape? : Char → Option Char
  | '"' => some '"'
  | '\\' => some '\\'
  | '/' => some '/'
  | 'b' => some '\x08'
  | 'f' => some '\x0c'
  | 'n' => some '\n'
  | 'r' => some '\r'
  | 't' => some '\t'
  | _ => none

/-- The pieces of a string literal after its opening quote, and what follows its closing quote. -/
def pieces? : List Char → Option (List Piece × List Char)
  | [] => none
  | '"' :: rest => some ([], rest)
  | '\\' :: 'u' :: a :: b :: c :: d :: rest => do
    let n ← hexUnit? a b c d
    let (ps, rest) ← pieces? rest
    return (.unit n :: ps, rest)
  | '\\' :: e :: rest => do
    let c ← simpleEscape? e
    let (ps, rest) ← pieces? rest
    return (.char c :: ps, rest)
  | c :: rest => do
    if c.toNat < 32 then none
    let (ps, rest) ← pieces? rest
    return (.char c :: ps, rest)

/-- Joins pieces: two units may be a pair of surrogates; one surrogate alone has no character. -/
def joinPieces? : List Piece → Option (List Char)
  | [] => some []
  | .char c :: ps => (joinPieces? ps).map (c :: ·)
  | .unit high :: .unit low :: ps =>
    if 0xD800 ≤ high ∧ high < 0xDC00 then
      if 0xDC00 ≤ low ∧ low < 0xE000 then
        (joinPieces? ps).map (Char.ofNat (0x10000 + (high - 0xD800) * 0x400 + (low - 0xDC00)) :: ·)
      else none
    else if 0xDC00 ≤ high ∧ high < 0xE000 then none
    else (joinPieces? (.unit low :: ps)).map (Char.ofNat high :: ·)
  | .unit n :: ps =>
    if 0xD800 ≤ n ∧ n < 0xE000 then none else (joinPieces? ps).map (Char.ofNat n :: ·)

/-- A string literal after its opening quote. -/
def string? (cs : List Char) : Option (String × List Char) := do
  let (ps, rest) ← pieces? cs
  return (String.ofList (← joinPieces? ps), rest)

/-- The digits of an exponent after its letter. -/
def exponent? (cs : List Char) : Option (Int × List Char) :=
  let (negative, cs) : Bool × List Char := match cs with
    | '+' :: rest => (false, rest)
    | '-' :: rest => (true, rest)
    | _ => (false, cs)
  let digits := cs.takeWhile Char.isDigit
  if digits.isEmpty then none
  else
    let n : Int := natOfDigits digits
    some (if negative then -n else n, cs.dropWhile Char.isDigit)

/-- An integer within a 64-bit word, or the nearest double; zero with a minus sign is a double. -/
def ofInteger (negative : Bool) (whole : List Char) : Json :=
  let n := natOfDigits whole
  if negative then
    if n ≠ 0 ∧ n ≤ Nat.pow 2 63 then int (-(n : Int)) else float (Numeral.toFloat ⟨true, whole, [], 0⟩)
  else if n < Nat.pow 2 64 then int n else float (Numeral.toFloat ⟨false, whole, [], 0⟩)

/-- A number: no zero in front of other digits, a digit on each side of the point, and a value among
the doubles. -/
def number? (cs : List Char) : Option (Json × List Char) := do
  let (negative, cs) : Bool × List Char := match cs with
    | '-' :: rest => (true, rest)
    | _ => (false, cs)
  let whole := cs.takeWhile Char.isDigit
  let cs := cs.dropWhile Char.isDigit
  if whole.isEmpty ∨ (whole.head? = some '0' ∧ 1 < whole.length) then none
  let (fraction, cs) ← match cs with
    | '.' :: rest =>
      let digits := rest.takeWhile Char.isDigit
      if digits.isEmpty then none else some (some digits, rest.dropWhile Char.isDigit)
    | _ => some (none, cs)
  let (exponent, cs) ← match cs with
    | 'e' :: rest => (exponent? rest).map fun (e, rest) => (some e, rest)
    | 'E' :: rest => (exponent? rest).map fun (e, rest) => (some e, rest)
    | _ => some (none, cs)
  let value :=
    if fraction.isNone ∧ exponent.isNone then ofInteger negative whole
    else float (Numeral.toFloat ⟨negative, whole, fraction.getD [], exponent.getD 0⟩)
  match value with
  | float x => if x.isFinite then some (value, cs) else none
  | _ => some (value, cs)

mutual

/-- A value with at most `depth` levels of nesting left. The fuel falls with every call. -/
def value? : Nat → Nat → List Char → Option (Json × List Char)
  | 0, _, _ => none
  | fuel + 1, depth, cs =>
    match skipSpace cs with
    | 'n' :: 'u' :: 'l' :: 'l' :: rest => some (null, rest)
    | 't' :: 'r' :: 'u' :: 'e' :: rest => some (bool true, rest)
    | 'f' :: 'a' :: 'l' :: 's' :: 'e' :: rest => some (bool false, rest)
    | '"' :: rest => (string? rest).map fun (s, rest) => (str s, rest)
    | '[' :: rest =>
      if depth = 0 then none
      else match skipSpace rest with
        | ']' :: rest => some (arr [], rest)
        | rest => (items? fuel (depth - 1) rest).map fun (vs, rest) => (arr vs, rest)
    | '{' :: rest =>
      if depth = 0 then none
      else match skipSpace rest with
        | '}' :: rest => some (obj [], rest)
        | rest => (members? fuel (depth - 1) rest).map fun (ms, rest) => (obj ms, rest)
    | rest => number? rest

/-- The elements of an array from one on, through its closing bracket. -/
def items? : Nat → Nat → List Char → Option (List Json × List Char)
  | 0, _, _ => none
  | fuel + 1, depth, cs => do
    let (v, rest) ← value? fuel depth cs
    match skipSpace rest with
    | ',' :: rest =>
      let (vs, rest) ← items? fuel depth rest
      return (v :: vs, rest)
    | ']' :: rest => return ([v], rest)
    | _ => none

/-- The members of an object from one on, through its closing brace. -/
def members? : Nat → Nat → List Char → Option (List (String × Json) × List Char)
  | 0, _, _ => none
  | fuel + 1, depth, cs => do
    match skipSpace cs with
    | '"' :: rest =>
      let (k, rest) ← string? rest
      match skipSpace rest with
      | ':' :: rest =>
        let (v, rest) ← value? fuel depth rest
        match skipSpace rest with
        | ',' :: rest =>
          let (ms, rest) ← members? fuel depth rest
          return ((k, v) :: ms, rest)
        | '}' :: rest => return ([(k, v)], rest)
        | _ => none
      | _ => none
    | _ => none

end

/-- The value a text holds, if it holds exactly one. Each call that is not a scalar consumes a
character, so twice the length is fuel enough. -/
def parseWithin? (depth : Nat) (text : String) : Option Json :=
  let cs := text.toList
  match value? (2 * cs.length + 2) depth cs with
  | some (v, rest) => if (skipSpace rest).isEmpty then some v else none
  | none => none

def parse? (text : String) : Option Json :=
  parseWithin? maxDepth text

end EchoEngine.Json
