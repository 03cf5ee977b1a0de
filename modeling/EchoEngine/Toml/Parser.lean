import EchoEngine.Decimal.Numeral
import EchoEngine.Text.Blank
import EchoEngine.Timestamp
import EchoEngine.Toml.Document

/-!
# Reading TOML

`Toml.parse?` reads a document as the value of its table. Dates and times are read, but nothing in
this library asks for one: each becomes an object with a member that no record knows. Integers have
64 bits and a sign; floats must not overflow to positive infinity.

Every reader takes the characters that are left and returns what is left after it.
-/

namespace EchoEngine.Toml

open EchoEngine.Decimal

/-! ### Space and comments -/

def isSpace (c : Char) : Bool :=
  c = ' ' || c = '\t'

def skipSpace (cs : List Char) : List Char :=
  cs.dropWhile isSpace

/-- A character that may stand in a comment, and in a literal string unless it is the quote. -/
def isPlain (c : Char) : Bool :=
  c = '\t' || (0x20 ≤ c.toNat && c.toNat ≠ 0x7f)

/-- What follows a comment, if there is one here. -/
def skipComment : List Char → List Char
  | '#' :: cs => cs.dropWhile isPlain
  | cs => cs

/-- What follows the end of a line. -/
def newline? : List Char → Option (List Char)
  | '\n' :: cs => some cs
  | '\r' :: '\n' :: cs => some cs
  | _ => none

/-- What follows the end of a line or of the text. -/
def lineEnd? : List Char → Option (List Char)
  | [] => some []
  | cs => newline? cs

/-- What follows a line with nothing more than a comment on it. -/
def lineRest? (cs : List Char) : Option (List Char) :=
  lineEnd? (skipComment (skipSpace cs))

/-- What follows spaces, ends of lines and comments. The fuel falls with every line. -/
def skipLines : Nat → List Char → List Char
  | 0, cs => cs
  | fuel + 1, cs =>
    let cs := skipSpace cs
    match newline? (skipComment cs) with
    | some rest => skipLines fuel rest
    | none => cs

/-- What follows spaces and ends of lines. -/
def skipBlank : Nat → List Char → List Char
  | 0, cs => cs
  | fuel + 1, cs =>
    let cs := skipSpace cs
    match newline? cs with
    | some rest => skipBlank fuel rest
    | none => cs

/-! ### Strings -/

def simpleEscape? : Char → Option Char
  | 'b' => some '\x08'
  | 't' => some '\t'
  | 'n' => some '\n'
  | 'f' => some '\x0c'
  | 'r' => some '\r'
  | '"' => some '"'
  | '\\' => some '\\'
  | _ => none

/-- The character with the number that hexadecimal digits stand for. -/
def charOfHex? (digits : List Char) : Option Char := do
  let n ← digits.foldlM (fun n c => (digitValue? c).map (16 * n + ·)) 0
  if n < 0xD800 ∨ (0xDFFF < n ∧ n < 0x110000) then some (Char.ofNat n) else none

/-- A character written by an escape, after the backslash. -/
def escape? : List Char → Option (Char × List Char)
  | 'u' :: cs =>
    if cs.length < 4 then none else (charOfHex? (cs.take 4)).map fun c => (c, cs.drop 4)
  | 'U' :: cs =>
    if cs.length < 8 then none else (charOfHex? (cs.take 8)).map fun c => (c, cs.drop 8)
  | e :: cs => (simpleEscape? e).map fun c => (c, cs)
  | [] => none

/-- A basic string after its quote. -/
def basic? : Nat → List Char → Option (List Char × List Char)
  | 0, _ => none
  | fuel + 1, cs =>
    match cs with
    | '"' :: rest => some ([], rest)
    | '\\' :: rest => do
      let (c, rest) ← escape? rest
      let (text, rest) ← basic? fuel rest
      return (c :: text, rest)
    | c :: rest => do
      if !isPlain c then none
      let (text, rest) ← basic? fuel rest
      return (c :: text, rest)
    | [] => none

/-- A literal string after its quote. -/
def literal? (cs : List Char) : Option (List Char × List Char) :=
  let isInside (c : Char) : Bool := c ≠ '\'' && isPlain c
  match cs.dropWhile isInside with
  | '\'' :: rest => some (cs.takeWhile isInside, rest)
  | _ => none

/-- The end of a string of several lines: three quotes, and up to two before them that belong to
it. -/
def closing? (quote : Char) (cs : List Char) : Option (List Char × List Char) :=
  match (cs.takeWhile (· = quote)).length with
  | 0 | 1 | 2 => none
  | n =>
    let inside := min (n - 3) 2
    some (List.replicate inside quote, cs.drop (inside + 3))

/-- What follows a backslash at the end of a line: everything up to the next visible character. -/
def foldedLine? (cs : List Char) : Option (List Char) :=
  (newline? (skipSpace cs)).map fun rest => skipBlank (rest.length + 1) rest

/-- A basic string of several lines, after its quotes. -/
def longBasic? : Nat → List Char → Option (List Char × List Char)
  | 0, _ => none
  | fuel + 1, cs =>
    match closing? '"' cs with
    | some r => some r
    | none =>
      match cs with
      | '\\' :: rest =>
        match foldedLine? rest with
        | some rest => longBasic? fuel rest
        | none => do
          let (c, rest) ← escape? rest
          let (text, rest) ← longBasic? fuel rest
          return (c :: text, rest)
      | '\r' :: '\n' :: rest | '\n' :: rest => do
        let (text, rest) ← longBasic? fuel rest
        return ('\n' :: text, rest)
      | c :: rest => do
        if !isPlain c then none
        let (text, rest) ← longBasic? fuel rest
        return (c :: text, rest)
      | [] => none

/-- A literal string of several lines, after its quotes. -/
def longLiteral? : Nat → List Char → Option (List Char × List Char)
  | 0, _ => none
  | fuel + 1, cs =>
    match closing? '\'' cs with
    | some r => some r
    | none =>
      match cs with
      | '\r' :: '\n' :: rest | '\n' :: rest => do
        let (text, rest) ← longLiteral? fuel rest
        return ('\n' :: text, rest)
      | c :: rest => do
        if !isPlain c then none
        let (text, rest) ← longLiteral? fuel rest
        return (c :: text, rest)
      | [] => none

/-- The text after the opening quotes of a string of several lines; a line end right there is
dropped. -/
def longStart (cs : List Char) : List Char :=
  (newline? cs).getD cs

/-- A string on one line. -/
def shortString? : List Char → Option (String × List Char)
  | '"' :: cs => (basic? (cs.length + 1) cs).map fun (s, rest) => (String.ofList s, rest)
  | '\'' :: cs => (literal? cs).map fun (s, rest) => (String.ofList s, rest)
  | _ => none

/-- A string of any kind. -/
def string? (cs : List Char) : Option (String × List Char) :=
  match cs with
  | '"' :: '"' :: '"' :: rest =>
    (longBasic? (rest.length + 1) (longStart rest)).map fun (s, rest) => (String.ofList s, rest)
  | '\'' :: '\'' :: '\'' :: rest =>
    (longLiteral? (rest.length + 1) (longStart rest)).map fun (s, rest) => (String.ofList s, rest)
  | cs => shortString? cs

/-! ### Keys -/

def isBare (c : Char) : Bool :=
  c.isAlphanum || c = '_' || c = '-'

/-- One part of a key. -/
def part? (cs : List Char) : Option (String × List Char) :=
  match cs with
  | '"' :: _ | '\'' :: _ => shortString? cs
  | cs =>
    match cs.takeWhile isBare with
    | [] => none
    | bare => some (String.ofList bare, cs.dropWhile isBare)

/-- Parts of a key that is still read. -/
def maxParts : Nat := 79

/-- A key of parts between dots, with the spaces around them; the last part apart. -/
def key? : Nat → List Char → Option ((List String × String) × List Char)
  | 0, _ => none
  | fuel + 1, cs => do
    let (part, rest) ← part? (skipSpace cs)
    match skipSpace rest with
    | '.' :: rest =>
      let ((path, last), rest) ← key? fuel rest
      return ((part :: path, last), rest)
    | rest => return (([], part), rest)

/-! ### Numbers and dates -/

/-- Digits that satisfy `p`, with single underscores between them, and what follows. -/
def digits? (p : Char → Bool) : Nat → List Char → Option (List Char × List Char)
  | 0, _ => none
  | fuel + 1, cs =>
    match cs with
    | c :: rest =>
      if !p c then none
      else match rest with
        | '_' :: rest => (digits? p fuel rest).map fun (ds, rest) => (c :: ds, rest)
        | d :: _ =>
          if p d then (digits? p fuel rest).map fun (ds, rest) => (c :: ds, rest)
          else some ([c], rest)
        | [] => some ([c], [])
    | [] => none

/-- Decimal digits without a zero in front of others. -/
def whole? (cs : List Char) : Option (List Char × List Char) :=
  match cs with
  | '0' :: rest => some (['0'], rest)
  | cs => digits? Char.isDigit (cs.length + 1) cs

def sign (cs : List Char) : Bool × List Char :=
  match cs with
  | '-' :: rest => (true, rest)
  | '+' :: rest => (false, rest)
  | cs => (false, cs)

/-- An integer of 64 bits with a sign. -/
def ofInteger? (negative : Bool) (n : Nat) : Option Json :=
  if n < Nat.pow 2 63 ∨ (negative ∧ n = Nat.pow 2 63) then some (.int (if negative then -(n : Int) else n))
  else none

/-- An integer in a base, after the letter that names the base. -/
def based? (base : Nat) (cs : List Char) : Option (Json × List Char) := do
  let isDigit (c : Char) : Bool := (digitValue? c).any (· < base)
  let (ds, rest) ← digits? isDigit (cs.length + 1) cs
  let n := ds.foldl (fun n c => base * n + (digitValue? c).getD 0) 0
  return (← ofInteger? false n, rest)

/-- The digits after a point, if there is one. -/
def point? (cs : List Char) : Option (Option (List Char) × List Char) :=
  match cs with
  | '.' :: rest => (digits? Char.isDigit (rest.length + 1) rest).map fun (ds, rest) => (some ds, rest)
  | cs => some (none, cs)

/-- The exponent of a float, if there is one. -/
def power? (cs : List Char) : Option (Option Int × List Char) :=
  let after (rest : List Char) : Option (Option Int × List Char) := do
    let (negative, rest) := sign rest
    let (ds, rest) ← digits? Char.isDigit (rest.length + 1) rest
    let n : Int := natOfDigits ds
    return (some (if negative then -n else n), rest)
  match cs with
  | 'e' :: rest | 'E' :: rest => after rest
  | cs => some (none, cs)

/-- A decimal integer or float. -/
def decimal? (cs : List Char) : Option (Json × List Char) := do
  let (negative, cs) := sign cs
  let (whole, cs) ← whole? cs
  let (fraction, cs) ← point? cs
  let (exponent, cs) ← power? cs
  if fraction.isNone ∧ exponent.isNone then return (← ofInteger? negative (natOfDigits whole), cs)
  else
    let x := Numeral.toFloat ⟨negative, whole, fraction.getD [], exponent.getD 0⟩
    if !negative && x.isInf then none else some (.float x, cs)

/-- A float that is no decimal. -/
def special? (cs : List Char) : Option (Json × List Char) :=
  let (negative, cs) := sign cs
  match cs with
  | 'i' :: 'n' :: 'f' :: rest => some (.float (if negative then -1 / 0 else 1 / 0), rest)
  | 'n' :: 'a' :: 'n' :: rest => some (.float (0 / 0), rest)
  | _ => none

def number? (cs : List Char) : Option (Json × List Char) :=
  match cs with
  | '0' :: 'x' :: rest => based? 16 rest
  | '0' :: 'o' :: rest => based? 8 rest
  | '0' :: 'b' :: rest => based? 2 rest
  | cs => (special? cs).or (decimal? cs)

/-- What follows a clock time. -/
def clock? (cs : List Char) : Option (List Char) := do
  let (hour, cs) ← Timestamp.number? 2 cs
  let cs ← Timestamp.after? (· = ':') cs
  let (minute, cs) ← Timestamp.number? 2 cs
  let cs ← Timestamp.after? (· = ':') cs
  let (second, cs) ← Timestamp.number? 2 cs
  if 24 ≤ hour ∨ 60 ≤ minute ∨ 60 < second then none
  else (Timestamp.fraction? cs).map Prod.snd

/-- What follows the offset of a zone, if there is one. -/
def offset? (cs : List Char) : Option (List Char) :=
  match cs with
  | 'Z' :: rest | 'z' :: rest => some rest
  | '+' :: rest | '-' :: rest => do
    let (hour, rest) ← Timestamp.number? 2 rest
    let rest ← Timestamp.after? (· = ':') rest
    let (minute, rest) ← Timestamp.number? 2 rest
    if 24 ≤ hour ∨ 60 ≤ minute then none else some rest
  | cs => some cs

/-- What follows a calendar date. -/
def date? (cs : List Char) : Option (List Char) := do
  let (year, cs) ← Timestamp.number? 4 cs
  let cs ← Timestamp.after? (· = '-') cs
  let (month, cs) ← Timestamp.number? 2 cs
  let cs ← Timestamp.after? (· = '-') cs
  let (day, cs) ← Timestamp.number? 2 cs
  let date : Timestamp.Date := ⟨year, month, day⟩
  if Timestamp.Date.ofDays date.toDays = date then some cs else none

/-- Whether a date starts here, or a clock time. -/
def startsMoment (cs : List Char) : Bool :=
  let run := cs.takeWhile Char.isDigit
  match cs.dropWhile Char.isDigit with
  | '-' :: _ => run.length = 4
  | ':' :: _ => run.length = 2
  | _ => false

/-- The value that a date or time is read as. -/
def dateValue : Json :=
  .obj [("$date", .null)]

/-- What follows a date, a clock time or both. -/
def momentRest? (cs : List Char) : Option (List Char) :=
  match (cs.drop 2).head? with
  | some ':' => clock? cs
  | _ => do
    let cs ← date? cs
    match cs with
    | 'T' :: rest | 't' :: rest => offset? (← clock? rest)
    | ' ' :: rest =>
      match (rest.takeWhile Char.isDigit).length, (rest.drop 2).head? with
      | 2, some ':' => offset? (← clock? rest)
      | _, _ => some cs
    | cs => some cs

/-! ### Values -/

/-- Levels of nesting that are still read. -/
def maxDepth : Nat := 79

mutual

/-- A value with at most `depth` levels of nesting left. The fuel falls with every call. -/
def value? : Nat → Nat → List Char → Option (Json × List Char)
  | 0, _, _ => none
  | fuel + 1, depth, cs =>
    match cs with
    | '"' :: _ | '\'' :: _ => (string? cs).map fun (s, rest) => (.str s, rest)
    | 't' :: 'r' :: 'u' :: 'e' :: rest => some (.bool true, rest)
    | 'f' :: 'a' :: 'l' :: 's' :: 'e' :: rest => some (.bool false, rest)
    | '[' :: rest =>
      if depth = 0 then none
      else (elements? fuel (depth - 1) rest).map fun (vs, rest) => (.arr vs, rest)
    | '{' :: rest =>
      if depth = 0 then none
      else match skipSpace rest with
        | '}' :: rest => some (.obj [], rest)
        | rest => do
          let (as, rest) ← assignments? fuel (depth - 1) rest
          return (← inlineTable? as, rest)
    | cs =>
      if startsMoment cs then (momentRest? cs).map fun rest => (dateValue, rest) else number? cs

/-- The elements of an array through its closing bracket; a comma may follow the last one. -/
def elements? : Nat → Nat → List Char → Option (List Json × List Char)
  | 0, _, _ => none
  | fuel + 1, depth, cs =>
    match skipLines (cs.length + 1) cs with
    | ']' :: rest => some ([], rest)
    | cs => do
      let (v, rest) ← value? fuel depth cs
      match skipLines (rest.length + 1) rest with
      | ',' :: rest =>
        let (vs, rest) ← elements? fuel depth rest
        return (v :: vs, rest)
      | ']' :: rest => return ([v], rest)
      | _ => none

/-- The assignments of an inline table from one on, through its closing brace. -/
def assignments? : Nat → Nat → List Char →
    Option (List (List String × String × Json) × List Char)
  | 0, _, _ => none
  | fuel + 1, depth, cs => do
    let ((path, key), rest) ← key? maxParts cs
    match rest with
    | '=' :: rest =>
      let (v, rest) ← value? fuel depth (skipSpace rest)
      match skipSpace rest with
      | ',' :: rest =>
        let (as, rest) ← assignments? fuel depth rest
        return ((path, key, v) :: as, rest)
      | '}' :: rest => return ([(path, key, v)], rest)
      | _ => none
    | _ => none

end

/-! ### Statements -/

/-- A statement, through the end of its line. -/
def statement? (cs : List Char) : Option (Statement × List Char) :=
  match cs with
  | '[' :: '[' :: rest => do
    let ((path, key), rest) ← key? maxParts rest
    match rest with
    | ']' :: ']' :: rest => return (.elementHeader path key, ← lineRest? rest)
    | _ => none
  | '[' :: rest => do
    let ((path, key), rest) ← key? maxParts rest
    match rest with
    | ']' :: rest => return (.header path key, ← lineRest? rest)
    | _ => none
  | cs => do
    let ((path, key), rest) ← key? maxParts cs
    match rest with
    | '=' :: rest =>
      let (v, rest) ← value? (2 * rest.length + 2) maxDepth (skipSpace rest)
      return (.assignment path key v, ← lineRest? rest)
    | _ => none

/-- The document with the statements that are left. The fuel falls with every line. -/
def statements? : Nat → Document → List Char → Option Document
  | 0, _, _ => none
  | fuel + 1, d, cs =>
    match skipSpace cs with
    | [] => some d
    | '#' :: _ | '\n' :: _ | '\r' :: _ => do
      let rest ← lineEnd? (skipComment (skipSpace cs))
      statements? fuel d rest
    | cs => do
      let (s, rest) ← statement? cs
      statements? fuel (← d.add s) rest

/-- A mark at the start of a text that says in which order its bytes are. -/
def byteOrderMark : Char := '\ufeff'

/-- The value of the table that a text describes. -/
def parse? (text : String) : Option Json :=
  let cs := match text.toList with
    | c :: rest => if c = byteOrderMark then rest else c :: rest
    | [] => []
  (statements? (cs.length + 1) .empty cs).map Document.toJson

end EchoEngine.Toml
