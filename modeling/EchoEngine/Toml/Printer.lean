import EchoEngine.Decimal.Layout
import EchoEngine.Json.Printer

/-!
# Writing TOML

Values are written so that they can be read at a glance. A string stands between the plainest quotes
that need no escapes: double ones, single ones, three double ones, three single ones; only if none of
these will do are characters escaped. An array of several elements has a line for each. An integer of
more than 64 bits with a sign cannot be written.
-/

namespace EchoEngine.Toml

/-! ### Strings -/

/-- The length of the longest run of a character, `run` being the length of the one at hand. -/
def longestRun (c : Char) (run : Nat) : List Char → Nat
  | [] => run
  | d :: cs => if d = c then longestRun c (run + 1) cs else max run (longestRun c 0 cs)

/-- A character that can only be written as an escape. -/
def needsEscape (c : Char) : Bool :=
  (c.toNat < 0x20 && c ≠ '\t' && c ≠ '\n') || c.toNat = 0x7f

/-- The number of a character in four digits. -/
def unicodeEscape (c : Char) : List Char :=
  let digit (k : Nat) : Char := (Json.hexDigit (c.toNat / Nat.pow 16 k % 16)).toUpper
  ['\\', 'u', digit 3, digit 2, digit 1, digit 0]

/-- A character between double quotes. -/
def escaped (c : Char) : List Char :=
  match c with
  | '\x08' => ['\\', 'b']
  | '\t' => ['\\', 't']
  | '\n' => ['\\', 'n']
  | '\x0c' => ['\\', 'f']
  | '\r' => ['\\', 'r']
  | '"' => ['\\', '"']
  | '\\' => ['\\', '\\']
  | c => if needsEscape c then unicodeEscape c else [c]

/-- Characters between three double quotes; `quotes` counts the quotes right before, of which every
third one is escaped. -/
def escapedLines (quotes : Nat) : List Char → List Char
  | [] => []
  | '\n' :: cs => '\n' :: escapedLines 0 cs
  | '"' :: cs =>
    if quotes = 2 then '\\' :: '"' :: escapedLines 0 cs else '"' :: escapedLines (quotes + 1) cs
  | c :: cs => escaped c ++ escapedLines 0 cs

/-- A body between quotes; the quotes of several lines are followed by the end of a line if the body
has one. -/
def between (quotes : String) (hasLines : Bool) (body : List Char) : String :=
  quotes ++ (if hasLines then "\n" else "") ++ String.ofList body ++ quotes

def quote (s : String) : String :=
  let cs := s.toList
  let escapes := cs.any needsEscape
  let backslash := cs.contains '\\'
  let doubles := longestRun '"' 0 cs
  let singles := longestRun '\'' 0 cs
  let lines := cs.contains '\n'
  if !escapes && !backslash && doubles = 0 && !lines then between "\"" false (cs.flatMap escaped)
  else if !escapes && singles = 0 && !lines then between "'" false cs
  else if !escapes && !backslash && doubles ≤ 2 then between "\"\"\"" lines (escapedLines 0 cs)
  else if !escapes && singles ≤ 2 then between "'''" lines cs
  else if lines then between "\"\"\"" true (escapedLines 0 cs)
  else between "\"" false (cs.flatMap escaped)

/-! ### Values and sections -/

mutual

/-- The text of a value, if it has one. -/
def write? : Json → Option String
  | .bool b => some (if b then "true" else "false")
  | .int n => if -(Nat.pow 2 63 : Int) ≤ n ∧ n < (Nat.pow 2 63 : Int) then some (toString n) else none
  | .float x => some (Decimal.render .toml x)
  | .str s => some (quote s)
  | .arr items => (writeAll? items).map fun
    | [] => "[]"
    | [one] => "[" ++ one ++ "]"
    | many => "[\n" ++ String.join (many.map fun s => "    " ++ s ++ ",\n") ++ "]"
  | .null | .obj _ => none
termination_by structural v => v

def writeAll? : List Json → Option (List String)
  | [] => some []
  | v :: vs => do
    let s ← write? v
    return s :: (← writeAll? vs)
termination_by structural vs => vs

end

/-- The line of an assignment. -/
def writeLine? (member : String × Json) : Option String :=
  (write? member.2).map fun s => member.1 ++ " = " ++ s ++ "\n"

/-- A table under its header. -/
def writeSection? (name : String) (members : List (String × Json)) : Option String := do
  return "[" ++ name ++ "]\n" ++ String.join (← members.mapM writeLine?)

/-- Tables one after another, with an empty line between them. -/
def writeSections? (sections : List (String × List (String × Json))) : Option String := do
  return "\n".intercalate (← sections.mapM fun s => writeSection? s.1 s.2)

end EchoEngine.Toml
