import EchoEngine.Decimal.Layout
import EchoEngine.Json.Basic

/-!
# JSON text

Two spellings of a value: `compress` without white space, and `pretty` with one member or element a
line, two spaces of indentation a level. Members are written in the order they stand in.
-/

namespace EchoEngine.Json

def hexDigit (n : Nat) : Char :=
  if n < 10 then Char.ofNat (48 + n) else Char.ofNat (87 + n)

/-- One character inside a string literal: quotes, backslashes and control characters are escaped. -/
def escapeChar (c : Char) : List Char :=
  let n := c.toNat
  if c = '"' then ['\\', '"']
  else if c = '\\' then ['\\', '\\']
  else if n = 8 then ['\\', 'b']
  else if n = 9 then ['\\', 't']
  else if n = 10 then ['\\', 'n']
  else if n = 12 then ['\\', 'f']
  else if n = 13 then ['\\', 'r']
  else if n < 32 then ['\\', 'u', '0', '0', hexDigit (n / 16), hexDigit (n % 16)]
  else [c]

def quote (s : String) : String :=
  String.ofList ('"' :: s.toList.flatMap escapeChar ++ ['"'])

/-- The text of a value that has no parts. -/
def scalarText : Json → String
  | bool b => if b then "true" else "false"
  | int n => toString n
  | float x => Decimal.render .json x
  | str s => quote s
  | _ => "null"

mutual

/-- Text without white space. -/
def compress : Json → String
  | arr items => "[" ++ ",".intercalate (compressItems items) ++ "]"
  | obj members => "\x7b" ++ ",".intercalate (compressMembers members) ++ "\x7d"
  | v => scalarText v
termination_by structural v => v

def compressItems : List Json → List String
  | [] => []
  | v :: vs => v.compress :: compressItems vs
termination_by structural vs => vs

def compressMembers : List (String × Json) → List String
  | [] => []
  | (k, v) :: rest => (quote k ++ ":" ++ v.compress) :: compressMembers rest
termination_by structural ms => ms

end

/-- Parts between brackets, one a line; no parts, no lines. -/
def bracketed (openText closeText : String) (level : Nat) (parts : List String) : String :=
  if parts.isEmpty then openText ++ closeText
  else
    let indent n := "\n" ++ String.ofList (List.replicate (2 * n) ' ')
    openText ++ ",".intercalate (parts.map (indent (level + 1) ++ ·)) ++ indent level ++ closeText

mutual

/-- Text of a value that stands `level` levels deep. -/
def prettyAt (level : Nat) : Json → String
  | arr items => bracketed "[" "]" level (prettyItems (level + 1) items)
  | obj members => bracketed "\x7b" "\x7d" level (prettyMembers (level + 1) members)
  | v => scalarText v
termination_by structural v => v

def prettyItems (level : Nat) : List Json → List String
  | [] => []
  | v :: vs => v.prettyAt level :: prettyItems level vs
termination_by structural vs => vs

def prettyMembers (level : Nat) : List (String × Json) → List String
  | [] => []
  | (k, v) :: rest => (quote k ++ ": " ++ v.prettyAt level) :: prettyMembers level rest
termination_by structural ms => ms

end

/-- Indented text of a value. -/
def pretty (v : Json) : String :=
  v.prettyAt 0

end EchoEngine.Json
