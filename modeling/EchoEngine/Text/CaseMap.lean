import EchoEngine.Text.CaseTable

/-!
# Case of letters

Full case mappings: a character may become several. A capital sigma that ends a word becomes the final
small sigma; whether it does is decided by the nearest character on each side that case rules do not
look past (`endsWord`).
-/

namespace EchoEngine.Text

/-- A character through expansions first, then runs, else itself. -/
def mapCase (expansions : List (Nat × List Nat)) (runs : List CaseRun) (c : Char) : List Char :=
  match expansions.find? fun e => e.1 = c.toNat with
  | some (_, targets) => targets.map Char.ofNat
  | none =>
    match runs.find? fun r => r.covers c.toNat with
    | some r => [Char.ofNat (r.apply c.toNat)]
    | none => [c]

/-- The capital form of a character. -/
def upperChar (c : Char) : List Char :=
  if c.toNat < 128 then [c.toUpper] else mapCase upperExpansions upperRuns c

/-- The small form of a character, wherever it stands. -/
def lowerChar (c : Char) : List Char :=
  if c.toNat < 128 then [c.toLower] else mapCase lowerExpansions lowerRuns c

def isCased (c : Char) : Bool :=
  if c.toNat < 128 then c.isAlpha else casedTable.holds c

/-- Marks, modifiers and the punctuation that may stand inside a word. -/
def isCaseIgnorable (c : Char) : Bool :=
  if c.toNat < 128 then c = '\'' || c = '.' || c = ':' || c = '^' || c.toNat = 0x60
  else caseIgnorableTable.holds c

/-- Whether the first character that is not looked past is cased. -/
def reachesCased (cs : List Char) : Bool :=
  match cs.dropWhile isCaseIgnorable with
  | [] => false
  | c :: _ => isCased c

/-- Whether a letter between `before` (nearest first) and `after` is the last of its word. -/
def endsWord (before after : List Char) : Bool :=
  reachesCased before && !reachesCased after

/-- The small form of a text; `before` holds what was read, nearest first. -/
def lowerChars (before : List Char) : List Char → List Char
  | [] => []
  | c :: cs =>
    (if c = 'Σ' then [if endsWord before cs then 'ς' else 'σ'] else lowerChar c)
      ++ lowerChars (c :: before) cs

def upper (s : String) : String :=
  String.ofList (s.toList.flatMap upperChar)

def lower (s : String) : String :=
  String.ofList (lowerChars [] s.toList)

/-- A word with a capital first character and small ones after it. -/
def capitalize : List Char → List Char
  | [] => []
  | c :: cs => upperChar c ++ cs.flatMap lowerChar

end EchoEngine.Text
