import EchoEngine.Text.Blank

/-!
# Lines

A line ends at a newline, which takes a carriage return just before it along; what follows the last
newline is a line only if it is not empty.
-/

namespace EchoEngine.Text

/-- Drops one carriage return at the end. -/
def dropReturn (cs : List Char) : List Char :=
  if cs.getLast? = some '\r' then cs.dropLast else cs

/-- The lines of a text given as pieces between newlines: the last piece keeps its carriage return. -/
def linesOfPieces : List (List Char) → List (List Char)
  | [] => []
  | [last] => if last.isEmpty then [] else [last]
  | piece :: pieces => dropReturn piece :: linesOfPieces pieces

def lineChars (cs : List Char) : List (List Char) :=
  linesOfPieces (splitChars (· == '\n') cs)

def lines (s : String) : List String :=
  (lineChars s.toList).map String.ofList

end EchoEngine.Text
