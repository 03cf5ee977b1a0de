import EchoEngine.Capability.Handler
import EchoEngine.Capability.Workspace
import EchoEngine.Text.Lines

/-!
# Reading files

The tool `read` shows numbered lines of one file of a workspace: those from `offset` on, at most
`limit` of them.
-/

namespace EchoEngine.ReadFile

def defaultLimit : Nat := 2000

/-- Lines with their numbers, from one on. -/
def number (lines : List String) : List (Nat × String) :=
  (List.range' 1 lines.length).zip lines

/-- The numbered lines from `first` on, at most `limit` of them. -/
def window (first limit : Nat) (lines : List String) : List (Nat × String) :=
  ((number lines).drop (first - 1)).take limit

/-- A number in at least six columns. -/
def column (n : Nat) : String :=
  let digits := toString n
  String.ofList (List.replicate (6 - digits.length) ' ') ++ digits

def showLine (l : Nat × String) : String :=
  column l.1 ++ "\t" ++ l.2

/-- The window of a text as it is shown. -/
def page (first limit : Nat) (text : String) : String :=
  let lines := Text.lines text
  match window first limit lines with
  | [] => "(no lines in range; file has " ++ toString lines.length ++ " lines)"
  | shown => "\n".intercalate (shown.map showLine)

/-- The natural number not below `low` nearest to an integer. -/
def atLeast (low : Nat) (n : Int64) : Nat :=
  max low n.toInt.toNat

def read (ws : Workspace) (p : Parameters) : Except Error String := do
  let path ← match ← p.optText "file_path" with
    | some path => pure path
    | none => p.getText "path"
  let first := ((← p.optInt "offset").map (atLeast 1)).getD 1
  let limit := ((← p.optInt "limit").map (atLeast 0)).getD defaultLimit
  let file ← ws.existing path
  match ws.world.readText file with
  | .ok text => return page first limit text
  | .error e => throw (.io e.message)

def schema : Json :=
  .obj [
    ("properties", .obj [
      ("file_path", .obj [("description", .str "Path inside the workspace"), ("type", .str "string")]),
      ("limit", .obj [("description", .str "Line cap (default 2000)"), ("type", .str "integer")]),
      ("offset", .obj [("description", .str "First line, 1-indexed"), ("type", .str "integer")])]),
    ("required", .ofStrings ["file_path"]),
    ("type", .str "object")]

def tool (ws : Workspace) : Handler where
  name := "read"
  description := "Numbered lines of a workspace file, optionally windowed by offset and limit."
  operations := []
  schema := schema
  readOnly := true
  enabled := true
  run _ p := some (.ofResult (read ws p))

end EchoEngine.ReadFile
