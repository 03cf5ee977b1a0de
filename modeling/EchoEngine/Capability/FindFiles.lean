import EchoEngine.Capability.Handler
import EchoEngine.Capability.Workspace
import EchoEngine.Files.Glob

/-!
# Finding files

The tool `glob` lists the files below a directory of a workspace whose path from there matches a
pattern, in ascending order. Hidden names and directories of build products are passed over.
-/

namespace EchoEngine.FindFiles

open Files

def maxResults : Nat := 200

def skippedNames : List String := ["node_modules", "target"]

/-- Names that a search passes over. -/
def isSkipped (name : String) : Bool :=
  name.toList.head? = some '.' || skippedNames.contains name

/-- Whether a search passes over the entry that `names` lead to. -/
def skips (names : List String) : Bool :=
  match names.getLast? with
  | some name => isSkipped name
  | none => false

/-- A found path as it is listed: with slashes for backslashes. -/
def listed (path : String) : String :=
  String.ofList (path.toList.map fun c => if c = '\\' then '/' else c)

/-- The paths below `base`, seen from there, that a pattern matches. -/
def matchesBelow (w : World) (base : String) (pattern : List Glob.Token) : List String :=
  let paths := (w.filesBelow base skips (Nat.pow 2 64)).map fun v => "/".intercalate v.names
  ((paths.filter (Glob.accepts pattern)).map listed).mergeSort

def find (ws : Workspace) (p : Parameters) : Except Error (List String) := do
  let pattern ← p.getText "pattern"
  let base ← ws.directory (← p.optText "path")
  match Glob.parse pattern with
  | .ok ts => return matchesBelow ws.world base ts
  | .error e => throw (.invalidParameter ("invalid glob pattern: " ++ e.message pattern))

/-- What is shown of the paths found: the first ones, and how many more there are. -/
def listing (found : List String) : String :=
  if found.isEmpty then "No files found"
  else "\n".intercalate (found.take maxResults)
    ++ (if maxResults < found.length then
        "\n... (" ++ toString (found.length - maxResults) ++ " more)"
      else "")

def schema : Json :=
  .obj [
    ("properties", .obj [
      ("path", .obj [("description", .str "Subdirectory to search (default: root)"),
        ("type", .str "string")]),
      ("pattern", .obj [("description", .str "e.g. '**/*.rs'"), ("type", .str "string")])]),
    ("required", .ofStrings ["pattern"]),
    ("type", .str "object")]

def tool (ws : Workspace) : Handler where
  name := "glob"
  description := "Workspace-relative paths matching a glob (\x60**\x60 recurses), in lexical order."
  operations := []
  schema := schema
  readOnly := true
  enabled := true
  run _ p := some (.ofExcept (fun found => .text (listing found)) (find ws p))

end EchoEngine.FindFiles
