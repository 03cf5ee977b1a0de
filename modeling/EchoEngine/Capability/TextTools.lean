import EchoEngine.Capability.Handler
import EchoEngine.Text.CaseMap
import EchoEngine.Text.Lines
import EchoEngine.Text.Sentences

/-!
# Text tools

The tool `text_stats` counts what a text is made of, and `text_transform` rewrites a text by one of
five operations.
-/

namespace EchoEngine.TextTools

/-- The counts of a text. -/
structure Stats where
  characters : Nat
  words : Nat
  lines : Nat
  sentences : Nat
  distinctTerms : Nat
deriving DecidableEq, Repr

def stats (s : String) : Stats where
  characters := s.length
  words := (Text.words s).length
  lines := (Text.lines s).length
  sentences := (Text.sentences s).length
  distinctTerms := (Text.termSet s).size

def Stats.toJson (s : Stats) : Json :=
  .obj [("characters", .int s.characters), ("distinct_terms", .int s.distinctTerms),
    ("lines", .int s.lines), ("sentences", .int s.sentences), ("words", .int s.words)]

def statsSchema : Json :=
  .obj [
    ("properties", .obj [
      ("text", .obj [("description", .str "Text to measure (default: task input)"),
        ("type", .str "string")])]),
    ("type", .str "object")]

def statsTool : Handler where
  name := "text_stats"
  description := "Count characters, words, lines, sentences and distinct terms of a text."
  operations := []
  schema := statsSchema
  readOnly := true
  enabled := true
  run q p := some (.ofExcept (fun s => .json (stats s).toJson) (q.text p))

/-- Every word between single spaces with a capital first and small letters after it. -/
def titleCase (s : String) : String :=
  String.ofList ([' '].intercalate ((Text.splitChars (· == ' ') s.toList).map Text.capitalize))

def operations : List String := ["upper", "lower", "reverse", "title", "trim"]

def transform? (operation s : String) : Option String :=
  match operation with
  | "upper" => some (Text.upper s)
  | "lower" => some (Text.lower s)
  | "reverse" => some (String.ofList s.toList.reverse)
  | "title" => some (titleCase s)
  | "trim" => some (Text.trim s)
  | _ => none

def transformReply (q : Request) (p : Parameters) : Except Error Reply := do
  let operation ← p.getText "operation"
  let s ← q.text p
  match transform? operation s with
  | some out => return .text out
  | none => return .error ("Unknown operation '" ++ operation ++ "' (expected one of: "
      ++ ", ".intercalate operations ++ ")")

def transformSchema : Json :=
  .obj [
    ("properties", .obj [
      ("operation", .obj [("description", .str "Operation to apply"),
        ("enum", .ofStrings operations), ("type", .str "string")]),
      ("text", .obj [("description", .str "Text to transform (default: task input)"),
        ("type", .str "string")])]),
    ("required", .ofStrings ["operation"]),
    ("type", .str "object")]

def transformTool : Handler where
  name := "text_transform"
  description := "Apply a string operation (upper, lower, reverse, title, trim) to a text."
  operations := []
  schema := transformSchema
  readOnly := true
  enabled := true
  run q p := some (.ofExcept id (transformReply q p))

end EchoEngine.TextTools
