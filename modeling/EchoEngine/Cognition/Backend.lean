import EchoEngine.Parameters
import EchoEngine.Text.Blank
import EchoEngine.Text.Sentences

/-!
# Cognitive backends

A backend analyzes a text; it may refuse to, and it may never answer. The local backend sums a text
up: how many sentences and distinct terms it has, and its most frequent terms, more of them the
deeper the analysis.
-/

namespace EchoEngine

structure Backend where
  name : String
  /-- Whether the backend can serve requests now. -/
  available : Bool
  /-- The analysis of a text, or `none` if it never comes. -/
  analyze : String → Parameters → Option (Except Error String)
deriving Inhabited

inductive DepthLevel where
  | surface
  | deep
  | recursive
deriving DecidableEq, Repr, Inhabited

namespace DepthLevel

def all : List DepthLevel :=
  [surface, deep, recursive]

def name : DepthLevel → String
  | surface => "surface"
  | deep => "deep"
  | recursive => "recursive"

/-- The level that parameter `depth_level` asks for. -/
def ofParameters (p : Parameters) : Except Error DepthLevel := do
  match ← p.optText "depth_level" with
  | none => return surface
  | some given =>
    match all.find? fun l => l.name = given with
    | some l => return l
    | none => throw (.invalidParameter
        ("depth_level must be surface, deep or recursive, got '" ++ given ++ "'"))

/-- How many themes an analysis names. -/
def themes : DepthLevel → Nat
  | surface => 3
  | deep => 5
  | recursive => 8

end DepthLevel

namespace Backend

/-- A counted term as an analysis names it. -/
def theme (t : String × Nat) : String :=
  t.1 ++ " (" ++ toString t.2 ++ ")"

/-- The summary of a text. -/
def summarize (s : String) (depth : DepthLevel) (scope : String) : String :=
  let themes := (Text.keywords s depth.themes).map theme
  "analysis [depth=" ++ depth.name ++ ", scope=" ++ scope ++ "]: "
    ++ toString (Text.sentences s).length ++ " sentences, " ++ toString (Text.termSet s).size
    ++ " distinct terms; themes: " ++ (if themes.isEmpty then "none" else ", ".intercalate themes)

def analyzeLocally (s : String) (p : Parameters) : Except Error String := do
  if Text.isBlankText s then throw (.invalidParameter "nothing to analyze: input is empty")
  let depth ← DepthLevel.ofParameters p
  let scope ← p.optText "analysis_scope"
  return summarize s depth (scope.getD "focused")

/-- The backend that works in this process. -/
def localEcho : Backend where
  name := "local_echo"
  available := true
  analyze s p := some (analyzeLocally s p)

end Backend

end EchoEngine
