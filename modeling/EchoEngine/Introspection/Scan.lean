import EchoEngine.Files.Glob
import EchoEngine.Files.World
import EchoEngine.Introspection.Snapshot
import EchoEngine.Settings

/-!
# Scanning a tree

A scan visits the regular files below a root directory. It follows no link, goes no deeper than the
settings say, and passes over hidden names and over every entry that an ignore pattern finds by its
path from the root or by its bare name, with all that is below it. Scores depend on the shape of the
tree and on ages relative to the newest file, so a tree that does not change keeps its scores.
-/

namespace EchoEngine

open Files

/-- Settings whose ignore patterns have been read. -/
structure Scanner where
  settings : IntrospectionSettings
  ignored : List (List Glob.Token)

namespace Scanner

/-- An ignore pattern, read. -/
def parsePattern (pattern : String) : Except Error (List Glob.Token) :=
  match Glob.parse pattern with
  | .ok ts => .ok ts
  | .error e => .error (.config
      ("invalid ignore pattern '" ++ pattern ++ "': " ++ e.message pattern))

def new (settings : IntrospectionSettings) : Except Error Scanner := do
  settings.validate
  return ⟨settings, ← settings.ignore.mapM parsePattern⟩

/-- Whether the entry that a list of names leads to is passed over; the root never is. -/
def ignores (s : Scanner) (names : List String) : Bool :=
  match names.getLast? with
  | none => false
  | some name =>
    (s.settings.skipHidden && name.toList.head? = some '.')
      || Glob.anyAccepts s.ignored ("/".intercalate names) || Glob.anyAccepts s.ignored name

/-- The time of the newest of some files. -/
def newest : List Visit → Int
  | [] => 0
  | v :: vs => (vs.map (·.modified)).foldl max v.modified

variable {α : Type} [Scalar α]

/-- A visited file with its score. -/
def scored (s : Scanner) (w : Weights α) (newest : Int) (v : Visit) : SalientFile α :=
  let path := "/".intercalate v.names
  let depth := v.names.length - 1
  let coherence := Salience.coherence (FileCategory.ofPath path) depth
  let novelty := Salience.novelty (newest - v.modified).toNat s.settings.halfLife
  { path, salience := Salience.score w coherence novelty, coherence, novelty, depth }

/-- The snapshot of visited files. -/
def snapshot (s : Scanner) (w : Weights α) (root : String) (visits : List Visit) : Snapshot α :=
  .ofFiles root s.settings.percentile (visits.map (s.scored w (newest visits)))

/-- The names that a scan goes down by: one more than directories, counted in 64 bits. -/
def limit (s : Scanner) : Nat :=
  min (s.settings.maxDepth + 1) (Nat.pow 2 64 - 1)

/-- The files below a directory that a scan visits. -/
def visits (s : Scanner) (n : Node) : List Visit :=
  n.walk s.ignores s.limit []

/-- The snapshot of the tree below a root. -/
def scan (s : Scanner) (world : World) (root : String) (w : Weights α) :
    Except Error (Snapshot α) :=
  match world.resolve? root with
  | none => .error (.pathNotFound root)
  | some place =>
    match world.top.find? place with
    | some (.dir entries) => .ok (s.snapshot w (Path.absolute place) (s.visits (.dir entries)))
    | _ => .error (.invalidParameter ("introspection root is not a directory: " ++ root))

end Scanner

end EchoEngine
