import EchoEngine.Introspection.Snapshot
import EchoEngine.Text.Terms

/-!
# Fold plans

A fold plan says what a snapshot adds to the memory graph: its files with their directories and
topics, and every directory from them up to the root with its parent. A directory is registered
together with all of its ancestors, so the way up ends at the first one that is already known.
-/

namespace EchoEngine

open Std (ExtTreeMap ExtTreeSet)

structure PlannedFile (α : Type) where
  key : String
  /-- The key of the directory that holds the file. -/
  directory : String
  topics : ExtTreeSet String
  weight : α
deriving DecidableEq

structure FoldPlan (α : Type) where
  files : List (PlannedFile α)
  /-- The parent of every directory; the root has none. -/
  directories : ExtTreeMap String (Option String)
deriving DecidableEq

namespace FoldPlan

/-- The key of the root directory: its path without slashes at the end. -/
def rootKey (root : String) : String :=
  match root.toList.reverse.dropWhile (· = '/') with
  | [] => "/"
  | cs => String.ofList cs.reverse

/-- The key of something below the root. -/
def keyBelow (root rel : String) : String :=
  if root.toList.getLast? = some '/' then root ++ rel else root ++ "/" ++ rel

/-- The key of the directory that pieces of a path, the last one first, lead to. -/
def directoryKey (root : String) : List String → String
  | [] => root
  | pieces => keyBelow root ("/".intercalate pieces.reverse)

/-- The directories with the one that pieces, the last one first, lead to, and all above it. -/
def register (root : String) (known : ExtTreeMap String (Option String)) :
    List String → ExtTreeMap String (Option String)
  | [] => known
  | piece :: above =>
    let key := directoryKey root (piece :: above)
    if known.contains key then known
    else register root (known.insert key (some (directoryKey root above))) above

/-- The pieces of a path to the directory of a file, the last one first. -/
def directoryPieces (path : String) : List String :=
  (Text.splitBy (· == '/') path).reverse.drop 1

/-- The name of a file up to its first dot. -/
def stem (path : String) : String :=
  let name := ((Text.splitBy (· == '/') path).getLast?).getD ""
  String.ofList (name.toList.takeWhile (· ≠ '.'))

variable {α : Type}

/-- A salient file as the graph holds it. -/
def plannedFile (root : String) (f : SalientFile α) : PlannedFile α where
  key := keyBelow root f.path
  directory := directoryKey root (directoryPieces f.path)
  topics := Text.identifierTopics (stem f.path)
  weight := f.salience

/-- The plan of files below a root. -/
def ofFiles (root : String) (files : List (SalientFile α)) : FoldPlan α :=
  let start : ExtTreeMap String (Option String) :=
    if files.isEmpty then ∅ else (∅ : ExtTreeMap String (Option String)).insert root none
  { files := files.map (plannedFile root)
    directories := files.foldl (fun known f => register root known (directoryPieces f.path)) start }

def ofSnapshot (s : Snapshot α) : FoldPlan α :=
  ofFiles (rootKey s.root) s.salient

end FoldPlan

end EchoEngine
