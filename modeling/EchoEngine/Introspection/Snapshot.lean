import EchoEngine.Introspection.Salience

/-!
# Snapshots

A snapshot is what one introspection of a tree has found: the salient files, those that score at or
above the attention threshold, ordered by falling score, equal scores by path. The threshold is the
score at the percentile of all files, so at least one file is salient as long as scores are numbers.
-/

namespace EchoEngine

structure SalientFile (α : Type) where
  /-- The path from the root. -/
  path : String
  salience : α
  coherence : α
  novelty : α
  /-- Directories between the root and the file. -/
  depth : Nat
deriving DecidableEq, Repr

namespace SalientFile

def toJson (f : SalientFile Float) : Json :=
  .obj [("path", .str f.path), ("salience", .ofFloat f.salience), ("coherence", .ofFloat f.coherence),
    ("novelty", .ofFloat f.novelty), ("depth", .int f.depth)]

def ofJson? : Json.Reader (SalientFile Float) := fun v => do
  let fs ← Json.Fields.of? ["path", "salience", "coherence", "novelty", "depth"] v
  return {
    path := ← fs.required "path" Json.Reader.string
    salience := ← fs.required "salience" Json.Reader.float
    coherence := ← fs.required "coherence" Json.Reader.float
    novelty := ← fs.required "novelty" Json.Reader.float
    depth := ← fs.required "depth" Json.Reader.word }

end SalientFile

/-- A path that could not be looked at, and why. -/
structure SkippedPath where
  path : String
  reason : String
deriving DecidableEq, Repr

namespace SkippedPath

def toJson (p : SkippedPath) : Json :=
  .obj [("path", .str p.path), ("reason", .str p.reason)]

def ofJson? : Json.Reader SkippedPath := fun v => do
  let fs ← Json.Fields.of? ["path", "reason"] v
  return ⟨← fs.required "path" Json.Reader.string, ← fs.required "reason" Json.Reader.string⟩

end SkippedPath

structure Snapshot (α : Type) where
  root : String
  processed : Nat
  /-- Files that score below the threshold. -/
  filtered : Nat
  threshold : α
  salient : List (SalientFile α)
  skipped : List SkippedPath
deriving DecidableEq, Repr

namespace Snapshot

variable {α : Type} [Scalar α]

/-- Higher scores first, equal ones in ascending order of the path. -/
def ranksBefore (a b : SalientFile α) : Bool :=
  ((Scalar.order b.salience a.salience).then (compare a.path b.path)).isLE

/-- The snapshot of scored files. -/
def ofFiles (root : String) (percentile : Float) (files : List (SalientFile α)) : Snapshot α :=
  let threshold := Salience.threshold Salience.order (files.map (·.salience)) percentile
  let salient := (files.filter fun f => threshold ≤ f.salience).mergeSort ranksBefore
  { root
    processed := files.length
    filtered := files.length - salient.length
    threshold
    salient
    skipped := [] }

/-- The mean coherence of the salient files, if there are any. -/
def meanCoherence? (s : Snapshot α) : Option α :=
  if s.salient.isEmpty then none else some (Scalar.mean (s.salient.map (·.coherence)))

/-- The greatest depth of a salient file. -/
def treeDepth (s : Snapshot α) : Nat :=
  (s.salient.map (·.depth)).foldl max 0

def toJson (s : Snapshot Float) : Json :=
  .obj [("root", .str s.root), ("processed_files", .int s.processed),
    ("filtered_files", .int s.filtered), ("attention_threshold", .ofFloat s.threshold),
    ("salient_files", .arr (s.salient.map SalientFile.toJson)),
    ("skipped", .arr (s.skipped.map SkippedPath.toJson))]

def ofJson? : Json.Reader (Snapshot Float) := fun v => do
  let fs ← Json.Fields.of? ["root", "processed_files", "filtered_files", "attention_threshold",
    "salient_files", "skipped"] v
  return {
    root := ← fs.required "root" Json.Reader.string
    processed := ← fs.required "processed_files" Json.Reader.word
    filtered := ← fs.required "filtered_files" Json.Reader.word
    threshold := ← fs.required "attention_threshold" Json.Reader.float
    salient := ← fs.required "salient_files" (Json.Reader.list SalientFile.ofJson?)
    skipped := ← fs.required "skipped" (Json.Reader.list SkippedPath.ofJson?) }

end Snapshot

end EchoEngine
