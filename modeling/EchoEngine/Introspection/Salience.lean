import EchoEngine.Decimal.Layout
import EchoEngine.Error
import EchoEngine.Files.Path
import EchoEngine.Scalar

/-!
# Salience

A file's score weighs two signals, each a number from zero to one. Its coherence says how close its
kind is to source text and how near it lies to the root; its novelty halves with every half-life by
which it is older than the newest file. The weighted sum `s` is scored `s / (1 + s)`.
-/

namespace EchoEngine

/-- What a file is, as far as its name tells. -/
inductive FileCategory where
  | source
  | configuration
  | documentation
  | binary
  | other
deriving DecidableEq, Repr

namespace FileCategory

def configurationNames : List String := ["Makefile", "Dockerfile", "CMakeLists.txt"]

def extensions : FileCategory → List String
  | source => ["rs", "go", "py", "ts", "tsx", "js", "jsx", "c", "h", "cc", "cpp", "hpp", "java", "kt",
    "swift", "rb", "sh"]
  | configuration => ["toml", "json", "yaml", "yml", "mod", "ini", "cfg"]
  | documentation => ["md", "txt", "rst", "adoc"]
  | binary => ["lock", "sum", "png", "jpg", "jpeg", "gif", "ico", "pdf", "zip", "gz", "tar", "so",
    "dylib", "dll", "exe", "bin", "wasm", "o", "a", "class", "jar"]
  | other => []

/-- The category that an extension stands for, the case of its ASCII letters aside. -/
def ofExtension (ext : String) : FileCategory :=
  let folded := String.ofList (ext.toList.map Char.toLower)
  ([source, configuration, documentation, binary].find? fun c =>
    c.extensions.contains folded).getD other

/-- The category of the file that a path leads to. -/
def ofPath (path : String) : FileCategory :=
  if (Files.Path.fileName? path).any configurationNames.contains then configuration
  else ofExtension ((Files.Path.extension? path).getD "")

variable {α : Type} [Scalar α]

/-- How much a category says about the structure of a tree. -/
def weight : FileCategory → α
  | source => 1.0
  | configuration => 0.8
  | documentation => 0.6
  | binary => 0.1
  | other => 0.3

end FileCategory

/-- How much each signal counts. -/
structure Weights (α : Type) where
  coherence : α
  novelty : α
deriving DecidableEq, Repr

namespace Weights

def standard : Weights Float :=
  ⟨0.6, 0.4⟩

/-- A weight as it was given under a name, if it is a number from zero on. -/
def check (name : String) (w : Float) : Except Error Float :=
  if !w.isFinite || decide (w < 0) then
    .error (.invalidParameter (name ++ " must be a finite, non-negative number, got "
      ++ Decimal.render .plain w))
  else .ok w

def new (coherence novelty : Float) : Except Error (Weights Float) := do
  let coherence ← check "coherence_weight" coherence
  let novelty ← check "novelty_weight" novelty
  return ⟨coherence, novelty⟩

def toJson (w : Weights Float) : Json :=
  .obj [("coherence", .ofFloat w.coherence), ("novelty", .ofFloat w.novelty)]

def ofJson? : Json.Reader (Weights Float) := fun v => do
  let fs ← Json.Fields.of? ["coherence", "novelty"] v
  return ⟨← fs.required "coherence" Json.Reader.float, ← fs.required "novelty" Json.Reader.float⟩

end Weights

namespace Salience

variable {α : Type} [Scalar α]

/-- Coherence of a file below `depth` directories. -/
def coherence (category : FileCategory) (depth : Nat) : α :=
  0.7 * category.weight + 0.3 / (1.0 + Scalar.ofNat depth)

/-- Nanoseconds as a number of seconds. -/
def seconds (nanoseconds : Nat) : α :=
  Scalar.ofNat (nanoseconds / 1000000000)
    + Scalar.ofNat (nanoseconds % 1000000000) / Scalar.ofNat 1000000000

/-- Novelty of a file by its age in nanoseconds. -/
def novelty (age halfLife : Nat) : α :=
  Scalar.halfPow (seconds age / Scalar.ofNat halfLife)

/-- The score of two signals under weights. -/
def score (w : Weights α) (coherence novelty : α) : α :=
  let s := w.coherence * coherence + w.novelty * novelty
  s / (1.0 + s)

/-! ### The attention threshold -/

/-- The order of scores. A score that is no number, which overflowing weights give, is below all
others. -/
def order (x y : α) : Ordering :=
  match Scalar.isNumber x, Scalar.isNumber y with
  | true, true => Scalar.order x y
  | a, b => compare a b

/-- The rank, from one to `count`, of a percentile of `count` values: the least number of them that
make up that share. -/
def rank (percentile : Float) (count : Nat) : Nat :=
  min (max (Decimal.ceilNat (Scalar.clamp 0.0 1.0 percentile * Scalar.ofNat count) count) 1) count

/-- Values in ascending order. -/
def sorted (order : α → α → Ordering) (xs : List α) : List α :=
  xs.mergeSort fun x y => (order x y).isLE

/-- The value at the rank of a percentile; zero if there is none. -/
def threshold (order : α → α → Ordering) (xs : List α) (percentile : Float) : α :=
  ((sorted order xs)[rank percentile xs.length - 1]?).getD 0.0

end Salience

end EchoEngine
