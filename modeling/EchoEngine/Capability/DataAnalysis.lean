import EchoEngine.Capability.Handler
import EchoEngine.Decimal.Numeral
import EchoEngine.Scalar
import EchoEngine.Text.Sentences

/-!
# Data analysis

The plugin `data_analysis` reports on a text. `statistics` summarizes the numbers in it, or its terms
if there are none. `hypergraph_analysis` takes every distinct term for a node and every sentence for a
hyperedge that joins the terms it holds.
-/

namespace EchoEngine.DataAnalysis

open Std (ExtTreeSet)

/-! ### Numbers in a text -/

/-- A numeral of digits with at most one point and one sign in front, and some digit. -/
def numeral? (cs : List Char) : Option Decimal.Numeral :=
  let (negative, cs) : Bool × List Char := match cs with
    | '-' :: rest => (true, rest)
    | _ => (false, cs)
  let whole := cs.takeWhile Char.isDigit
  let (fraction, rest) : List Char × List Char := match cs.dropWhile Char.isDigit with
    | '.' :: rest => (rest.takeWhile Char.isDigit, rest.dropWhile Char.isDigit)
    | rest => ([], rest)
  if rest.isEmpty ∧ !(whole ++ fraction).isEmpty then some ⟨negative, whole, fraction, 0⟩ else none

/-- The characters without the dots at both ends. -/
def trimDots (cs : List Char) : List Char :=
  ((cs.dropWhile (· = '.')).reverse.dropWhile (· = '.')).reverse

/-- The finite numbers among the runs of digits, dots and dashes of a text. -/
def numbers (s : String) : List Float :=
  let runs := Text.splitChars (fun c => !(c.isDigit || c = '.' || c = '-')) s.toList
  ((runs.filterMap fun run => numeral? (trimDots run)).map Decimal.Numeral.toFloat).filter
    Float.isFinite

/-- The lesser of two numbers, the second one of two equals. -/
def lesser (x y : Float) : Float :=
  if x < y then x else y

/-- The greater of two numbers, the second one of two equals. -/
def greater (x y : Float) : Float :=
  if y < x then x else y

/-- Summary of at least one number: least, greatest, mean and population deviation. -/
def numericReport (xs : List Float) : Json :=
  let mean := Scalar.mean xs
  let variance := Scalar.mean (xs.map fun x => (x - mean) * (x - mean))
  .obj [("count", .int xs.length), ("kind", .str "numeric"),
    ("max", .ofFloat (xs.foldl greater (-1 / 0))), ("mean", .ofFloat mean),
    ("min", .ofFloat (xs.foldl lesser (1 / 0))), ("std_dev", .ofFloat variance.sqrt)]

/-- Summary of terms: how many, how many distinct, and their mean length. -/
def termReport (terms : List String) : Json :=
  let total := (terms.map String.length).foldl (· + ·) 0
  let mean : Float := if terms.isEmpty then 0 else .ofNat total / .ofNat terms.length
  .obj [("count", .int terms.length), ("distinct", .int (ExtTreeSet.ofList terms compare).size),
    ("kind", .str "terms"), ("mean_length", .ofFloat mean)]

def statistics (s : String) : Json :=
  match numbers s with
  | [] => termReport (Text.terms s)
  | xs => numericReport xs

/-! ### The hypergraph of a text -/

/-- A hypergraph in figures: its size, the sum of its edge sizes, and its best connected nodes. -/
structure Hypergraph where
  nodes : Nat
  hyperedges : Nat
  incidences : Nat
  hubs : List (String × Nat)
deriving DecidableEq, Repr

def hubLimit : Nat := 5

/-- The hyperedges of a text: the term sets of its sentences that hold a term. -/
def hyperedges (s : String) : List (ExtTreeSet String) :=
  ((Text.sentences s).map Text.termSet).filter fun e => !e.isEmpty

/-- How many of some hyperedges each node is in. -/
def degrees (edges : List (ExtTreeSet String)) : Std.ExtTreeMap String Nat :=
  Text.tally (edges.flatMap ExtTreeSet.toList)

def hypergraph (s : String) : Hypergraph :=
  let edges := hyperedges s
  let degree := degrees edges
  { nodes := degree.size
    hyperedges := edges.length
    incidences := (edges.map ExtTreeSet.size).foldl (· + ·) 0
    hubs := (degree.toList.mergeSort Text.ranksBefore).take hubLimit }

namespace Hypergraph

variable {α : Type} [Scalar α]

/-- The mean number of nodes of a hyperedge; zero without hyperedges. -/
def meanEdgeSize (g : Hypergraph) : α :=
  if g.hyperedges = 0 then 0.0 else Scalar.ofNat g.incidences / Scalar.ofNat g.hyperedges

/-- The share of node and hyperedge pairs that belong together; zero without any. -/
def density (g : Hypergraph) : α :=
  if g.nodes = 0 ∨ g.hyperedges = 0 then 0.0
  else Scalar.ofNat g.incidences / Scalar.ofNat (g.nodes * g.hyperedges)

def toJson (g : Hypergraph) : Json :=
  .obj [("density", .ofFloat g.density),
    ("hubs", .arr (g.hubs.map fun (term, n) => .obj [("degree", .int n), ("term", .str term)])),
    ("hyperedges", .int g.hyperedges), ("mean_edge_size", .ofFloat g.meanEdgeSize),
    ("nodes", .int g.nodes)]

end Hypergraph

/-! ### The plugin -/

def operations : List String := ["statistics", "hypergraph_analysis"]

/-- A report with more members, in ascending order of their names. -/
def addMembers (report : Json) (more : List (String × Json)) : Json :=
  match report with
  | .obj members => .obj (Json.sortMembers (members ++ more))
  | v => v

def reply (q : Request) (p : Parameters) : Except Error Reply := do
  let operation ← Handler.operation "data_analysis" operations p
  let s ← q.text p
  let report := if operation = "hypergraph_analysis" then (hypergraph s).toJson else statistics s
  let integration := match p.optText "cognitive_integration" with
    | .ok (some i) => [("integration", Json.str i)]
    | _ => []
  return .json (addMembers report (("operation", .str operation) :: integration))

def plugin : Handler where
  name := "data_analysis"
  description := "Numeric/term statistics and hypergraph structure "
    ++ "(terms as nodes, sentences as hyperedges)."
  operations := operations
  schema := none
  readOnly := false
  enabled := true
  run q p := some (.ofExcept id (reply q p))

end EchoEngine.DataAnalysis
