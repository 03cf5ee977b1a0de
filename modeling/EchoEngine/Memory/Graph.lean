import EchoEngine.Identifier
import EchoEngine.Memory.FoldPlan
import EchoEngine.Memory.KeySets
import EchoEngine.Settings

/-!
# The memory graph

The graph holds what has been met: files and directories of introspected trees, agents, and the
memories of their completed tasks. Its nodes are known by their keys; every edge is noted at both of
its ends, and edges are counted as they come and go. Files are joined to their directories and these
to their parents; files whose names share topics that are not too common are joined to each other;
memories are joined to the hub of their agent. The files directly in a directory form a hyperedge.

Folding a snapshot and recording a memory both report how many nodes and edges they have created.
Only memories are ever removed: the oldest ones, past a capacity.
-/

namespace EchoEngine

open Std (ExtTreeMap ExtTreeSet)

inductive NodeKind where
  | file
  | directory
  | agent
  | memory
deriving DecidableEq, Repr

namespace NodeKind

def all : List NodeKind :=
  [file, directory, agent, memory]

def name : NodeKind → String
  | file => "file"
  | directory => "directory"
  | agent => "agent"
  | memory => "memory"

def toJson (k : NodeKind) : Json :=
  .str k.name

def ofJson? : Json.Reader NodeKind :=
  Json.Reader.oneOf all name

end NodeKind

structure MemoryNode (α : Type) where
  kind : NodeKind
  /-- The parent directory of a file or directory, the hub of a memory. -/
  group : Option String
  topics : ExtTreeSet String
  /-- The latest salience of a file, one for everything else. -/
  weight : α
  /-- How often the node has been met. The counter has 32 bits, and past the last number it starts again at zero. -/
  visits : UInt32
deriving DecidableEq

namespace MemoryNode

/-- A node that has been met before, met again. -/
def revisit {α : Type} (old new : MemoryNode α) : MemoryNode α :=
  { old with visits := old.visits + 1, weight := new.weight, topics := old.topics ∪ new.topics }

/-- The node of a planned file. -/
def ofFile {α : Type} (f : PlannedFile α) : MemoryNode α :=
  ⟨.file, some f.directory, f.topics, f.weight, 1⟩

/-- The node of a directory with a parent or of a root. -/
def ofDirectory {α : Type} [Scalar α] (parent : Option String) : MemoryNode α :=
  ⟨.directory, parent, ∅, 1.0, 1⟩

/-- The node of an agent, to which its memories are joined. -/
def hub {α : Type} [Scalar α] : MemoryNode α :=
  ⟨.agent, none, ∅, 1.0, 1⟩

/-- The node of a memory of a task. -/
def ofMemory {α : Type} [Scalar α] (hub : String) (topics : ExtTreeSet String) : MemoryNode α :=
  ⟨.memory, some hub, topics, 1.0, 1⟩

def toJson (n : MemoryNode Float) : Json :=
  .obj [("kind", n.kind.toJson), ("group", .ofOption .str n.group),
    ("topics", .ofStrings n.topics.toList), ("weight", .ofFloat n.weight), ("visits", .int n.visits.toNat)]

def ofJson? : Json.Reader (MemoryNode Float) := fun v => do
  let fs ← Json.Fields.of? ["kind", "group", "topics", "weight", "visits"] v
  return {
    kind := ← fs.required "kind" NodeKind.ofJson?
    group := ← fs.nullable "group" Json.Reader.string
    topics := .ofList (← fs.required "topics" (Json.Reader.list Json.Reader.string)) compare
    weight := ← fs.required "weight" Json.Reader.float
    visits := .ofNat (← fs.required "visits" (Json.Reader.natBelow (Nat.pow 2 32))) }

end MemoryNode

/-- How many nodes and edges have been created. -/
structure Growth where
  nodes : Nat
  edges : Nat
deriving DecidableEq, Repr

namespace Growth

def none : Growth := ⟨0, 0⟩

instance : Add Growth where
  add a b := ⟨a.nodes + b.nodes, a.edges + b.edges⟩

end Growth

structure MemoryGraph (α : Type) where
  settings : GraphSettings
  nodes : ExtTreeMap String (MemoryNode α)
  /-- The keys that edges join to each key. -/
  adjacency : KeySets
  /-- How many edges there are. -/
  edgeCount : Nat
  /-- The files directly in each directory. -/
  hyperedges : KeySets
  /-- The files that carry each topic. -/
  carriers : KeySets
  /-- The keys of memories, the oldest one first. -/
  memories : List String

/-- A graph with what has been created in it since some moment. -/
structure Growing (α : Type) where
  graph : MemoryGraph α
  created : Growth

namespace MemoryGraph

variable {α : Type}

def empty (settings : GraphSettings) : MemoryGraph α :=
  ⟨settings, ∅, ∅, 0, ∅, ∅, []⟩

/-! ### Reading -/

def nodeCount (g : MemoryGraph α) : Nat :=
  g.nodes.size

def hyperedgeCount (g : MemoryGraph α) : Nat :=
  g.hyperedges.size

def node? (g : MemoryGraph α) (key : String) : Option (MemoryNode α) :=
  g.nodes[key]?

def contains (g : MemoryGraph α) (key : String) : Bool :=
  g.nodes.contains key

/-- Whether an edge joins two keys. -/
def adjacent (g : MemoryGraph α) (a b : String) : Bool :=
  (g.adjacency.members a).contains b

/-- The keys that edges join to a key, in ascending order. -/
def neighbors (g : MemoryGraph α) (key : String) : List String :=
  (g.adjacency.members key).toList

/-- The files directly in a directory, if there are any. -/
def hyperedge? (g : MemoryGraph α) (directory : String) : Option (ExtTreeSet String) :=
  g.hyperedges[directory]?

/-- The other files that carry a topic, unless too many files carry it. -/
def sharers (g : MemoryGraph α) (key topic : String) : List String :=
  let files := g.carriers.members topic
  if g.settings.maxTopicFanout < files.size then [] else files.toList.filter (· ≠ key)

/-- The files that share enough topics with one. -/
def partners (g : MemoryGraph α) (key : String) : List String :=
  match g.node? key with
  | some n =>
    let shared := Text.tally (n.topics.toList.flatMap (g.sharers key))
    (shared.toList.filter fun p => g.settings.minSharedTopics ≤ p.2).map Prod.fst
  | none => []

/-! ### Removing -/

/-- The graph without what another key notes of its edge to a removed one. -/
def unlink (key : String) (g : MemoryGraph α) (other : String) : MemoryGraph α :=
  { g with adjacency := g.adjacency.withdraw other key, edgeCount := g.edgeCount - 1 }

/-- The graph without a node and without the edges it is an end of. -/
def remove (g : MemoryGraph α) (key : String) : MemoryGraph α :=
  (g.neighbors key).foldl (unlink key)
    { g with nodes := g.nodes.erase key, adjacency := g.adjacency.erase key }

/-- The graph without its oldest memory. -/
def dropOldest (g : MemoryGraph α) : MemoryGraph α :=
  match g.memories with
  | [] => g
  | oldest :: rest => { g with memories := rest }.remove oldest

/-- The graph without the oldest memories past the capacity. -/
def evict (g : MemoryGraph α) : MemoryGraph α :=
  Nat.repeat dropOldest (g.memories.length - g.settings.memoryCapacity) g

/-! ### Keys -/

/-- The key of the hub of an agent. -/
def hubKey (agent : AgentId) : String :=
  "agent://" ++ agent.text

/-- The key of the memory of a task. -/
def memoryKey (agent : AgentId) (task : String) : String :=
  "memory://" ++ agent.text ++ "/" ++ task

/-- Keywords by which a memory is known. -/
def memoryTopics : Nat := 5

end MemoryGraph

namespace Growing

variable {α : Type}

/-- Meets a node: creates it, or visits it again. -/
def meet (w : Growing α) (key : String) (n : MemoryNode α) : Growing α :=
  match w.graph.node? key with
  | some old => { w with graph := { w.graph with nodes := w.graph.nodes.insert key (old.revisit n) } }
  | none =>
    { graph := { w.graph with nodes := w.graph.nodes.insert key n }
      created := w.created + ⟨1, 0⟩ }

/-- Meets a memory; a new one is the youngest. -/
def meetMemory (w : Growing α) (key : String) (n : MemoryNode α) : Growing α :=
  let memories := if w.graph.contains key then w.graph.memories else w.graph.memories ++ [key]
  let w := w.meet key n
  { w with graph := { w.graph with memories } }

/-- Joins two different keys that are not joined yet. -/
def join (w : Growing α) (a b : String) : Growing α :=
  if a = b ∨ w.graph.adjacent a b then w
  else
    { graph := { w.graph with
        adjacency := (w.graph.adjacency.enroll a b).enroll b a
        edgeCount := w.graph.edgeCount + 1 }
      created := w.created + ⟨0, 1⟩ }

/-- Joins two keys if ancestry is linked. -/
def joinAncestor (w : Growing α) (key parent : String) : Growing α :=
  if w.graph.settings.ancestryEdges then w.join key parent else w

/-- Adds a file to the carriers of its topics. -/
def carry (w : Growing α) (key : String) (topics : ExtTreeSet String) : Growing α :=
  let carriers := topics.toList.foldl (fun sets topic => KeySets.enroll sets topic key) w.graph.carriers
  { w with graph := { w.graph with carriers } }

/-- Adds a file to the hyperedge of its directory. -/
def gather (w : Growing α) (directory key : String) : Growing α :=
  { w with graph := { w.graph with hyperedges := w.graph.hyperedges.enroll directory key } }

/-- Adds a file to the carriers of its topics, to the nodes and to the hyperedge of its directory. -/
def addFile (w : Growing α) (f : PlannedFile α) : Growing α :=
  (((w.carry f.key f.topics).meet f.key (.ofFile f)).joinAncestor f.key f.directory).gather
    f.directory f.key

def addFiles (w : Growing α) (files : List (PlannedFile α)) : Growing α :=
  files.foldl addFile w

/-- Joins a file to the files that share topics with it. -/
def joinPartners (w : Growing α) (f : PlannedFile α) : Growing α :=
  (w.graph.partners f.key).foldl (fun w other => w.join f.key other) w

/-- Joins files to those that share topics with them, if topics are linked. -/
def joinTopics (w : Growing α) (files : List (PlannedFile α)) : Growing α :=
  if w.graph.settings.topicEdges then files.foldl joinPartners w else w

variable [Scalar α]

/-- Adds a directory with its parent. -/
def addDirectory (w : Growing α) (d : String × Option String) : Growing α :=
  let w := w.meet d.1 (.ofDirectory d.2)
  match d.2 with
  | some parent => w.joinAncestor d.1 parent
  | none => w

def addDirectories (w : Growing α) (directories : ExtTreeMap String (Option String)) : Growing α :=
  directories.toList.foldl addDirectory w

end Growing

namespace MemoryGraph

variable {α : Type} [Scalar α]

/-- The graph with the directories of a plan, then its files, before these are joined to each other. -/
def enter (g : MemoryGraph α) (plan : FoldPlan α) : Growing α :=
  (Growing.addDirectories ⟨g, .none⟩ plan.directories).addFiles plan.files

/-- The graph with all that a plan adds. -/
def fold (g : MemoryGraph α) (plan : FoldPlan α) : Growing α :=
  (g.enter plan).joinTopics plan.files

/-- The graph with the memory of a completed task, joined to the hub of its agent. -/
def remember (g : MemoryGraph α) (agent : AgentId) (task summary : String) : Growing α :=
  let hub := hubKey agent
  let key := memoryKey agent task
  let topics : ExtTreeSet String :=
    .ofList ((Text.keywords summary memoryTopics).map Prod.fst) compare
  let w := Growing.meet ⟨g, .none⟩ hub .hub
  (w.meetMemory key (.ofMemory hub topics)).join key hub

/-- The graph with the memory of a completed task and without the oldest ones past the capacity. -/
def record (g : MemoryGraph α) (agent : AgentId) (task summary : String) : Growing α :=
  let w := g.remember agent task summary
  { w with graph := w.graph.evict }

end MemoryGraph

end EchoEngine
