import EchoEngine.Cognition.State
import EchoEngine.Memory.Graph
import EchoEngine.Task

/-!
# The tracker

The tracker keeps what the state is derived from: the latest task outcomes, a tally for each agent,
the coherence of the latest introspections, two totals and the memory graph. Thoughts, depth and the
size of the graph are kept up to date with every event; health, coherence and stage are computed anew
when the system is initialized or refreshed. Initializing starts all over, but keeps the graph.
-/

namespace EchoEngine

open Std (ExtTreeMap)

/-- How a task has ended. -/
structure Outcome where
  agent : AgentId
  task : String
  type : TaskType
  completed : Bool
  /-- The text that a memory of the task is derived from. -/
  summary : String
deriving DecidableEq, Repr

/-- How the tasks of an agent have ended. -/
structure Tally where
  completed : Nat
  failed : Nat
deriving DecidableEq, Repr

namespace Tally

def count (t : Tally) (completed : Bool) : Tally :=
  if completed then { t with completed := t.completed + 1 } else { t with failed := t.failed + 1 }

def total (t : Tally) : Nat :=
  t.completed + t.failed

/-- The share of completed tasks. -/
def ratio {α : Type} [Scalar α] (t : Tally) : α :=
  Scalar.ofNat t.completed / Scalar.ofNat t.total

end Tally

/-- What folding a snapshot into memory has done. -/
structure FoldReport where
  nodesCreated : Nat
  edgesCreated : Nat
  treeDepth : Nat
deriving DecidableEq, Repr

namespace FoldReport

def toJson (r : FoldReport) : Json :=
  .obj [("nodes_created", .int r.nodesCreated), ("edges_created", .int r.edgesCreated),
    ("tree_depth", .int r.treeDepth)]

def ofJson? : Json.Reader FoldReport := fun v => do
  let fs ← Json.Fields.of? ["nodes_created", "edges_created", "tree_depth"] v
  return {
    nodesCreated := ← fs.required "nodes_created" Json.Reader.word
    edgesCreated := ← fs.required "edges_created" Json.Reader.word
    treeDepth := ← fs.required "tree_depth" Json.Reader.word }

end FoldReport

/-- A snapshot and what folding it has done. -/
structure Introspection where
  snapshot : Snapshot Float
  report : FoldReport

namespace Introspection

def toJson (i : Introspection) : Json :=
  .obj [("cognitive_snapshot", i.snapshot.toJson), ("echo_integration", i.report.toJson)]

def ofJson? : Json.Reader Introspection := fun v => do
  let fs ← Json.Fields.of? ["cognitive_snapshot", "echo_integration"] v
  return ⟨← fs.required "cognitive_snapshot" Snapshot.ofJson?,
    ← fs.required "echo_integration" FoldReport.ofJson?⟩

end Introspection

structure Tracker (α : Type) where
  settings : CognitionSettings
  state : State α
  /-- Whether each of the latest tasks completed, oldest first. -/
  outcomes : List Bool
  /-- The tally of each agent, by its id. -/
  tallies : ExtTreeMap String Tally
  /-- The mean coherence of each of the latest introspections, oldest first. -/
  coherences : List α
  completed : Nat
  introspections : Nat
  graph : MemoryGraph α

namespace Tracker

variable {α : Type} [Scalar α]

/-- A tracker with a graph and nothing else to go by. Its lists grow as events come, so there is one for all
settings; lists that are set up at their full size have to fit the memory of a machine. -/
def fresh (settings : CognitionSettings) (graph : MemoryGraph α) : Tracker α where
  settings
  state := .initial
  outcomes := []
  tallies := ∅
  coherences := []
  completed := 0
  introspections := 0
  graph

def new (settings : CognitionSettings) (graph : GraphSettings) : Tracker α :=
  fresh settings (.empty graph)

/-- A list of the latest things with one more: past the limit the oldest one goes. -/
def remember {β : Type} (limit : Nat) (xs : List β) (x : β) : List β :=
  (if limit ≤ xs.length then xs.drop 1 else xs) ++ [x]

/-! ### Derived values -/

/-- The size of a graph. -/
def resonance (g : MemoryGraph α) : Resonance :=
  ⟨g.nodeCount, g.edgeCount, g.hyperedgeCount⟩

/-- The tracker with the size of the graph published. -/
def publish (t : Tracker α) : Tracker α :=
  { t with state := { t.state with resonance := resonance t.graph } }

/-- The share of the latest tasks that completed, if there are any. -/
def outcomeRatio? (t : Tracker α) : Option α :=
  if t.outcomes.isEmpty then none
  else some (Scalar.ofNat (t.outcomes.count true) / Scalar.ofNat t.outcomes.length)

/-- The mean of the agents' shares of completed tasks; one if no task has ended. -/
def memoryConsistency (t : Tracker α) : α :=
  match ((t.tallies.toList.map Prod.snd).filter fun tally => 0 < tally.total).map Tally.ratio with
  | [] => 1.0
  | ratios => Scalar.mean ratios

/-- The mean coherence of the latest introspections, if there are any. -/
def introspectionCoherence? (t : Tracker α) : Option α :=
  if t.coherences.isEmpty then none else some (Scalar.mean t.coherences)

/-- The health by the latest tasks; not healthy while a required integration is down. -/
def health (t : Tracker α) : SystemHealth :=
  let byOutcomes := match t.outcomeRatio? with
    | some ratio => SystemHealth.ofRatio ratio
    | none => .healthy
  if t.state.integrations.requiredDown.isEmpty then byOutcomes
  else byOutcomes.worse .degraded

def coherence (t : Tracker α) : Coherence α :=
  .derive t.memoryConsistency t.introspectionCoherence? (t.outcomeRatio?.getD 1.0)

/-- The stage earned so far. -/
def earned (t : Tracker α) : Stage :=
  .earned t.completed t.introspections t.coherence.overall

/-- The tracker with every derived value computed anew. -/
def recompute (t : Tracker α) (now : Timestamp) : Tracker α :=
  publish { t with state := { t.state with
    health := t.health
    core := .ofHealth t.state.initialized t.health
    coherence := t.coherence
    timeline := t.state.timeline.advance t.earned now } }

/-! ### Events -/

/-- The required integrations that are down, as an error if there are any. -/
def availability (t : Tracker α) : Except Error Unit :=
  match t.state.integrations.requiredDown with
  | [] => .ok ()
  | names => .error (.capabilityUnavailable (", ".intercalate names))

/-- The tracker with integrations as probes have found them. -/
def probe (t : Tracker α) (probes : List Probe) : Tracker α :=
  { t with state := { t.state with integrations := t.state.integrations.applyAll probes } }

/-- The tracker started all over with the same graph. -/
def start (t : Tracker α) (probes : List Probe) (now : Timestamp) : Tracker α :=
  let t := (fresh t.settings t.graph).probe probes
  recompute { t with state := { t.state with
    initialized := true
    initializedAt := some now
    timeline := .opened now } } now

def refresh (t : Tracker α) (probes : List Probe) (now : Timestamp) : Tracker α :=
  (t.probe probes).recompute now

def record (t : Tracker α) (o : Outcome) : Tracker α :=
  let tally := (t.tallies[o.agent.text]?.getD ⟨0, 0⟩).count o.completed
  let t := { t with
    outcomes := remember t.settings.outcomeWindow t.outcomes o.completed
    tallies := t.tallies.insert o.agent.text tally }
  if o.completed then
    publish { t with
      completed := t.completed + 1
      state := { t.state with
        thoughts := t.state.thoughts + (if o.type.isCognitive then 1 else 0) }
      graph := (t.graph.record o.agent o.task o.summary).graph }
  else t

def fold (t : Tracker α) (s : Snapshot α) : Tracker α × FoldReport :=
  let w := t.graph.fold (.ofSnapshot s)
  let coherences := match s.meanCoherence? with
    | some c => remember t.settings.introspectionHistory t.coherences c
    | none => t.coherences
  let t := publish { t with
    state := { t.state with depth := max t.state.depth s.treeDepth }
    coherences
    introspections := t.introspections + 1
    graph := w.graph }
  (t, ⟨w.created.nodes, w.created.edges, s.treeDepth⟩)

/-- An analysis followed by what the system knows of itself. -/
def reflection (t : Tracker Float) (analysis : String) : String :=
  let s := t.state
  analysis ++ "\nself-model: stage " ++ s.timeline.current.name ++ ", coherence "
    ++ Decimal.fixed 3 s.coherence.overall ++ ", " ++ toString s.thoughts ++ " thoughts, "
    ++ toString s.resonance.nodes ++ " memory nodes, " ++ toString s.resonance.connections
    ++ " connections"

end Tracker

end EchoEngine
