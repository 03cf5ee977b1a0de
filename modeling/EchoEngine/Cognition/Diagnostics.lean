import EchoEngine.Cognition.State

/-!
# Diagnostics

Six checks of the state and of what the engine holds. A check never fails as an error; it passes,
warns or fails, in this order from best to worst, and the system does as well as its worst check.
-/

namespace EchoEngine

inductive CheckStatus where
  | pass
  | warn
  | fail
deriving DecidableEq, Repr, Inhabited

namespace CheckStatus

def all : List CheckStatus :=
  [pass, warn, fail]

def name : CheckStatus → String
  | pass => "pass"
  | warn => "warn"
  | fail => "fail"

/-- The worse of two results. -/
def worse : CheckStatus → CheckStatus → CheckStatus
  | fail, _ | _, fail => fail
  | warn, _ | _, warn => warn
  | pass, pass => pass

def toJson (s : CheckStatus) : Json :=
  .str s.name

def ofJson? : Json.Reader CheckStatus :=
  Json.Reader.oneOf all name

end CheckStatus

structure Check where
  name : String
  status : CheckStatus
  message : String
deriving DecidableEq, Repr

namespace Check

def toJson (c : Check) : Json :=
  .obj [("name", .str c.name), ("status", c.status.toJson), ("message", .str c.message)]

def ofJson? : Json.Reader Check := fun v => do
  let fs ← Json.Fields.of? ["name", "status", "message"] v
  return {
    name := ← fs.required "name" Json.Reader.string
    status := ← fs.required "status" CheckStatus.ofJson?
    message := ← fs.required "message" Json.Reader.string }

end Check

structure Diagnosis where
  overall : CheckStatus
  timestamp : Timestamp
  checks : List Check
deriving DecidableEq, Repr

namespace Diagnosis

/-- The check of a name, if there is one. -/
def check? (d : Diagnosis) (name : String) : Option Check :=
  d.checks.find? fun c => c.name = name

/-- How many checks have a result. -/
def count (d : Diagnosis) (status : CheckStatus) : Nat :=
  d.checks.countP fun c => c.status = status

def toJson (d : Diagnosis) : Json :=
  .obj [("overall_health", d.overall.toJson), ("timestamp", d.timestamp.toJson),
    ("tests", .arr (d.checks.map Check.toJson))]

def ofJson? : Json.Reader Diagnosis := fun v => do
  let fs ← Json.Fields.of? ["overall_health", "timestamp", "tests"] v
  return {
    overall := ← fs.required "overall_health" CheckStatus.ofJson?
    timestamp := ← fs.required "timestamp" Timestamp.ofJson?
    checks := ← fs.required "tests" (Json.Reader.list Check.ofJson?) }

end Diagnosis

namespace Diagnostics

/-- What the engine holds. -/
structure Inventory where
  tools : Nat
  plugins : Nat
  agents : Nat
deriving DecidableEq, Repr, Inhabited

def capabilityRegistry (i : Inventory) : Check :=
  { name := "capability_registry"
    status := if i.tools = 0 ∧ i.plugins = 0 then .fail
      else if i.tools = 0 ∨ i.plugins = 0 then .warn
      else .pass
    message := toString i.tools ++ " tools, " ++ toString i.plugins ++ " plugins registered" }

def agentPool (i : Inventory) : Check :=
  if i.agents = 0 then ⟨"agent_pool", .warn, "no agents registered"⟩
  else ⟨"agent_pool", .pass, toString i.agents ++ " agents reachable"⟩

/-- The result of the check of ranges, for numbers of any kind. -/
def rangesStatus {α : Type} [Scalar α] (s : State α) : CheckStatus :=
  if s.coherence.isInRange then .pass else .fail

def stateRanges (s : State Float) : Check :=
  { name := "cognitive_state_ranges"
    status := rangesStatus s
    message := if s.coherence.isInRange then
        "coherence " ++ Decimal.fixed 3 s.coherence.overall ++ " within [0, 1]"
      else "coherence factors out of range: " ++ s.coherence.inspected }

variable {α : Type}

/-- The names of integrations that are not connected, in ascending order. -/
def unsettled (is : Integrations) : List String :=
  (is.toList.filter fun e => e.2.status ≠ .connected).map Prod.fst

def integrations (s : State α) : Check :=
  match s.integrations.requiredDown, unsettled s.integrations with
  | [], [] => ⟨"integrations", .pass, toString s.integrations.size ++ " integrations connected"⟩
  | [], names => ⟨"integrations", .warn, "not connected: " ++ ", ".intercalate names⟩
  | down, _ => ⟨"integrations", .fail, "required integrations down: " ++ ", ".intercalate down⟩

def cognitiveCore (s : State α) : Check :=
  match s.core, s.health with
  | _, .critical => ⟨"cognitive_core", .fail, "system health is critical"⟩
  | .dormant, _ => ⟨"cognitive_core", .warn, "cognitive core not initialized"⟩
  | .degraded, health =>
    ⟨"cognitive_core", .warn, "cognitive core degraded (health " ++ health.name ++ ")"⟩
  | .active, _ => ⟨"cognitive_core", .pass, "active at stage " ++ s.timeline.current.name⟩

/-- The greatest number of edges between nodes, where products of more than 64 bits are cut off. -/
def maxConnections (nodes : Nat) : Nat :=
  min (nodes * (nodes - 1)) (Nat.pow 2 64 - 1) / 2

def memoryResonance (s : State α) : Check :=
  let r := s.resonance
  if maxConnections r.nodes < r.connections then
    ⟨"memory_resonance", .fail, toString r.connections ++ " connections exceed what "
      ++ toString r.nodes ++ " nodes allow"⟩
  else if r.nodes = 0 then ⟨"memory_resonance", .warn, "memory graph is empty"⟩
  else
    ⟨"memory_resonance", .pass, toString r.nodes ++ " nodes, " ++ toString r.connections
      ++ " connections, " ++ toString r.hyperedges ++ " hyperedges"⟩

/-- All checks in turn. -/
def checks (s : State Float) (i : Inventory) : List Check :=
  [capabilityRegistry i, agentPool i, stateRanges s, integrations s, cognitiveCore s,
    memoryResonance s]

def run (s : State Float) (i : Inventory) (now : Timestamp) : Diagnosis :=
  let checks := checks s i
  ⟨(checks.map (·.status)).foldl CheckStatus.worse .pass, now, checks⟩

end Diagnostics

end EchoEngine
