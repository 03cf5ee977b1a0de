import EchoEngine.Cognition.Coherence
import EchoEngine.Cognition.Evolution
import EchoEngine.Cognition.Health
import EchoEngine.Cognition.Integration

/-!
# The state

What the system knows of itself: its health, how much it has thought and how deep it has looked, its
coherence, the size of its memory, its stage and its integrations.
-/

namespace EchoEngine

/-- The size of the memory graph. -/
structure Resonance where
  nodes : Nat
  connections : Nat
  hyperedges : Nat
deriving DecidableEq, Repr

namespace Resonance

def empty : Resonance :=
  ⟨0, 0, 0⟩

def toJson (r : Resonance) : Json :=
  .obj [("memory_nodes", .int r.nodes), ("connections", .int r.connections),
    ("hyperedges", .int r.hyperedges)]

def ofJson? : Json.Reader Resonance := fun v => do
  let fs ← Json.Fields.of? ["memory_nodes", "connections", "hyperedges"] v
  return {
    nodes := ← fs.required "memory_nodes" Json.Reader.word
    connections := ← fs.required "connections" Json.Reader.word
    hyperedges := ← fs.required "hyperedges" Json.Reader.word }

end Resonance

structure State (α : Type) where
  health : SystemHealth
  core : CoreStatus
  thoughts : Nat
  /-- The greatest depth of a tree that has been looked into. -/
  depth : Nat
  coherence : Coherence α
  resonance : Resonance
  timeline : Timeline
  integrations : Integrations
  initialized : Bool
  initializedAt : Option Timestamp
deriving DecidableEq

namespace State

/-- The state of a system that has not been initialized. -/
def initial {α : Type} [Scalar α] : State α where
  health := .healthy
  core := .dormant
  thoughts := 0
  depth := 0
  coherence := .initial
  resonance := .empty
  timeline := .empty
  integrations := .initial
  initialized := false
  initializedAt := none

def toJson (s : State Float) : Json :=
  .obj ([("system_health", s.health.toJson), ("core_status", s.core.toJson),
    ("thought_count", .int s.thoughts), ("recursive_depth", .int s.depth),
    ("identity_coherence", s.coherence.toJson), ("memory_resonance", s.resonance.toJson),
    ("evolution_timeline", s.timeline.toJson), ("integrations", s.integrations.toJson),
    ("initialized", .bool s.initialized)]
    ++ Json.optionalMember "initialized_at" Timestamp.toJson s.initializedAt)

def ofJson? : Json.Reader (State Float) := fun v => do
  let fs ← Json.Fields.of? ["system_health", "core_status", "thought_count", "recursive_depth",
    "identity_coherence", "memory_resonance", "evolution_timeline", "integrations", "initialized",
    "initialized_at"] v
  return {
    health := ← fs.required "system_health" SystemHealth.ofJson?
    core := ← fs.required "core_status" CoreStatus.ofJson?
    thoughts := ← fs.required "thought_count" Json.Reader.word
    depth := ← fs.required "recursive_depth" Json.Reader.word
    coherence := ← fs.required "identity_coherence" Coherence.ofJson?
    resonance := ← fs.required "memory_resonance" Resonance.ofJson?
    timeline := ← fs.required "evolution_timeline" Timeline.ofJson?
    integrations := ← fs.required "integrations" Integrations.ofJson?
    initialized := ← fs.required "initialized" Json.Reader.bool
    initializedAt := ← fs.nullable "initialized_at" Timestamp.ofJson? }

end State

end EchoEngine
