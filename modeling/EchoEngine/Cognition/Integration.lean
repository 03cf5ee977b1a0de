import EchoEngine.Json.Record
import Std.Data.ExtTreeMap

/-!
# Integrations

What the system is connected to, by name. A probe says whether one of these can be reached now and
whether it is required. What has once been required stays so; what has never been probed is pending.
-/

namespace EchoEngine

open Std (ExtTreeMap)

inductive IntegrationStatus where
  | pending
  | connected
  | disconnected
deriving DecidableEq, Repr, Inhabited

namespace IntegrationStatus

def all : List IntegrationStatus :=
  [pending, connected, disconnected]

def name : IntegrationStatus → String
  | pending => "pending"
  | connected => "connected"
  | disconnected => "disconnected"

def toJson (s : IntegrationStatus) : Json :=
  .str s.name

def ofJson? : Json.Reader IntegrationStatus :=
  Json.Reader.oneOf all name

end IntegrationStatus

inductive IntegrationHealth where
  | unknown
  | good
  | down
deriving DecidableEq, Repr, Inhabited

namespace IntegrationHealth

def all : List IntegrationHealth :=
  [unknown, good, down]

def name : IntegrationHealth → String
  | unknown => "unknown"
  | good => "good"
  | down => "down"

def toJson (h : IntegrationHealth) : Json :=
  .str h.name

def ofJson? : Json.Reader IntegrationHealth :=
  Json.Reader.oneOf all name

end IntegrationHealth

structure Integration where
  status : IntegrationStatus
  health : IntegrationHealth
  required : Bool
deriving DecidableEq, Repr, Inhabited

namespace Integration

/-- An integration that has not been probed. -/
def pending (required : Bool) : Integration :=
  ⟨.pending, .unknown, required⟩

def isDown (i : Integration) : Bool :=
  i.status = .disconnected

def toJson (i : Integration) : Json :=
  .obj [("status", i.status.toJson), ("health", i.health.toJson), ("required", .bool i.required)]

def ofJson? : Json.Reader Integration := fun v => do
  let fs ← Json.Fields.of? ["status", "health", "required"] v
  return {
    status := ← fs.required "status" IntegrationStatus.ofJson?
    health := ← fs.required "health" IntegrationHealth.ofJson?
    required := ← fs.required "required" Json.Reader.bool }

end Integration

/-- What checking one integration has found. -/
structure Probe where
  name : String
  available : Bool
  required : Bool
deriving DecidableEq, Repr

/-- Integrations by name. -/
abbrev Integrations := ExtTreeMap String Integration

namespace Integrations

def toolRegistry : String := "tool_registry"
def pluginRegistry : String := "plugin_registry"
def cognitiveBackend : String := "cognitive_backend"

/-- The integrations of every system; only the backend is required. -/
def initial : Integrations :=
  .ofList [(toolRegistry, .pending false), (pluginRegistry, .pending false),
    (cognitiveBackend, .pending true)] compare

/-- What is known of an integration once it has been probed. -/
def probed (before : Option Integration) (p : Probe) : Integration :=
  let required := (before.any (·.required)) || p.required
  if p.available then ⟨.connected, .good, required⟩ else ⟨.disconnected, .down, required⟩

def apply (is : Integrations) (p : Probe) : Integrations :=
  is.insert p.name (probed is[p.name]? p)

def applyAll (is : Integrations) (probes : List Probe) : Integrations :=
  probes.foldl apply is

/-- The names of required integrations that are down, in ascending order. -/
def requiredDown (is : Integrations) : List String :=
  (is.toList.filter fun e => e.2.required && e.2.isDown).map Prod.fst

def toJson (is : Integrations) : Json :=
  .obj (is.toList.map fun e => (e.1, e.2.toJson))

def ofJson? : Json.Reader Integrations := fun v =>
  (Json.Reader.members Integration.ofJson? v).map fun es => .ofList es compare

end Integrations

end EchoEngine
