import EchoEngine.Json.Record
import EchoEngine.Scalar

/-!
# Health

How well the system does: by the share of tasks that complete it is healthy, degraded or critical, in
this order from best to worst. The core is dormant until it is initialized and active while the
system is healthy.
-/

namespace EchoEngine

inductive SystemHealth where
  | healthy
  | degraded
  | critical
deriving DecidableEq, Repr, Inhabited

namespace SystemHealth

def all : List SystemHealth :=
  [healthy, degraded, critical]

def name : SystemHealth → String
  | healthy => "healthy"
  | degraded => "degraded"
  | critical => "critical"

/-- The health that a share of completed tasks stands for. -/
def ofRatio {α : Type} [Scalar α] (ratio : α) : SystemHealth :=
  if (0.8 : α) ≤ ratio then healthy else if (0.5 : α) ≤ ratio then degraded else critical

/-- The worse of two states of health. -/
def worse : SystemHealth → SystemHealth → SystemHealth
  | critical, _ | _, critical => critical
  | degraded, _ | _, degraded => degraded
  | healthy, healthy => healthy

def toJson (h : SystemHealth) : Json :=
  .str h.name

def ofJson? : Json.Reader SystemHealth :=
  Json.Reader.oneOf all name

end SystemHealth

inductive CoreStatus where
  | dormant
  | active
  | degraded
deriving DecidableEq, Repr, Inhabited

namespace CoreStatus

def all : List CoreStatus :=
  [dormant, active, degraded]

def name : CoreStatus → String
  | dormant => "dormant"
  | active => "active"
  | degraded => "degraded"

/-- The status of a core by whether it is initialized and by the health of the system. -/
def ofHealth (initialized : Bool) (health : SystemHealth) : CoreStatus :=
  if !initialized then dormant else if health = .healthy then active else degraded

def toJson (s : CoreStatus) : Json :=
  .str s.name

def ofJson? : Json.Reader CoreStatus :=
  Json.Reader.oneOf all name

end CoreStatus

end EchoEngine
