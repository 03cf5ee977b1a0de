import EchoEngine.Decimal.Layout
import EchoEngine.Json.Record
import EchoEngine.Scalar

/-!
# Coherence

How much the system is one with itself. The overall coherence is the mean of two or three factors:
how steadily agents complete their tasks, how coherent recent introspections were, if there were any,
and the share of recent tasks that completed.
-/

namespace EchoEngine

structure Coherence (α : Type) where
  overall : α
  /-- The mean over agents of their share of completed tasks. -/
  memory : α
  /-- The mean coherence of recent introspections. -/
  introspection : Option α
  /-- The share of recent tasks that completed. -/
  stability : α
deriving DecidableEq, Repr

namespace Coherence

variable {α : Type} [Scalar α]

/-- The coherence of a system that has done nothing yet. -/
def initial : Coherence α :=
  ⟨1.0, 1.0, none, 1.0⟩

/-- The factors that are there. -/
def factors (memory : α) (introspection : Option α) (stability : α) : List α :=
  [memory, stability] ++ introspection.toList

def derive (memory : α) (introspection : Option α) (stability : α) : Coherence α :=
  ⟨Scalar.clamp 0.0 1.0 (Scalar.mean (factors memory introspection stability)), memory, introspection,
    stability⟩

/-- Whether everything is a number from zero to one. -/
def isInRange (c : Coherence α) : Bool :=
  Scalar.inUnit c.overall && Scalar.inUnit c.memory && Scalar.inUnit c.stability
    && c.introspection.all Scalar.inUnit

/-- The record in full, as it is shown to whoever has to find out what is wrong with it. -/
def inspected (c : Coherence Float) : String :=
  let number := Decimal.render .inspected
  let introspection := match c.introspection with
    | some x => "Some(" ++ number x ++ ")"
    | none => "None"
  "IdentityCoherence \x7b overall_coherence: " ++ number c.overall ++ ", memory_consistency: "
    ++ number c.memory ++ ", introspection_coherence: " ++ introspection ++ ", outcome_stability: "
    ++ number c.stability ++ " \x7d"

def toJson (c : Coherence Float) : Json :=
  .obj ([("overall_coherence", .ofFloat c.overall), ("memory_consistency", .ofFloat c.memory)]
    ++ Json.optionalMember "introspection_coherence" Json.ofFloat c.introspection
    ++ [("outcome_stability", .ofFloat c.stability)])

def ofJson? : Json.Reader (Coherence Float) := fun v => do
  let fs ← Json.Fields.of? ["overall_coherence", "memory_consistency", "introspection_coherence",
    "outcome_stability"] v
  return {
    overall := ← fs.required "overall_coherence" Json.Reader.float
    memory := ← fs.required "memory_consistency" Json.Reader.float
    introspection := ← fs.nullable "introspection_coherence" Json.Reader.float
    stability := ← fs.required "outcome_stability" Json.Reader.float }

end Coherence

end EchoEngine
