import EchoEngine.Scalar
import EchoEngine.Timestamp

/-!
# Evolution

The stages that a system goes through. A stage is earned by completed tasks, introspections and
coherence; the timeline only ever moves on to a later stage, and marks each one it reaches.
-/

namespace EchoEngine

inductive Stage where
  | nascent
  | emerging
  | developing
  | integrating
  | resonant
deriving DecidableEq, Repr, Inhabited

namespace Stage

def all : List Stage :=
  [nascent, emerging, developing, integrating, resonant]

def name : Stage → String
  | nascent => "nascent"
  | emerging => "emerging"
  | developing => "developing"
  | integrating => "integrating"
  | resonant => "resonant"

/-- What reaching a stage means. -/
def description : Stage → String
  | nascent => "cognitive core initialized"
  | emerging => "first experiences recorded"
  | developing => "sustained task activity"
  | integrating => "coherent activity integrated with introspection"
  | resonant => "stable, highly coherent self-model"

/-- The place of a stage in the order of stages. -/
def level : Stage → Nat
  | nascent => 0
  | emerging => 1
  | developing => 2
  | integrating => 3
  | resonant => 4

/-- The stage earned by what has been done so far. -/
def earned {α : Type} [Scalar α] (completed introspections : Nat) (coherence : α) : Stage :=
  if 100 ≤ completed ∧ 3 ≤ introspections ∧ (0.9 : α) ≤ coherence then resonant
  else if 25 ≤ completed ∧ 1 ≤ introspections ∧ (0.75 : α) ≤ coherence then integrating
  else if 5 ≤ completed then developing
  else if 1 ≤ completed ∨ 1 ≤ introspections then emerging
  else nascent

def toJson (s : Stage) : Json :=
  .str s.name

def ofJson? : Json.Reader Stage :=
  Json.Reader.oneOf all name

end Stage

structure Milestone where
  stage : Stage
  reached : Timestamp
  description : String
deriving DecidableEq, Repr

namespace Milestone

def toJson (m : Milestone) : Json :=
  .obj [("stage", m.stage.toJson), ("reached_at", m.reached.toJson), ("description", .str m.description)]

def ofJson? : Json.Reader Milestone := fun v => do
  let fs ← Json.Fields.of? ["stage", "reached_at", "description"] v
  return {
    stage := ← fs.required "stage" Stage.ofJson?
    reached := ← fs.required "reached_at" Timestamp.ofJson?
    description := ← fs.required "description" Json.Reader.string }

end Milestone

structure Timeline where
  current : Stage
  milestones : List Milestone
deriving DecidableEq, Repr

namespace Timeline

/-- A timeline on which nothing has been reached. -/
def empty : Timeline :=
  ⟨.nascent, []⟩

instance : Inhabited Timeline := ⟨empty⟩

/-- The timeline with a milestone for a stage. -/
def mark (t : Timeline) (stage : Stage) (now : Timestamp) : Timeline :=
  { t with milestones := t.milestones ++ [⟨stage, now, stage.description⟩] }

/-- A timeline that has just begun. -/
def opened (now : Timestamp) : Timeline :=
  empty.mark .nascent now

/-- Whether a stage is ahead of the current one. -/
def isAhead (t : Timeline) (stage : Stage) : Bool :=
  t.current.level < stage.level

/-- The timeline moved on to a stage, if that is ahead. -/
def advance (t : Timeline) (stage : Stage) (now : Timestamp) : Timeline :=
  if t.isAhead stage then { t with current := stage }.mark stage now else t

def toJson (t : Timeline) : Json :=
  .obj [("current_stage", t.current.toJson), ("milestones", .arr (t.milestones.map Milestone.toJson))]

def ofJson? : Json.Reader Timeline := fun v => do
  let fs ← Json.Fields.of? ["current_stage", "milestones"] v
  return ⟨← fs.required "current_stage" Stage.ofJson?,
    ← fs.required "milestones" (Json.Reader.list Milestone.ofJson?)⟩

end Timeline

end EchoEngine
