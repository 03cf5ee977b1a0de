import EchoEngine.Identifier
import EchoEngine.Parameters

/-!
# Tasks

A task is a unit of work addressed to one agent. Its type, input and agent never change; its status
only moves forward (`TaskStatus.precedes`), and a finished task has either an output or a failure.
-/

namespace EchoEngine

/-- Selects what a task is handed to. -/
inductive TaskType where
  /-- Introspective analysis of the tracked state. -/
  | reflect
  /-- The plugin that parameter `plugin_name` names. -/
  | plugin
  /-- The tool that parameter `tool_name` names. -/
  | toolCall
  /-- The cognitive backend itself. -/
  | analyze
deriving DecidableEq, Repr, Inhabited

namespace TaskType

def all : List TaskType :=
  [reflect, plugin, toolCall, analyze]

def name : TaskType → String
  | reflect => "reflect"
  | plugin => "plugin"
  | toolCall => "tool_call"
  | analyze => "analyze"

/-- Cognitive tasks count as thoughts when they complete. -/
def isCognitive : TaskType → Bool
  | reflect | analyze => true
  | plugin | toolCall => false

def toJson (t : TaskType) : Json :=
  .str t.name

def ofJson? : Json.Reader TaskType :=
  Json.Reader.oneOf all name

end TaskType

inductive TaskStatus where
  | pending
  | running
  | completed
  | failed
deriving DecidableEq, Repr, Inhabited

namespace TaskStatus

def all : List TaskStatus :=
  [pending, running, completed, failed]

def name : TaskStatus → String
  | pending => "pending"
  | running => "running"
  | completed => "completed"
  | failed => "failed"

def isTerminal : TaskStatus → Bool
  | completed | failed => true
  | pending | running => false

/-- A pending task may start, or fail before it ever runs; a running one completes or fails. -/
def precedes : TaskStatus → TaskStatus → Bool
  | pending, running | pending, failed | running, completed | running, failed => true
  | _, _ => false

def toJson (s : TaskStatus) : Json :=
  .str s.name

def ofJson? : Json.Reader TaskStatus :=
  Json.Reader.oneOf all name

end TaskStatus

structure Task where
  id : String
  type : TaskType
  input : String
  status : TaskStatus
  agent : AgentId
  parameters : Parameters
deriving Inhabited

namespace Task

/-- A pending task without parameters. -/
def new (id : String) (type : TaskType) (input : String) (agent : AgentId) : Task :=
  ⟨id, type, input, .pending, agent, .empty⟩

/-- A fresh task id made of random bits. -/
def freshId (random : Nat) : String :=
  "task-" ++ uuidText random

def withParameter (t : Task) (key : String) (value : ParamValue) : Task :=
  { t with parameters := t.parameters.insert key value }

/-- The task with a later status, or the refusal of a move that is not forward. -/
def moveTo (t : Task) (next : TaskStatus) : Except Error Task :=
  if t.status.precedes next then .ok { t with status := next }
  else .error (.invalidState
    ("task " ++ t.id ++ " cannot move from " ++ t.status.name ++ " to " ++ next.name))

/-- The task with a later status; where the move is refused, it stays as it is. -/
def moveIfForward (t : Task) (next : TaskStatus) : Task :=
  match t.moveTo next with
  | .ok t => t
  | .error _ => t

theorem moveTo_of_precedes {t : Task} {next : TaskStatus} (h : t.status.precedes next) :
    t.moveTo next = .ok { t with status := next } := by
  simp [moveTo, h]

theorem type_of_moveTo {t t' : Task} {next : TaskStatus} (h : t.moveTo next = .ok t') : t'.type = t.type := by
  unfold moveTo at h
  split at h
  · cases h
    rfl
  · cases h

theorem moveIfForward_of_precedes {t : Task} {next : TaskStatus} (h : t.status.precedes next) :
    t.moveIfForward next = { t with status := next } := by
  simp [moveIfForward, moveTo_of_precedes h]

def toJson (t : Task) : Json :=
  .obj [("id", .str t.id), ("task_type", t.type.toJson), ("input", .str t.input),
    ("status", t.status.toJson), ("agent_id", t.agent.toJson), ("parameters", t.parameters.toJson)]

def ofJson? : Json.Reader Task := fun v => do
  let fs ← Json.Fields.of? ["id", "task_type", "input", "status", "agent_id", "parameters"] v
  return {
    id := ← fs.required "id" Json.Reader.string
    type := ← fs.required "task_type" TaskType.ofJson?
    input := ← fs.required "input" Json.Reader.string
    status := ← fs.required "status" TaskStatus.ofJson?
    agent := ← fs.required "agent_id" AgentId.ofJson?
    parameters := ← fs.defaulted "parameters" Parameters.ofJson? .empty }

end Task

/-- The outcome of one execution: an output, or a failure. -/
structure TaskResult where
  task : String
  status : TaskStatus
  output : String
  failure : Option Failure
deriving DecidableEq, Repr

namespace TaskResult

def completed (task output : String) : TaskResult :=
  ⟨task, .completed, output, none⟩

def failed (task : String) (e : Error) : TaskResult :=
  ⟨task, .failed, "", some (.ofError e)⟩

def isCompleted (r : TaskResult) : Bool :=
  r.status = .completed

def errorKind? (r : TaskResult) : Option ErrorKind :=
  r.failure.map (·.kind)

/-- The output, unless there is a failure. -/
def outcome (r : TaskResult) : Except Failure String :=
  match r.failure with
  | some f => .error f
  | none => .ok r.output

def toJson (r : TaskResult) : Json :=
  .obj ([("task_id", .str r.task), ("status", r.status.toJson), ("output", .str r.output)]
    ++ Json.optionalMember "error" Failure.toJson r.failure)

def ofJson? : Json.Reader TaskResult := fun v => do
  let fs ← Json.Fields.of? ["task_id", "status", "output", "error"] v
  return {
    task := ← fs.required "task_id" Json.Reader.string
    status := ← fs.required "status" TaskStatus.ofJson?
    output := ← fs.required "output" Json.Reader.string
    failure := ← fs.nullable "error" Failure.ofJson? }

end TaskResult

end EchoEngine
