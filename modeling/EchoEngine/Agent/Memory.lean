import EchoEngine.Agent.Context
import EchoEngine.Settings
import EchoEngine.Task
import EchoEngine.Text.Lines

/-!
# What agents remember

An agent's state is its context and its memories, and only a completed task changes it: input and
output enter the context, and one line about both is remembered (`AgentState.commit`).
-/

namespace EchoEngine

/-- A completed task as an agent remembers it. -/
structure MemoryEntry where
  task : String
  type : TaskType
  /-- One line about input and output. -/
  summary : String
  time : Timestamp
deriving DecidableEq, Repr

namespace MemoryEntry

/-- The first line without white space around it, cut after `limit` characters. -/
def clipChars (limit : Nat) (cs : List Char) : List Char :=
  let line := Text.trimChars (((Text.lineChars cs).head?).getD [])
  if limit < line.length then line.take limit ++ ['.', '.', '.'] else line

def clip (limit : Nat) (s : String) : String :=
  String.ofList (clipChars limit s.toList)

def inputLimit : Nat := 80

def outputLimit : Nat := 160

/-- The line about a task with its output. -/
def summarize (t : Task) (output : String) : String :=
  t.type.name ++ ": " ++ clip inputLimit t.input ++ " => " ++ clip outputLimit output

def toJson (e : MemoryEntry) : Json :=
  .obj [("task_id", .str e.task), ("task_type", e.type.toJson), ("summary", .str e.summary),
    ("at", e.time.toJson)]

def ofJson? : Json.Reader MemoryEntry := fun v => do
  let fs ← Json.Fields.of? ["task_id", "task_type", "summary", "at"] v
  return {
    task := ← fs.required "task_id" Json.Reader.string
    type := ← fs.required "task_type" TaskType.ofJson?
    summary := ← fs.required "summary" Json.Reader.string
    time := ← fs.required "at" Timestamp.ofJson? }

end MemoryEntry

structure AgentState where
  context : ContextWindow
  /-- Memories, oldest first. -/
  memory : List MemoryEntry
  lastInteraction : Option Timestamp
  /-- How many memories are kept; it is not written down with the state. -/
  memoryCapacity : Option Nat
deriving DecidableEq, Repr

namespace AgentState

def new (s : AgentSettings) : AgentState :=
  ⟨.new s.contextCapacity, [], none, s.memoryCapacity⟩

/-- The newest memories that a capacity leaves, at least one. -/
def keepNewest (capacity : Option Nat) (memory : List MemoryEntry) : List MemoryEntry :=
  match capacity with
  | some n => memory.drop (memory.length - max n 1)
  | none => memory

/-- The state after a task has completed with an output. -/
def commit (s : AgentState) (t : Task) (output : String) (now : Timestamp) : AgentState where
  context := (s.context.push ⟨.input, t.input, t.id, now⟩).push ⟨.output, output, t.id, now⟩
  memory := keepNewest s.memoryCapacity
    (s.memory ++ [⟨t.id, t.type, MemoryEntry.summarize t output, now⟩])
  lastInteraction := some now
  memoryCapacity := s.memoryCapacity

def toJson (s : AgentState) : Json :=
  .obj [("context", s.context.toJson), ("memory", .arr (s.memory.map MemoryEntry.toJson)),
    ("last_interaction", .ofOption Timestamp.toJson s.lastInteraction)]

def ofJson? : Json.Reader AgentState := fun v => do
  let fs ← Json.Fields.of? ["context", "memory", "last_interaction"] v
  return {
    context := ← fs.required "context" ContextWindow.ofJson?
    memory := ← fs.required "memory" (Json.Reader.list MemoryEntry.ofJson?)
    lastInteraction := ← fs.nullable "last_interaction" Timestamp.ofJson?
    memoryCapacity := none }

end AgentState

end EchoEngine
