import EchoEngine.Engine.Basic

/-!
# Executing tasks

An execution hands a pending task to what its type selects and ends in exactly one of two ways. It
completes with an output that is not blank: the agent remembers it and the tracker counts it. Or it
fails, and then no agent changes. A task that is not pending, is meant for another agent, or whose
agent is unknown never reaches a handler and is not counted at all.
-/

namespace EchoEngine

/-- What a caller may say about one execution. -/
structure ExecutionOptions where
  /-- Milliseconds after which the handler is given up, if not those of the settings. -/
  deadline : Option Nat
  /-- Whether the execution is called off before its handler has answered. -/
  cancelled : Bool
deriving DecidableEq, Repr, Inhabited

/-- What one execution leaves behind. -/
structure Execution where
  engine : Engine
  task : Task
  result : TaskResult

namespace Engine

/-- The request that a handler sees for a task of an agent. -/
def request (e : Engine) (t : Task) (a : Agent) : Request where
  agent := a.id
  agentName := a.name
  task := t.id
  input := t.input
  recent := a.state.context.recent e.agents.settings.handlerItems

/-- The output of a plugin, if it ever answers. -/
def runPlugin (e : Engine) (q : Request) (p : Parameters) : Option (Except Error String) :=
  match p.getText "plugin_name" with
  | .error err => some (.error err)
  | .ok name =>
    match e.plugins.find name with
    | .error err => some (.error err)
    | .ok h => (h.run q p).map fun r => r.output name

/-- The output of a tool, if it ever answers. -/
def runTool (e : Engine) (q : Request) (p : Parameters) : Option (Except Error String) :=
  match p.getText "tool_name" with
  | .error err => some (.error err)
  | .ok name =>
    match e.tools.find name with
    | .error err => some (.error err)
    | .ok h =>
      if h.enabled then (h.run q p).map fun r => r.output name
      else some (.error (.handler name "tool is disabled"))

/-- What the type of a task selects, at work; `none` if it never answers. -/
def dispatch (e : Engine) (t : Task) (q : Request) : Option (Except Error String) :=
  match t.type with
  | .reflect => (e.backend.analyze t.input t.parameters).map fun r => r.map e.tracker.reflection
  | .plugin => e.runPlugin q t.parameters
  | .toolCall => e.runTool q t.parameters
  | .analyze => e.backend.analyze t.input t.parameters

/-- The parameter that names the handler of a task, or the type of the task. -/
def namedHandler (t : Task) (key : String) : String :=
  match t.parameters.optText key with
  | .ok (some name) => name
  | _ => t.type.name

/-- What is blamed for a blank output. -/
def handlerLabel (e : Engine) (t : Task) : String :=
  match t.type with
  | .reflect => "reflect"
  | .analyze => e.backend.name
  | .plugin => namedHandler t "plugin_name"
  | .toolCall => namedHandler t "tool_name"

/-- The error of a handler that has been given up after so many milliseconds. What 64 bits do not hold is reported as
the largest number that they do. -/
def timeoutError (milliseconds : Nat) : Error :=
  .timeout (min milliseconds (Nat.pow 2 64 - 1))

/-- The output of a task that has been handed to its handler. -/
def output (e : Engine) (t : Task) (a : Agent) (o : ExecutionOptions) : Except Error String :=
  if o.cancelled then .error .cancelled
  else match e.dispatch t (e.request t a) with
    | none => .error (timeoutError (o.deadline.getD e.settings.execution.timeout))
    | some (.error err) => .error err
    | some (.ok s) =>
      if Text.isBlankText s then .error (.handler (e.handlerLabel t) "handler returned empty output")
      else .ok s

/-- The engine with what an agent remembers of a task and its output. -/
def commit (e : Engine) (t : Task) (agent : AgentId) (output : String) (now : Timestamp) : Engine :=
  { e with agents := e.agents.update agent fun s => s.commit t output now }

/-- The engine with the outcome of a task of an agent reported to the tracker. -/
def report (e : Engine) (t : Task) (a : Agent) (completed : Bool) (summary : String) : Engine :=
  { e with tracker := e.tracker.record ⟨a.id, t.id, t.type, completed, summary⟩ }

/-- A task that fails without reaching a handler. -/
def reject (e : Engine) (t : Task) (err : Error) : Execution :=
  ⟨e, t.moveIfForward .failed, .failed t.id err⟩

/-- The end of a task that is running. The agent remembers its output before the task is said to have
completed. -/
def finish (e : Engine) (t : Task) (a : Agent) (agent : AgentId) (now : Timestamp) :
    Except Error String → Execution
  | .ok s =>
    let e := e.commit t agent s now
    match t.moveTo .completed with
    | .error err => ⟨e, t, .failed t.id err⟩
    | .ok t => ⟨e.report t a true (t.input ++ " " ++ s), t, .completed t.id s⟩
  | .error err =>
    let t := t.moveIfForward .failed
    ⟨e.report t a false "", t, .failed t.id err⟩

/-- Executes a task on an agent. -/
def execute (e : Engine) (t : Task) (agent : AgentId) (o : ExecutionOptions) (now : Timestamp) :
    Execution :=
  if t.status ≠ .pending then
    ⟨e, t, .failed t.id (.invalidState ("task " ++ t.id ++ " is " ++ t.status.name
      ++ ", only pending tasks can be executed"))⟩
  else if t.agent ≠ agent then e.reject t (.agentMismatch t.agent.text agent.text)
  else match e.agents.find agent with
    | .error err => e.reject t err
    | .ok a =>
      match t.moveTo .running with
      | .error err => ⟨e, t, .failed t.id err⟩
      | .ok t => e.finish t a agent now (e.output t a o)

end Engine

end EchoEngine
