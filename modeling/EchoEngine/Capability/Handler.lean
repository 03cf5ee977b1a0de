import EchoEngine.Json.Printer
import EchoEngine.Task

/-!
# Handlers

Tools and plugins are handlers. A handler is told about the task that invokes it (`Request`), reads
its parameters, and replies with a text, a JSON value or an error; it may also never reply. A plugin
offers several operations and picks one by the parameter `type`.
-/

namespace EchoEngine

/-- What a handler answers. -/
inductive Reply where
  | text (s : String)
  | json (v : Json)
  | error (reason : String)
deriving Inhabited

namespace Reply

/-- The reply as a text. -/
def content : Reply → String
  | text s => s
  | json v => v.pretty
  | error e => "Error: " ++ e

def isError : Reply → Bool
  | error _ => true
  | _ => false

/-- The reply as the output of a task, an error being attributed to the handler. -/
def output (r : Reply) (handler : String) : Except Error String :=
  match r with
  | error e => .error (.handler handler e)
  | r => .ok r.content

def ofResult : Except Error String → Reply
  | .ok s => text s
  | .error e => error e.message

/-- The reply of a computation that may fail. -/
def ofExcept (f : α → Reply) : Except Error α → Reply
  | .ok a => f a
  | .error e => error e.message

end Reply

/-- What a handler is told about the task that invokes it. -/
structure Request where
  agent : AgentId
  agentName : String
  task : String
  input : String
  /-- The newest context items of the agent, oldest first. -/
  recent : List String
deriving Inhabited

namespace Request

/-- A request outside any agent. -/
def detached (input : String) : Request :=
  ⟨⟨"detached"⟩, "detached", "direct", input, []⟩

/-- Parameter `text` if it is given, else the input. -/
def text (r : Request) (p : Parameters) : Except Error String := do
  return (← p.optText "text").getD r.input

end Request

structure Handler where
  name : String
  description : String
  /-- What a plugin can do; a tool has no list. -/
  operations : List String
  /-- The schema of the parameters, if the handler publishes one. -/
  schema : Option Json
  readOnly : Bool
  enabled : Bool
  /-- The reply, or `none` if it never comes. -/
  run : Request → Parameters → Option Reply
deriving Inhabited

namespace Handler

/-- The schema of a tool that describes no parameters. -/
def openSchema : Json :=
  .obj [("properties", .obj []), ("type", .str "object")]

/-- The operation that parameter `type` asks for, the first one if it is absent. -/
def operation (name : String) (operations : List String) (p : Parameters) : Except Error String := do
  match ← p.optText "type" with
  | some op =>
    if operations.contains op then return op
    else throw (.invalidParameter ("plugin " ++ name ++ " has no operation '" ++ op
      ++ "' (available: " ++ ", ".intercalate operations ++ ")"))
  | none =>
    match operations with
    | op :: _ => return op
    | [] => throw (.internal ("plugin " ++ name ++ " advertises no operations"))

/-- A handler's entry in a list of capabilities. -/
def capability (h : Handler) : Json :=
  .obj ([("name", .str h.name), ("description", .str h.description)]
    ++ (if h.operations.isEmpty then [] else [("operations", Json.ofStrings h.operations)])
    ++ Json.optionalMember "input_schema" id h.schema)

end Handler

end EchoEngine
