import EchoEngine.Json.Record

/-!
# Errors

What can go wrong, by cause. `Error.kind` classifies a cause without its details and
`Error.message` is its text; a finished task carries both as a `Failure`.
-/

namespace EchoEngine

inductive Error where
  | notFound (what name : String)
  | duplicateName (what name : String)
  | unsupportedAgentType (name : String)
  | agentMismatch (expected actual : String)
  | timeout (milliseconds : Nat)
  | cancelled
  | pathNotFound (path : String)
  | missingParameter (key : String)
  | parameterType (key expected found : String)
  | invalidParameter (reason : String)
  | invalidState (reason : String)
  | handler (name message : String)
  | capabilityUnavailable (names : String)
  | config (reason : String)
  | io (reason : String)
  | json (reason : String)
  | internal (reason : String)
deriving DecidableEq, Repr, Inhabited

inductive ErrorKind where
  | notFound
  | duplicateName
  | unsupportedAgentType
  | agentMismatch
  | timeout
  | cancelled
  | pathNotFound
  | missingParameter
  | parameterType
  | invalidParameter
  | invalidState
  | handler
  | capabilityUnavailable
  | config
  | io
  | json
  | internal
deriving DecidableEq, Repr, Inhabited

namespace ErrorKind

def all : List ErrorKind := [
  notFound, duplicateName, unsupportedAgentType, agentMismatch, timeout, cancelled, pathNotFound,
  missingParameter, parameterType, invalidParameter, invalidState, handler, capabilityUnavailable,
  config, io, json, internal]

def name : ErrorKind → String
  | notFound => "not_found"
  | duplicateName => "duplicate_name"
  | unsupportedAgentType => "unsupported_agent_type"
  | agentMismatch => "agent_mismatch"
  | timeout => "timeout"
  | cancelled => "cancelled"
  | pathNotFound => "path_not_found"
  | missingParameter => "missing_parameter"
  | parameterType => "parameter_type"
  | invalidParameter => "invalid_parameter"
  | invalidState => "invalid_state"
  | handler => "handler"
  | capabilityUnavailable => "capability_unavailable"
  | config => "config"
  | io => "io"
  | json => "json"
  | internal => "internal"

def toJson (k : ErrorKind) : Json :=
  .str k.name

def ofJson? : Json.Reader ErrorKind :=
  Json.Reader.oneOf all name

end ErrorKind

namespace Error

def kind : Error → ErrorKind
  | notFound .. => .notFound
  | duplicateName .. => .duplicateName
  | unsupportedAgentType .. => .unsupportedAgentType
  | agentMismatch .. => .agentMismatch
  | timeout .. => .timeout
  | cancelled => .cancelled
  | pathNotFound .. => .pathNotFound
  | missingParameter .. => .missingParameter
  | parameterType .. => .parameterType
  | invalidParameter .. => .invalidParameter
  | invalidState .. => .invalidState
  | handler .. => .handler
  | capabilityUnavailable .. => .capabilityUnavailable
  | config .. => .config
  | io .. => .io
  | json .. => .json
  | internal .. => .internal

def message : Error → String
  | notFound what name => what ++ " not found: " ++ name
  | duplicateName what name => what ++ " already registered: " ++ name
  | unsupportedAgentType name => "unsupported agent type: " ++ name
  | agentMismatch expected actual =>
    "task targets agent " ++ expected ++ " but was submitted to " ++ actual
  | timeout ms => "timed out after " ++ toString ms ++ "ms"
  | cancelled => "cancelled"
  | pathNotFound path => "path not found: " ++ path
  | missingParameter key => "missing parameter: " ++ key
  | parameterType key expected found =>
    "parameter " ++ key ++ ": expected " ++ expected ++ ", found " ++ found
  | invalidParameter reason => "invalid parameter: " ++ reason
  | invalidState reason => "invalid state: " ++ reason
  | handler name message => "handler error: " ++ name ++ " - " ++ message
  | capabilityUnavailable names => "capability unavailable: " ++ names
  | config reason => "config error: " ++ reason
  | io reason => "io error: " ++ reason
  | json reason => "json error: " ++ reason
  | internal reason => "internal error: " ++ reason

end Error

/-- An error as a finished task reports it. -/
structure Failure where
  kind : ErrorKind
  message : String
deriving DecidableEq, Repr

namespace Failure

def ofError (e : Error) : Failure :=
  ⟨e.kind, e.message⟩

def toJson (f : Failure) : Json :=
  .obj [("kind", f.kind.toJson), ("message", .str f.message)]

def ofJson? : Json.Reader Failure := fun v => do
  let fs ← Json.Fields.of? ["kind", "message"] v
  return ⟨← fs.required "kind" ErrorKind.ofJson?, ← fs.required "message" Json.Reader.string⟩

end Failure

end EchoEngine
