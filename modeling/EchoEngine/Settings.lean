import EchoEngine.Decimal.Layout
import EchoEngine.Error
import EchoEngine.Scalar

/-!
# Settings

What can be set, in five sections, each with standard values that stand in for whatever is not given.
A section can be read from any record; `Settings.validate` says which values are refused, and the
first one refused wins.
-/

namespace EchoEngine

/-- How records of settings are read: whether an array may hold more items than there are fields. -/
structure Reading where
  ignoresExcess : Bool
deriving DecidableEq, Repr

namespace Reading

/-- Records in JSON. -/
def strict : Reading := ⟨false⟩

/-- Records in a settings file. -/
def lenient : Reading := ⟨true⟩

/-- The fields of a record of settings. -/
def fields? (r : Reading) (names : List String) (v : Json) : Option Json.Fields :=
  match v with
  | .arr items => Json.Fields.of? names (.arr (if r.ignoresExcess then items.take names.length else items))
  | v => Json.Fields.of? names v

end Reading

/-- How files are scored and which are passed over. -/
structure IntrospectionSettings where
  /-- The share of files that may score below the attention threshold. -/
  percentile : Float
  /-- Seconds, relative to the newest file, in which novelty halves. -/
  halfLife : Nat
  /-- Directories between the root and the deepest file that is visited. -/
  maxDepth : Nat
  skipHidden : Bool
  /-- Patterns for paths from the root and for bare names. -/
  ignore : List String
deriving DecidableEq, Repr

namespace IntrospectionSettings

def standard : IntrospectionSettings :=
  ⟨0.6, 7 * 24 * 60 * 60, 32, true, [".git", "target", "node_modules"]⟩

def validate (s : IntrospectionSettings) : Except Error Unit :=
  if !Scalar.inUnit s.percentile then
    .error (.config ("introspection.attention_percentile must be within [0, 1], got "
      ++ Decimal.render .plain s.percentile))
  else if s.halfLife = 0 then .error (.config "introspection.half_life_secs must be positive")
  else .ok ()

def toJson (s : IntrospectionSettings) : Json :=
  .obj [("attention_percentile", .float s.percentile), ("half_life_secs", .int s.halfLife),
    ("max_depth", .int s.maxDepth), ("skip_hidden", .bool s.skipHidden),
    ("ignore", .ofStrings s.ignore)]

def read (r : Reading) : Json.Reader IntrospectionSettings := fun v => do
  let fs ← r.fields? ["attention_percentile", "half_life_secs", "max_depth", "skip_hidden", "ignore"] v
  return {
    percentile := ← fs.defaulted "attention_percentile" Json.Reader.float standard.percentile
    halfLife := ← fs.defaulted "half_life_secs" Json.Reader.word standard.halfLife
    maxDepth := ← fs.defaulted "max_depth" Json.Reader.word standard.maxDepth
    skipHidden := ← fs.defaulted "skip_hidden" Json.Reader.bool standard.skipHidden
    ignore := ← fs.defaulted "ignore" (Json.Reader.list Json.Reader.string) standard.ignore }

end IntrospectionSettings

/-- How the memory graph is linked and how many memories it keeps. -/
structure GraphSettings where
  /-- Link files to their directories and directories to their parents. -/
  ancestryEdges : Bool
  /-- Link files whose names share topics. -/
  topicEdges : Bool
  minSharedTopics : Nat
  /-- A topic of more files than this links none. -/
  maxTopicFanout : Nat
  memoryCapacity : Nat
deriving DecidableEq, Repr

namespace GraphSettings

def standard : GraphSettings :=
  ⟨true, true, 1, 8, 4096⟩

def validate (s : GraphSettings) : Except Error Unit :=
  if s.topicEdges ∧ s.minSharedTopics = 0 then
    .error (.config "graph.min_shared_topics must be at least 1")
  else if s.topicEdges ∧ s.maxTopicFanout < 2 then
    .error (.config "graph.max_topic_fanout must be at least 2")
  else if s.memoryCapacity = 0 then .error (.config "graph.memory_capacity must be positive")
  else .ok ()

def toJson (s : GraphSettings) : Json :=
  .obj [("ancestry_edges", .bool s.ancestryEdges), ("topic_edges", .bool s.topicEdges),
    ("min_shared_topics", .int s.minSharedTopics), ("max_topic_fanout", .int s.maxTopicFanout),
    ("memory_capacity", .int s.memoryCapacity)]

def read (r : Reading) : Json.Reader GraphSettings := fun v => do
  let fs ← r.fields? ["ancestry_edges", "topic_edges", "min_shared_topics", "max_topic_fanout",
    "memory_capacity"] v
  return {
    ancestryEdges := ← fs.defaulted "ancestry_edges" Json.Reader.bool standard.ancestryEdges
    topicEdges := ← fs.defaulted "topic_edges" Json.Reader.bool standard.topicEdges
    minSharedTopics := ← fs.defaulted "min_shared_topics" Json.Reader.word standard.minSharedTopics
    maxTopicFanout := ← fs.defaulted "max_topic_fanout" Json.Reader.word standard.maxTopicFanout
    memoryCapacity := ← fs.defaulted "memory_capacity" Json.Reader.word standard.memoryCapacity }

end GraphSettings

/-- How far back the state looks. -/
structure CognitionSettings where
  /-- Task outcomes that count for health and stability. -/
  outcomeWindow : Nat
  /-- Introspections that count for coherence. -/
  introspectionHistory : Nat
deriving DecidableEq, Repr

namespace CognitionSettings

def standard : CognitionSettings :=
  ⟨64, 8⟩

def validate (s : CognitionSettings) : Except Error Unit :=
  if s.outcomeWindow = 0 ∨ s.introspectionHistory = 0 then
    .error (.config
      "cognition.outcome_window and cognition.introspection_history must be positive")
  else .ok ()

def toJson (s : CognitionSettings) : Json :=
  .obj [("outcome_window", .int s.outcomeWindow),
    ("introspection_history", .int s.introspectionHistory)]

def read (r : Reading) : Json.Reader CognitionSettings := fun v => do
  let fs ← r.fields? ["outcome_window", "introspection_history"] v
  return {
    outcomeWindow := ← fs.defaulted "outcome_window" Json.Reader.word standard.outcomeWindow
    introspectionHistory :=
      ← fs.defaulted "introspection_history" Json.Reader.word standard.introspectionHistory }

end CognitionSettings

/-- What agents keep and what handlers see of it. -/
structure AgentSettings where
  contextCapacity : Nat
  /-- Memories that an agent keeps; all of them if unset. -/
  memoryCapacity : Option Nat
  /-- The newest context items that a handler sees. -/
  handlerItems : Nat
deriving DecidableEq, Repr

namespace AgentSettings

def standard : AgentSettings :=
  ⟨32, none, 4⟩

def toJson (s : AgentSettings) : Json :=
  .obj [("context_capacity", .int s.contextCapacity),
    ("memory_capacity", .ofOption (fun n => .int n) s.memoryCapacity),
    ("handler_context_items", .int s.handlerItems)]

def read (r : Reading) : Json.Reader AgentSettings := fun v => do
  let fs ← r.fields? ["context_capacity", "memory_capacity", "handler_context_items"] v
  return {
    contextCapacity := ← fs.defaulted "context_capacity" Json.Reader.word standard.contextCapacity
    memoryCapacity :=
      ← fs.defaulted "memory_capacity" (Json.Reader.nullable Json.Reader.word) standard.memoryCapacity
    handlerItems := ← fs.defaulted "handler_context_items" Json.Reader.word standard.handlerItems }

end AgentSettings

structure ExecutionSettings where
  /-- Milliseconds after which a handler is given up, unless the caller says otherwise. -/
  timeout : Nat
deriving DecidableEq, Repr

namespace ExecutionSettings

def standard : ExecutionSettings :=
  ⟨30000⟩

def toJson (s : ExecutionSettings) : Json :=
  .obj [("default_timeout_ms", .int s.timeout)]

def read (r : Reading) : Json.Reader ExecutionSettings := fun v => do
  let fs ← r.fields? ["default_timeout_ms"] v
  return ⟨← fs.defaulted "default_timeout_ms" Json.Reader.word standard.timeout⟩

end ExecutionSettings

structure Settings where
  agents : AgentSettings
  execution : ExecutionSettings
  introspection : IntrospectionSettings
  graph : GraphSettings
  cognition : CognitionSettings
deriving DecidableEq, Repr

namespace Settings

def standard : Settings :=
  ⟨.standard, .standard, .standard, .standard, .standard⟩

instance : Inhabited Settings := ⟨standard⟩

def validate (s : Settings) : Except Error Unit := do
  s.introspection.validate
  s.graph.validate
  s.cognition.validate

def toJson (s : Settings) : Json :=
  .obj [("agents", s.agents.toJson), ("execution", s.execution.toJson),
    ("introspection", s.introspection.toJson), ("graph", s.graph.toJson),
    ("cognition", s.cognition.toJson)]

def read (r : Reading) : Json.Reader Settings := fun v => do
  let fs ← r.fields? ["agents", "execution", "introspection", "graph", "cognition"] v
  return {
    agents := ← fs.defaulted "agents" (AgentSettings.read r) .standard
    execution := ← fs.defaulted "execution" (ExecutionSettings.read r) .standard
    introspection := ← fs.defaulted "introspection" (IntrospectionSettings.read r) .standard
    graph := ← fs.defaulted "graph" (GraphSettings.read r) .standard
    cognition := ← fs.defaulted "cognition" (CognitionSettings.read r) .standard }

end Settings

end EchoEngine
