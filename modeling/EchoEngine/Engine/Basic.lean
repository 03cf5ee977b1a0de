import EchoEngine.Agent.Store
import EchoEngine.Capability.Defaults
import EchoEngine.Cognition.Backend
import EchoEngine.Cognition.Diagnostics
import EchoEngine.Cognition.Tracker
import EchoEngine.Introspection.Scan

/-!
# The engine

The engine holds everything: tools and plugins, agents, the tracker, a backend and a scanner. It is a
value, so every operation answers with the engine after it. Time and fresh ids come from the caller.
-/

namespace EchoEngine

structure Engine where
  settings : Settings
  scanner : Scanner
  tools : Registry
  plugins : Registry
  agents : AgentStore
  tracker : Tracker Float
  backend : Backend

namespace Engine

/-- An engine without handlers and agents, unless the settings are refused. -/
def withBackend (settings : Settings) (backend : Backend) : Except Error Engine := do
  settings.validate
  return {
    settings
    scanner := ← Scanner.new settings.introspection
    tools := .empty .tool
    plugins := .empty .plugin
    agents := .new settings.agents
    tracker := .new settings.cognition settings.graph
    backend }

/-- An engine that analyzes in its own process. -/
def new (settings : Settings) : Except Error Engine :=
  withBackend settings .localEcho

/-! ### Handlers -/

def registerTool (e : Engine) (h : Handler) : Except Error Engine := do
  return { e with tools := ← e.tools.register h }

def registerPlugin (e : Engine) (h : Handler) : Except Error Engine := do
  return { e with plugins := ← e.plugins.register h }

/-- The engine with the default tools, the file tools confined to a directory: the engine then, and
the error if a name was taken. -/
def registerDefaultTools (e : Engine) (world : Files.World) (root : String) :
    Engine × Option Error :=
  let (tools, error) := Defaults.registerTools e.tools (.new world root)
  ({ e with tools }, error)

def registerDefaultPlugins (e : Engine) : Engine × Option Error :=
  let (plugins, error) := Defaults.registerPlugins e.plugins
  ({ e with plugins }, error)

/-! ### Agents -/

def createAgent (e : Engine) (id : AgentId) (type : AgentType) (label : String) (now : Timestamp) :
    Engine × Agent :=
  let (agents, a) := e.agents.create id type label now
  ({ e with agents }, a)

/-- A new agent whose type is given by its name. -/
def createAgentNamed (e : Engine) (id : AgentId) (typeName label : String) (now : Timestamp) :
    Except Error (Engine × Agent) := do
  return e.createAgent id (← AgentType.ofName typeName) label now

/-! ### The state -/

/-- What the engine finds when it looks after its integrations. -/
def probes (e : Engine) : List Probe :=
  [⟨Integrations.toolRegistry, !e.tools.isEmpty, false⟩,
    ⟨Integrations.pluginRegistry, !e.plugins.isEmpty, false⟩,
    ⟨Integrations.cognitiveBackend, e.backend.available, true⟩]

/-- The engine with its state started all over; an unavailable integration is reported, but the
engine goes on. -/
def start (e : Engine) (now : Timestamp) : Engine × Except Error Unit :=
  let tracker := e.tracker.start e.probes now
  ({ e with tracker }, tracker.availability)

def refresh (e : Engine) (now : Timestamp) : Engine × Except Error Unit :=
  let tracker := e.tracker.refresh e.probes now
  ({ e with tracker }, tracker.availability)

def state (e : Engine) : State Float :=
  e.tracker.state

def inventory (e : Engine) : Diagnostics.Inventory :=
  ⟨e.tools.size, e.plugins.size, e.agents.size⟩

def diagnose (e : Engine) (now : Timestamp) : Diagnosis :=
  Diagnostics.run e.state e.inventory now

/-- The engine after it has scanned a tree and folded what it has found into its memory. -/
def introspect (e : Engine) (world : Files.World) (root : String) (coherence novelty : Float) :
    Except Error (Engine × Introspection) := do
  let weights ← Weights.new coherence novelty
  let snapshot ← e.scanner.scan world root weights
  let (tracker, report) := e.tracker.fold snapshot
  return ({ e with tracker }, ⟨snapshot, report⟩)

end Engine

end EchoEngine
