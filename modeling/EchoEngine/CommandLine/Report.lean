import EchoEngine.Cognition.Diagnostics
import EchoEngine.Cognition.Tracker
import EchoEngine.Json.Printer
import EchoEngine.Agent.Store

/-!
# Reports

What the command line prints of a state, a diagnosis, an introspection, the result of a task and an
agent: a title after an empty line, then either a summary or the whole value in JSON.
-/

namespace EchoEngine.CommandLine.Report

/-- Lines, each ended. -/
def lines (ls : List String) : String :=
  String.join (ls.map (· ++ "\n"))

/-- A title, with an empty line before it. -/
def title (s : String) : String :=
  lines ["", "── " ++ s ++ " ──"]

/-- A summary of a value, or all of it in JSON. -/
def body (json : Bool) (value : Json) (summary : List String) : String :=
  lines (if json then [value.pretty] else summary)

def stateSummary (s : State Float) : List String :=
  ["health:      " ++ s.health.name,
    "core:        " ++ s.core.name,
    "stage:       " ++ s.timeline.current.name,
    "thoughts:    " ++ toString s.thoughts,
    "depth:       " ++ toString s.depth,
    "coherence:   " ++ Decimal.fixed 3 s.coherence.overall,
    "memory:      " ++ toString s.resonance.nodes ++ " nodes, " ++ toString s.resonance.connections
      ++ " connections, " ++ toString s.resonance.hyperedges ++ " hyperedges"]
    ++ s.integrations.toList.map fun (name, i) =>
      "integration: " ++ name ++ " " ++ i.status.name ++ " (" ++ i.health.name ++ ")"

def state (json : Bool) (label : String) (s : State Float) : String :=
  title label ++ body json s.toJson (stateSummary s)

def diagnosisSummary (d : Diagnosis) : List String :=
  d.checks.map fun c => "[" ++ c.status.name ++ "] " ++ c.name ++ ": " ++ c.message

def diagnosis (json : Bool) (d : Diagnosis) : String :=
  title ("diagnostics: " ++ d.overall.name) ++ body json d.toJson (diagnosisSummary d)

/-- How many of the salient files are listed. -/
def listedFiles : Nat := 10

def introspectionSummary (i : Introspection) : List String :=
  let s := i.snapshot
  ["processed " ++ toString s.processed ++ " files, " ++ toString s.filtered ++ " below threshold "
      ++ Decimal.fixed 3 s.threshold ++ ", " ++ toString s.skipped.length ++ " skipped"]
    ++ (s.salient.take listedFiles).map (fun f => "  " ++ Decimal.fixed 3 f.salience ++ "  " ++ f.path)
    ++ ["echo integration: " ++ toString i.report.nodesCreated ++ " nodes, "
      ++ toString i.report.edgesCreated ++ " edges, depth " ++ toString i.report.treeDepth]

def introspection (json : Bool) (i : Introspection) : String :=
  title ("introspection: " ++ i.snapshot.root) ++ body json i.toJson (introspectionSummary i)

def task (label : String) (r : TaskResult) : String :=
  title ("task: " ++ label ++ " [" ++ r.status.name ++ "]")
    ++ lines [match r.failure with
      | some f => "error: " ++ f.message
      | none => r.output]

/-- The names of new agents. -/
def created (agents : List Agent) : String :=
  lines ["", "agents: " ++ ", ".intercalate (agents.map (·.name))]

def agent (a : Agent) : String :=
  lines (["", a.name ++ " (" ++ a.type.name ++ "): " ++ toString a.state.context.items.length
      ++ " context items, " ++ toString a.state.memory.length ++ " memories"]
    ++ a.state.memory.map fun m => "  - " ++ m.summary)

/-- What is said when the system goes on without something that it requires. -/
def degraded (step : String) (e : Error) : String :=
  lines ["⚠ DeepTreeEcho " ++ step ++ " degraded: " ++ e.message]

end EchoEngine.CommandLine.Report
