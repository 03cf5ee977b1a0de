import EchoEngine.CommandLine.Help
import EchoEngine.CommandLine.Report
import EchoEngine.Engine.Execution
import EchoEngine.SettingsFile

/-!
# Sessions

One use of the command line, from its arguments to what it prints. A session ends with code 0, with
code 2 if the arguments make no sense, and with code 1 if anything fails later; what has been printed
until then stays. Files, moments and random bits come from the caller.
-/

namespace EchoEngine.CommandLine

/-- What a session finds around itself. -/
structure Surroundings where
  world : Files.World
  /-- The moment of each of its steps, later steps at later moments. -/
  clock : Nat → Timestamp
  /-- Random bits for each of its ids. -/
  random : Nat → Nat

/-- What a session leaves behind. -/
structure Outcome where
  output : String
  /-- What went wrong, if anything. -/
  complaint : String
  code : Nat
deriving DecidableEq, Repr

/-- Printing until an error ends it. -/
abbrev Printing := ExceptT Error (StateM String)

namespace Printing

def print (text : String) : Printing Unit :=
  modify (· ++ text)

/-- What all the printing and its end amount to. -/
def outcome (p : Printing Unit) : Outcome :=
  match p.run "" with
  | (.ok (), output) => ⟨output, "", 0⟩
  | (.error e, output) => ⟨output, "Error: " ++ e.message ++ "\n", 1⟩

end Printing

open Printing (print)

/-- The value of a step that may have failed on its way. -/
def settled {α : Type} : α × Option Error → Printing α
  | (a, none) => return a
  | (_, some e) => throw e

/-- The engine after a step, which may leave it without something that it requires. -/
def degrading (step : String) : Engine × Except Error Unit → Printing Engine
  | (e, .ok ()) => return e
  | (e, .error err) =>
    if err.kind = .capabilityUnavailable then do
      print (Report.degraded step err)
      return e
    else throw err

/-- An introspection of the tree that is asked for, printed. -/
def introspection (i : Invocation) (s : Surroundings) (e : Engine) : Printing (Engine × Introspection) := do
  let (e, found) ← e.introspect s.world i.root i.coherence i.novelty
  print (Report.introspection i.json found)
  return (e, found)

/-- The task of reflecting on what an introspection has found. -/
def reflectTask (id : String) (a : Agent) (found : Introspection) : Task :=
  let paths := (found.snapshot.salient.take 5).map (·.path)
  (Task.new id .reflect
    ("Reflect on the most salient parts of this tree: " ++ ", ".intercalate paths ++ ".") a.id)
    |>.withParameter "depth_level" (.text "deep")

/-- The task of analyzing a small text as a hypergraph. -/
def analysisTask (id : String) (a : Agent) : Task :=
  (Task.new id .plugin
    "Agents share memories. Memories form hyperedges. Hyperedges connect agents." a.id)
    |>.withParameter "plugin_name" (.text "data_analysis")
    |>.withParameter "type" (.text "hypergraph_analysis")
    |>.withParameter "cognitive_integration" (.text "deep_tree_echo")

/-- A task executed without a deadline of its own, and its result printed. -/
def execution (e : Engine) (label : String) (t : Task) (now : Timestamp) : Printing Engine := do
  let x := e.execute t t.agent ⟨none, false⟩ now
  print (Report.task label x.result)
  return x.engine

/-- Everything the engine does, once: it starts, looks at the tree, and sets new agents to work. -/
def walkthrough (i : Invocation) (s : Surroundings) (e : Engine) : Printing Unit := do
  let e ← settled (e.registerDefaultTools s.world i.root)
  let e ← settled e.registerDefaultPlugins
  let e ← degrading "start" (e.start (s.clock 0))
  print (Report.state i.json "initial state" e.state)
  print (Report.diagnosis i.json (e.diagnose (s.clock 1)))
  let (e, found) ← introspection i s e
  let (e, reflective) := e.createAgent (.fresh (s.random 0)) .reflective "introspector" (s.clock 2)
  let (e, orchestrator) := e.createAgent (.fresh (s.random 1)) .orchestrator "conductor" (s.clock 3)
  let (e, specialist) := e.createAgent (.fresh (s.random 2)) .specialist "analyst" (s.clock 4)
  print (Report.created [reflective, orchestrator, specialist])
  let e ← execution e "reflect" (reflectTask (Task.freshId (s.random 3)) reflective found) (s.clock 5)
  let e ← execution e "hypergraph_analysis" (analysisTask (Task.freshId (s.random 4)) specialist)
    (s.clock 6)
  let e ← degrading "refresh" (e.refresh (s.clock 7))
  print (Report.state i.json "state after tasks" e.state)
  print (String.join (e.agents.toList.map Report.agent))

namespace Invocation

/-- The settings in the file that is given, or the standard ones. -/
def settingsIn (i : Invocation) (w : Files.World) : Settings :=
  match i.settings with
  | some path => Settings.load w path
  | none => .standard

/-- What is asked for, done. -/
def perform (i : Invocation) (s : Surroundings) : Printing Unit :=
  match i.command with
  | .version => print Help.versionReport
  | .config => print Settings.standard.toToml
  | .introspect => do
    let e ← Engine.new (i.settingsIn s.world)
    let _ ← introspection i s e
  | .walkthrough => do
    let e ← Engine.new (i.settingsIn s.world)
    walkthrough i s e

end Invocation

/-- What is left behind by arguments that ask for nothing to be performed. -/
def Stop.outcome : Stop → Outcome
  | .help t => ⟨Help.text t, "", 0⟩
  | .version => ⟨Help.versionLine, "", 0⟩
  | .misuse m => ⟨"", "error: " ++ m.message ++ "\n", 2⟩

/-- A session of given arguments. -/
def session (args : List String) (s : Surroundings) : Outcome :=
  match Invocation.read args with
  | .ok i => (i.perform s).outcome
  | .error stop => stop.outcome

end EchoEngine.CommandLine
