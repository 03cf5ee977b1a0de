import EchoEngine.CommandLine.Arguments

/-!
# Help

The help on a topic says what it is, how it is used, and what its arguments, subcommands and options
are, in two columns. Every row of a table starts its second column two blanks after the widest entry of
the first.
-/

namespace EchoEngine.CommandLine.Help

def versionNumber : String := "0.1.0"

/-- One line about a topic. -/
def about : Topic → String
  | .program => "DeepTreeEcho agent orchestration engine"
  | .introspect => "Score a directory tree and fold it into the memory graph"
  | .config => "Print the default configuration"
  | .version => "Show version"
  | .help => "Print this message or the help of the given subcommand(s)"

def usage (t : Topic) : String :=
  let words := match t with
    | .program => [t.name, "[OPTIONS] [COMMAND]"]
    | .introspect => [Topic.program.name, t.name, "[OPTIONS] [PATH]"]
    | .config | .version => [Topic.program.name, t.name, "[OPTIONS]"]
    | .help => [Topic.program.name, t.name, "[COMMAND]..."]
  "Usage: " ++ " ".intercalate words

/-- A table under its heading, an empty line before it; no rows, no table. -/
def table (heading : String) (rows : List (String × String)) : String :=
  let width := (rows.map fun r => r.1.length).foldl max 0
  let line := fun (entry, text) =>
    "  " ++ entry ++ String.ofList (List.replicate (width - entry.length) ' ') ++ "  " ++ text ++ "\n"
  if rows.isEmpty then "" else "\n" ++ heading ++ ":\n" ++ String.join (rows.map line)

def commands : Topic → List (String × String)
  | .program => Topic.subcommands.map fun t => (t.name, about t)
  | _ => []

def arguments : Topic → List (String × String)
  | .introspect => [("[PATH]", "Tree to scan (overrides --root)")]
  | .help => [("[COMMAND]...", "Print help for the subcommand(s)")]
  | _ => []

/-- The options of every topic but the help on help. -/
def sharedOptions : List (String × String) :=
  [("    --config <CONFIG>", "Path to the engine config file (TOML)"),
    ("-r, --root <ROOT>", "Tree to introspect (default: current directory)"),
    ("    --coherence-weight <COHERENCE_WEIGHT>", "[default: 0.6]"),
    ("    --novelty-weight <NOVELTY_WEIGHT>", "[default: 0.4]"),
    ("    --json", "Print results as JSON instead of a summary"),
    ("-h, --help", "Print help")]

def options : Topic → List (String × String)
  | .program => sharedOptions ++ [("-V, --version", "Print version")]
  | .introspect | .config | .version => sharedOptions
  | .help => []

def text (t : Topic) : String :=
  about t ++ "\n\n" ++ usage t ++ "\n" ++ table "Commands" (commands t)
    ++ table "Arguments" (arguments t) ++ table "Options" (options t)

/-- The line that a flag for the version prints. -/
def versionLine : String :=
  Topic.program.name ++ " " ++ versionNumber ++ "\n"

/-- The line that the subcommand for the version prints. -/
def versionReport : String :=
  Topic.program.name ++ " v" ++ versionNumber ++ "\n"

end EchoEngine.CommandLine.Help
