import EchoEngine.Decimal.Numeral
import EchoEngine.Text.Blank

/-!
# Arguments

The arguments of the command line are options, at most one subcommand, and what the subcommand takes.
Options are the same before and after the subcommand; each may be given once in either place, and the
later place wins. Arguments are read from the left, and reading stops at the first one that asks for
help or for the version or that makes no sense.
-/

namespace EchoEngine.CommandLine

/-- What there is help about: the program as a whole and its subcommands. -/
inductive Topic where
  | program
  | introspect
  | config
  | version
  | help
deriving DecidableEq, Repr, Inhabited

namespace Topic

def name : Topic → String
  | program => "deeptree-echo"
  | introspect => "introspect"
  | config => "config"
  | version => "version"
  | help => "help"

def subcommands : List Topic :=
  [introspect, config, version, help]

/-- The subcommand of a name. -/
def ofName? (s : String) : Option Topic :=
  subcommands.find? fun t => t.name = s

end Topic

inductive Flag where
  | config
  | root
  | coherenceWeight
  | noveltyWeight
  | json
  | help
  | version
deriving DecidableEq, Repr, Inhabited

namespace Flag

/-- The flag that is written as `s`; only the program as a whole has a version. -/
def ofName? (t : Topic) (s : String) : Option Flag :=
  match s with
  | "--config" => some config
  | "--root" | "-r" => some root
  | "--coherence-weight" => some coherenceWeight
  | "--novelty-weight" => some noveltyWeight
  | "--json" => some json
  | "--help" | "-h" => some help
  | "--version" | "-V" => if t = .program then some version else none
  | _ => none

def takesValue : Flag → Bool
  | config | root | coherenceWeight | noveltyWeight => true
  | json | help | version => false

end Flag

/-- What is wrong with the arguments. -/
inductive Misuse where
  | unknown (argument : String)
  | unexpected (argument : String)
  | repeated (flag : String)
  | valueMissing (flag : String)
  | valueUnneeded (flag : String)
  | valueRefused (value : String)
deriving DecidableEq, Repr

namespace Misuse

def message : Misuse → String
  | unknown a => "unexpected argument '" ++ a ++ "' found"
  | unexpected a => "unrecognized subcommand '" ++ a ++ "'"
  | repeated f => "the argument '" ++ f ++ "' cannot be used multiple times"
  | valueMissing f => "a value is required for '" ++ f ++ "' but none was supplied"
  | valueUnneeded f => "unexpected value for '" ++ f ++ "' found"
  | valueRefused v => "invalid value '" ++ v ++ "'"

end Misuse

/-- Why reading stops before all arguments are read. -/
inductive Stop where
  | help (topic : Topic)
  | version
  | misuse (m : Misuse)
deriving DecidableEq, Repr

/-- How an argument is written. -/
inductive Argument where
  /-- Two hyphens: what follows names no flag. -/
  | escape
  /-- The name of a flag, and a value that is written with it. -/
  | flag (name : String) (value : Option String)
  | plain (text : String)
deriving DecidableEq, Repr

namespace Argument

/-- A value behind the letter of a flag, with or without an equals sign between them. -/
def attached : List Char → Option String
  | [] => none
  | '=' :: cs => some (String.ofList cs)
  | cs => some (String.ofList cs)

def ofText (s : String) : Argument :=
  match s.toList with
  | ['-', '-'] => escape
  | '-' :: '-' :: cs =>
    let name := "--" ++ String.ofList (cs.takeWhile (· ≠ '='))
    match cs.dropWhile (· ≠ '=') with
    | [] => flag name none
    | _ :: value => flag name (some (String.ofList value))
  -- the other letters stop the reading before what is behind them
  | '-' :: c :: cs => flag (String.ofList ['-', c]) (if c = 'r' then attached cs else none)
  | _ => plain s

end Argument

/-- The options that have been given in one place. -/
structure Given where
  settings : Option String
  root : Option String
  coherence : Option Float
  novelty : Option Float
  json : Bool
deriving DecidableEq, Repr

namespace Given

def nothing : Given :=
  ⟨none, none, none, none, false⟩

/-- The options of two places, the inner one of which wins. -/
def within (inner outer : Given) : Given where
  settings := inner.settings <|> outer.settings
  root := inner.root <|> outer.root
  coherence := inner.coherence <|> outer.coherence
  novelty := inner.novelty <|> outer.novelty
  json := inner.json || outer.json

end Given

/-- A place for arguments, as far as it has been read. -/
structure Level where
  topic : Topic
  given : Given
  path : Option String
deriving DecidableEq, Repr

namespace Level

def start (t : Topic) : Level :=
  ⟨t, .nothing, none⟩

/-- A path; it has at least one character. -/
def pathValue (s : String) : Except Stop (Option String) :=
  if s.isEmpty then .error (.misuse (.valueRefused s)) else .ok (some s)

def weightValue (s : String) : Except Stop (Option Float) :=
  match Decimal.floatOfText? s with
  | some x => .ok (some x)
  | none => .error (.misuse (.valueRefused s))

def once {α : Type} (name : String) (before : Option α) (value : Except Stop (Option α)) :
    Except Stop (Option α) :=
  if before.isSome then .error (.misuse (.repeated name)) else value

/-- A flag with its value, `name` being how it is written. -/
def put (l : Level) (name value : String) : Flag → Except Stop Level
  | .config => do
    return { l with given.settings := ← once name l.given.settings (pathValue value) }
  | .root => do return { l with given.root := ← once name l.given.root (pathValue value) }
  | .coherenceWeight => do
    return { l with given.coherence := ← once name l.given.coherence (weightValue value) }
  | .noveltyWeight => do
    return { l with given.novelty := ← once name l.given.novelty (weightValue value) }
  | .json | .help | .version => .error (.misuse (.valueUnneeded name))

/-- A flag that takes no value. -/
def raise (l : Level) (name : String) : Flag → Except Stop Level
  | .json =>
    if l.given.json then .error (.misuse (.repeated name)) else .ok { l with given.json := true }
  | .help => .error (.help l.topic)
  | .version => .error .version
  | .config | .root | .coherenceWeight | .noveltyWeight => .error (.misuse (.valueMissing name))

/-- An argument that is neither a flag nor its value. -/
def positional (l : Level) (text : String) : Except Stop Level :=
  if l.topic = .introspect ∧ l.path = none then do return { l with path := ← pathValue text }
  else .error (.misuse (.unexpected text))

/-- Reads arguments up to the name of a subcommand, which only the program as a whole has: what is
known then, and the name with what follows it. -/
def read (l : Level) : List String → Except Stop (Level × List String)
  | [] => .ok (l, [])
  | a :: rest =>
    match Argument.ofText a with
    | .escape => do return (← rest.foldlM positional l, [])
    | .plain text =>
      if l.topic = .program then .ok (l, text :: rest)
      else do read (← l.positional text) rest
    | .flag name value =>
      match Flag.ofName? l.topic name, value with
      | none, _ => .error (.misuse (.unknown a))
      | some f, some v => do read (← l.put name v f) rest
      | some f, none =>
        if f.takesValue then
          match rest with
          | [] => .error (.misuse (.valueMissing name))
          | v :: rest =>
            match Argument.ofText v with
            | .plain v => do read (← l.put name v f) rest
            | _ => .error (.misuse (.valueMissing name))
        else do read (← l.raise name f) rest
termination_by structural args => args

end Level

inductive Command where
  /-- Everything the engine does, once. -/
  | walkthrough
  | introspect
  | config
  | version
deriving DecidableEq, Repr, Inhabited

/-- What the arguments ask for. -/
structure Invocation where
  command : Command
  settings : Option String
  /-- The tree to look at. -/
  root : String
  coherence : Float
  novelty : Float
  json : Bool
deriving DecidableEq, Repr

namespace Invocation

/-- What options ask for, with a path that goes before the root among them. -/
def ofGiven (command : Command) (path : Option String) (g : Given) : Invocation where
  command
  settings := g.settings
  root := (path <|> g.root).getD "."
  coherence := g.coherence.getD 0.6
  novelty := g.novelty.getD 0.4
  json := g.json

/-- The subcommand whose help is asked for by names, each naming a subcommand of the one before. -/
def helpTopic : List String → Stop
  | [] => .help .program
  | name :: rest =>
    match Topic.ofName? name, rest with
    | some t, [] => .help t
    | some _, extra :: _ => .misuse (.unexpected extra)
    | none, _ => .misuse (.unexpected name)

def read (args : List String) : Except Stop Invocation := do
  let (outer, rest) ← (Level.start .program).read args
  match rest with
  | [] => return ofGiven .walkthrough none outer.given
  | name :: rest =>
    match Topic.ofName? name with
    | some .help => throw (helpTopic rest)
    | some t =>
      let (inner, _) ← (Level.start t).read rest
      let command : Command := match t with
        | .introspect => .introspect
        | .config => .config
        | _ => .version
      return ofGiven command inner.path (inner.given.within outer.given)
    | none => throw (.misuse (.unexpected name))

end Invocation

end EchoEngine.CommandLine
