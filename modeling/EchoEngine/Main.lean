import EchoEngine.CommandLine.Session
import Std.Time.DateTime.Timestamp

/-!
# The program

Reads what a session needs from the system, runs the session, and prints what it leaves behind. Of the
files below the tree that is asked for only names, kinds and times are read.
-/

namespace EchoEngine.CommandLine

/-- The time of the last change, in nanoseconds. -/
def modifiedAt (m : IO.FS.Metadata) : Int :=
  m.modified.sec * 1000000000 + m.modified.nsec.toNat

/-- What an entry of a directory is, with all that is below it; nothing if it cannot be looked at. -/
partial def readNode (e : IO.FS.DirEntry) : IO (Option Files.Node) :=
  try
    let m ← e.path.symlinkMetadata
    match m.type with
    | .dir =>
      let entries ← e.path.readDir
      let nodes ← entries.toList.filterMapM fun entry => do
        return (← readNode entry).map fun n => (entry.fileName, n)
      return some (.dir nodes)
    | .symlink => return some (.link (← IO.FS.realPath e.path).toString)
    | .file => return some (.file .empty (modifiedAt m))
    | .other => return none
  catch _ => return none

/-- A path without links, if anything is there. -/
def realPath? (path : String) : IO (Option String) :=
  try return some (← IO.FS.realPath path).toString
  catch _ => return none

/-- A regular file with its bytes; nothing if it cannot be read. -/
def readFile (e : IO.FS.DirEntry) : IO (Option Files.Node) :=
  try
    let bytes ← IO.FS.readBinFile e.path
    return some (.file bytes (modifiedAt (← e.path.metadata)))
  catch _ => return none

/-- A place that has been read, put among the other files. -/
def place (read : IO.FS.DirEntry → IO (Option Files.Node)) (real : String) (top : Files.Node) :
    IO Files.Node := do
  match ← read ⟨"/", real⟩ with
  | some n => return n.put (Files.Path.pieces real) top
  | none => return top

/-- The invocation with its paths free of links where there is anything, and the files it needs. -/
def gather (i : Invocation) : IO (Invocation × Files.World) := do
  let current := Files.Path.pieces (← IO.currentDir).toString
  let root ← realPath? i.root
  let settings ← i.settings.bindM realPath?
  let top := Files.Node.put (.dir []) current (.dir [])
  let top ← match root with
    | some real => place readNode real top
    | none => pure top
  let top ← match settings with
    | some real => place readFile real top
    | none => pure top
  return ({ i with root := root.getD i.root, settings := settings <|> i.settings }, ⟨top, current⟩)

/-- The nonnegative number that bytes stand for. -/
def natOfBytes (bytes : ByteArray) : Nat :=
  bytes.toList.foldl (fun n b => 256 * n + b.toNat) 0

/-- Performs what is asked for in real surroundings. -/
def performReal (i : Invocation) : IO Outcome := do
  let (i, world) ← gather i
  let now := (← Std.Time.Timestamp.now).toNanosecondsSinceUnixEpoch.val
  let bytes ← IO.getRandomBytes 80
  let clock (step : Nat) : Timestamp := ⟨(now + step) / 1000000000, ((now + step) % 1000000000).toNat⟩
  let random (k : Nat) : Nat := natOfBytes (bytes.extract (16 * k) (16 * k + 16))
  return (i.perform ⟨world, clock, random⟩).outcome

end EchoEngine.CommandLine

open EchoEngine.CommandLine in
/-- Runs one session and returns its code. -/
def main (args : List String) : IO UInt32 := do
  let outcome ← match Invocation.read args with
    | .ok i => performReal i
    | .error stop => pure stop.outcome
  IO.print outcome.output
  IO.eprint outcome.complaint
  return outcome.code.toUInt32
