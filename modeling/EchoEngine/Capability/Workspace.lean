import EchoEngine.Error
import EchoEngine.Files.World

/-!
# Workspaces

A workspace confines file handlers to one directory. Its root is the canonical path of that directory
or, if there is none, the path as it was given. A file is looked up with links followed before
containment is checked (`Workspace.existing`); a directory to search is checked by its text alone
(`Workspace.directory`).
-/

namespace EchoEngine

open Files

structure Workspace where
  world : World
  root : String

namespace Workspace

def new (w : World) (root : String) : Workspace :=
  ⟨w, (w.canonical? root).getD root⟩

/-- The canonical path of something inside the workspace. -/
def existing (ws : Workspace) (path : String) : Except Error String :=
  let candidate := Path.join ws.root path
  match ws.world.canonical? candidate with
  | none => .error (.pathNotFound candidate)
  | some resolved =>
    if Path.isWithin ws.root resolved then .ok resolved
    else .error (.invalidParameter ("path escapes workspace: " ++ path))

/-- A component that stays where it is or goes down. -/
def goesDown : Component → Bool
  | .name _ | .here => true
  | .root | .up => false

/-- A directory given from the root; absolute paths and parents are refused. -/
def directory (ws : Workspace) : Option String → Except Error String
  | none => .ok ws.root
  | some path =>
    if (Path.components path).all goesDown then .ok (Path.join ws.root path)
    else .error (.invalidParameter ("path must be workspace-relative: " ++ path))

end Workspace

end EchoEngine
