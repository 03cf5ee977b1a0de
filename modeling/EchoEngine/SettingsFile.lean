import EchoEngine.Files.World
import EchoEngine.Settings
import EchoEngine.Toml.Parser
import EchoEngine.Toml.Printer

/-!
# The settings file

Settings are kept in a TOML file, a table for each section. A file that is missing or cannot be read
as settings stands for the standard ones, and settings that cannot be written have the empty text.
-/

namespace EchoEngine.Settings

/-- The settings that a text describes. -/
def ofToml? (text : String) : Option Settings :=
  (Toml.parse? text).bind (read .lenient)

/-- The settings in a file, or the standard ones. -/
def load (w : Files.World) (path : String) : Settings :=
  match w.readText path with
  | .ok text => (ofToml? text).getD standard
  | .error _ => standard

/-- The sections as tables; what is unset is left out. -/
def sections (s : Settings) : List (String × List (String × Json)) :=
  match s.toJson with
  | .obj members => members.map fun
    | (name, .obj fields) => (name, fields.filter fun f => match f.2 with
      | .null => false
      | _ => true)
    | (name, _) => (name, [])
  | _ => []

def toToml (s : Settings) : String :=
  (Toml.writeSections? s.sections).getD ""

end EchoEngine.Settings
