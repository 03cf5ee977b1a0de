import EchoEngine.Text.Blank

/-!
# Paths

A path is a text; its components are what it means. Doubled slashes, a slash at the end and the
component `.` anywhere but in front of a relative path mean nothing. Containment of paths is by
components, so a sibling whose name starts alike is outside.
-/

namespace EchoEngine.Files

inductive Component where
  | root
  | here
  | up
  | name (s : String)
deriving DecidableEq, Repr

namespace Path

/-- The pieces between slashes that are not empty. -/
def pieces (path : String) : List String :=
  (Text.splitBy (· == '/') path).filter fun s => !s.isEmpty

def isAbsolute (path : String) : Bool :=
  path.toList.head? = some '/'

def componentsOf : List String → List Component
  | [] => []
  | p :: ps =>
    if p = "." then componentsOf ps
    else (if p = ".." then .up else .name p) :: componentsOf ps

def components (path : String) : List Component :=
  if isAbsolute path then .root :: componentsOf (pieces path)
  else if (pieces path).head? = some "." then .here :: componentsOf (pieces path)
  else componentsOf (pieces path)

/-- `path` seen from `base`: an absolute path replaces it, any other is appended as it is written. -/
def join (base path : String) : String :=
  if isAbsolute path then path
  else if base.isEmpty ∨ base.toList.getLast? = some '/' then base ++ path
  else base ++ "/" ++ path

/-- Whether every component of `base` starts `path`. -/
def isWithin (base path : String) : Bool :=
  (components base).isPrefixOf (components path)

/-- The last component, if it is a name. -/
def fileName? (path : String) : Option String :=
  match (components path).getLast? with
  | some (.name s) => some s
  | _ => none

/-- What follows the last dot of a name, unless the dot is its first character. -/
def extensionOfName? (name : String) : Option String :=
  let cs := name.toList
  let after := cs.reverse.takeWhile (· ≠ '.')
  if after.length + 1 < cs.length then some (String.ofList after.reverse) else none

def extension? (path : String) : Option String :=
  (fileName? path).bind extensionOfName?

/-- The text of an absolute path given by its names. -/
def absolute (names : List String) : String :=
  "/" ++ "/".intercalate names

end Path

end EchoEngine.Files
