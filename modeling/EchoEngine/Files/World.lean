import EchoEngine.Files.Path

/-!
# Files

The files a program can see are a value: a tree of directories, regular files and symbolic links, and
the directory that relative paths start from. Resolving a path follows links as it meets them, at most
`maxLinks` of them, and yields the names of a place that holds no link (`World.resolve?`). A walk goes
down from a place, never through a link, into whatever it is not told to skip (`Node.walk`).
-/

namespace EchoEngine.Files

inductive Node where
  /-- A regular file and the time of its last change, in nanoseconds. -/
  | file (bytes : ByteArray) (modified : Int)
  | link (target : String)
  | dir (entries : List (String × Node))
deriving Inhabited

/-- A regular file that a walk has met: where, from the start of the walk, and its time. -/
structure Visit where
  names : List String
  modified : Int
deriving DecidableEq, Repr

namespace Node

def isDir : Node → Bool
  | dir _ => true
  | _ => false

def isFile : Node → Bool
  | file .. => true
  | _ => false

/-- The entry of a directory that has a name. -/
def child? (name : String) : Node → Option Node
  | dir entries => entries.lookup name
  | _ => none

/-- The node below this one that a list of names leads to, no link followed. -/
def find? : List String → Node → Option Node
  | [], n => some n
  | name :: names, n => (n.child? name).bind (find? names)

/-- The entries with one of them set. -/
def setEntry (name : String) (n : Node) : List (String × Node) → List (String × Node)
  | [] => [(name, n)]
  | (other, m) :: rest =>
    if other = name then (name, n) :: rest else (other, m) :: setEntry name n rest

/-- The tree with a node put where a list of names leads; directories on the way are made. -/
def put (new : Node) : List String → Node → Node
  | [], _ => new
  | name :: names, n =>
    let entries := match n with
      | dir entries => entries
      | _ => []
    dir (setEntry name (put new names ((entries.lookup name).getD (dir []))) entries)

mutual

/-- The regular files at most `limit` names below, `names` leading here. An entry for which `skip`
holds is passed over with all that is below it; links are not followed. -/
def walk (skip : List String → Bool) (limit : Nat) (names : List String) : Node → List Visit
  | file _ modified => [⟨names, modified⟩]
  | link _ => []
  | dir entries => if names.length < limit then walkEntries skip limit names entries else []
termination_by structural n => n

def walkEntries (skip : List String → Bool) (limit : Nat) (names : List String) :
    List (String × Node) → List Visit
  | [] => []
  | (name, n) :: rest =>
    (if skip (names ++ [name]) then [] else n.walk skip limit (names ++ [name]))
      ++ walkEntries skip limit names rest
termination_by structural es => es

end

end Node

/-- All files, and the names of the directory that relative paths start from. -/
structure World where
  top : Node
  current : List String

namespace World

/-- Links followed in one path before it is given up. -/
def maxLinks : Nat := 40

/-- A path as pieces to follow: a slash at its end asks for a directory, as `.` does. -/
def steps (path : String) : List String :=
  Path.pieces path ++ (if path.toList.getLast? = some '/' then ["."] else [])

/-- Follows pieces from a place: the place they lead to. `..` and `.` need a directory to stand in;
a link is replaced by the pieces of its target. -/
def follow (top : Node) (links : Nat) (place : List String) (todo : List String) :
    Option (List String) :=
  match todo with
  | [] => some place
  | piece :: rest =>
    match top.find? place with
    | some (.dir entries) =>
      if piece = "." then follow top links place rest
      else if piece = ".." then follow top links place.dropLast rest
      else match entries.lookup piece with
        | none => none
        | some (.link target) =>
          match links with
          | 0 => none
          | links + 1 =>
            let start := if Path.isAbsolute target then [] else place
            if target.isEmpty then none else follow top links start (steps target ++ rest)
        | some _ => follow top links (place ++ [piece]) rest
    | _ => none
termination_by (links, todo.length)

/-- Where a path starts. -/
def origin (w : World) (path : String) : List String :=
  if Path.isAbsolute path then [] else w.current

/-- The place without links that a path leads to, if anything is there. -/
def resolve? (w : World) (path : String) : Option (List String) :=
  if path.isEmpty then none else follow w.top maxLinks (w.origin path) (steps path)

/-- The absolute path without links of whatever a path leads to. -/
def canonical? (w : World) (path : String) : Option String :=
  (w.resolve? path).map Path.absolute

/-- What a path leads to, links followed. -/
def node? (w : World) (path : String) : Option Node :=
  (w.resolve? path).bind fun names => w.top.find? names

/-- What a path leads to, a link as its last step not followed. -/
def entry? (w : World) (path : String) : Option Node :=
  match (steps path).getLast? with
  | none => w.node? path
  | some last =>
    if last = "." ∨ last = ".." then w.node? path
    else do
      let place ← follow w.top maxLinks (w.origin path) (steps path).dropLast
      (← w.top.find? place).child? last

def isDir (w : World) (path : String) : Bool :=
  match w.node? path with
  | some n => n.isDir
  | none => false

/-- Why a file could not be read as text. -/
inductive ReadError where
  | missing
  | isDirectory
  | notText

namespace ReadError

def message : ReadError → String
  | missing => "No such file or directory (os error 2)"
  | isDirectory => "Is a directory (os error 21)"
  | notText => "stream did not contain valid UTF-8"

end ReadError

/-- The text of the file that a path leads to. -/
def readText (w : World) (path : String) : Except ReadError String :=
  match w.node? path with
  | some (.file bytes _) =>
    match String.fromUTF8? bytes with
    | some text => .ok text
    | none => .error .notText
  | some (.dir _) => .error .isDirectory
  | _ => .error .missing

/-- The regular files below a path; a link that the path itself ends in is followed to a directory,
but does not make the file it leads to one of them. -/
def filesBelow (w : World) (path : String) (skip : List String → Bool) (limit : Nat) : List Visit :=
  match w.entry? path with
  | some (.link _) =>
    match w.node? path with
    | some (.dir entries) => (Node.dir entries).walk skip limit []
    | _ => []
  | some n => n.walk skip limit []
  | none => []

end World

end EchoEngine.Files
