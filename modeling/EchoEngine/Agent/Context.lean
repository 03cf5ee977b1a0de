import EchoEngine.Timestamp

/-!
# Context windows

The context of an agent is a window on its conversation: the newest items, oldest first, and a count
of those that had to go. A new window has room for at least one item; one that has been read back
keeps the capacity it was written with.
-/

namespace EchoEngine

inductive ContextRole where
  | input
  | output
deriving DecidableEq, Repr, Inhabited

namespace ContextRole

def all : List ContextRole :=
  [input, output]

def name : ContextRole → String
  | input => "input"
  | output => "output"

def toJson (r : ContextRole) : Json :=
  .str r.name

def ofJson? : Json.Reader ContextRole :=
  Json.Reader.oneOf all name

end ContextRole

structure ContextItem where
  role : ContextRole
  content : String
  task : String
  time : Timestamp
deriving DecidableEq, Repr

namespace ContextItem

def toJson (i : ContextItem) : Json :=
  .obj [("role", i.role.toJson), ("content", .str i.content), ("task_id", .str i.task),
    ("at", i.time.toJson)]

def ofJson? : Json.Reader ContextItem := fun v => do
  let fs ← Json.Fields.of? ["role", "content", "task_id", "at"] v
  return {
    role := ← fs.required "role" ContextRole.ofJson?
    content := ← fs.required "content" Json.Reader.string
    task := ← fs.required "task_id" Json.Reader.string
    time := ← fs.required "at" Timestamp.ofJson? }

end ContextItem

structure ContextWindow where
  capacity : Nat
  /-- The items, oldest first. -/
  items : List ContextItem
  /-- How many items have had to go. The counter has 64 bits, and past the last number it starts again at zero. -/
  counter : UInt64
deriving DecidableEq, Repr

namespace ContextWindow

/-- An empty window with room for at least one item. Room is made as items come, so there is such a window for
every capacity; one that is set up at its full size has to fit the memory of a machine. -/
def new (capacity : Nat) : ContextWindow :=
  ⟨max capacity 1, [], 0⟩

/-- How many items have had to go so far. -/
def evicted (w : ContextWindow) : Nat :=
  w.counter.toNat

/-- Whether one more item makes the oldest one go. -/
def isFull (w : ContextWindow) : Bool :=
  w.capacity ≤ w.items.length

/-- The window with one more item. -/
def push (w : ContextWindow) (i : ContextItem) : ContextWindow :=
  if w.isFull then { w with items := w.items.drop 1 ++ [i], counter := w.counter + 1 }
  else { w with items := w.items ++ [i] }

/-- The item that goes when one more is pushed. -/
def evictedBy (w : ContextWindow) : Option ContextItem :=
  if w.isFull then w.items.head? else none

/-- The contents of the `n` newest items, oldest first. -/
def recent (w : ContextWindow) (n : Nat) : List String :=
  (w.items.drop (w.items.length - n)).map (·.content)

def toJson (w : ContextWindow) : Json :=
  .obj [("capacity", .int w.capacity), ("items", .arr (w.items.map ContextItem.toJson)),
    ("evicted", .int w.evicted)]

def ofJson? : Json.Reader ContextWindow := fun v => do
  let fs ← Json.Fields.of? ["capacity", "items", "evicted"] v
  return {
    capacity := ← fs.required "capacity" Json.Reader.word
    items := ← fs.required "items" (Json.Reader.list ContextItem.ofJson?)
    counter := .ofNat (← fs.required "evicted" Json.Reader.word) }

end ContextWindow

end EchoEngine
