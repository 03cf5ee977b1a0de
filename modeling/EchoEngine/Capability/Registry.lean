import EchoEngine.Capability.Handler

/-!
# Registries

A registry binds each name to one handler, which is found by its own name and listed in ascending
order. A name that is bound is not bound again until it has been removed.
-/

namespace EchoEngine

open Std (ExtTreeMap)

/-- The noun for the handlers of a registry. -/
inductive HandlerKind where
  | tool
  | plugin
deriving DecidableEq, Repr

def HandlerKind.noun : HandlerKind → String
  | tool => "tool"
  | plugin => "plugin"

structure Registry where
  kind : HandlerKind
  handlers : ExtTreeMap String Handler

namespace Registry

def empty (kind : HandlerKind) : Registry :=
  ⟨kind, ∅⟩

instance : Inhabited Registry := ⟨empty .tool⟩

def get? (r : Registry) (name : String) : Option Handler :=
  r.handlers[name]?

def contains (r : Registry) (name : String) : Bool :=
  r.handlers.contains name

def names (r : Registry) : List String :=
  r.handlers.keys

def size (r : Registry) : Nat :=
  r.handlers.size

def isEmpty (r : Registry) : Bool :=
  r.size = 0

/-- Binds a handler to its own name, if the name is free. -/
def register (r : Registry) (h : Handler) : Except Error Registry :=
  if r.contains h.name then .error (.duplicateName r.kind.noun h.name)
  else .ok { r with handlers := r.handlers.insert h.name h }

/-- Binds handlers one after another up to the first name that is taken: the registry then, and the
error if there was one. -/
def registerAll (r : Registry) : List Handler → Registry × Option Error
  | [] => (r, none)
  | h :: hs =>
    match r.register h with
    | .ok r => r.registerAll hs
    | .error e => (r, some e)

/-- The registry without a name, and whether the name was bound. -/
def remove (r : Registry) (name : String) : Registry × Bool :=
  ({ r with handlers := r.handlers.erase name }, r.contains name)

def find (r : Registry) (name : String) : Except Error Handler :=
  match r.get? name with
  | some h => .ok h
  | none => .error (.notFound r.kind.noun name)

/-- Handlers in ascending order of their names. -/
def toList (r : Registry) : List Handler :=
  r.handlers.values

def readOnlyNames (r : Registry) : List String :=
  (r.handlers.toList.filter fun (_, h) => h.readOnly).map Prod.fst

def capabilities (r : Registry) : Json :=
  .arr (r.toList.map Handler.capability)

/-- The reply of the handler of a name, if it replies; an unknown or disabled one is an error. -/
def execute (r : Registry) (name : String) (q : Request) (p : Parameters) : Option Reply :=
  match r.get? name with
  | some h => if h.enabled then h.run q p else some (.error ("Tool '" ++ name ++ "' is disabled"))
  | none => some (.error ("Tool not found: " ++ name))

end Registry

/-- The reply of a handler that is given up once it is cancelled. -/
def Handler.runCancelled (h : Handler) (q : Request) (p : Parameters) : Reply :=
  (h.run q p).getD (.error "cancelled")

end EchoEngine
