import EchoEngine.Agent.Memory
import Std.Data.ExtTreeMap

/-!
# Agents

An agent is an identity and a state. The store owns all agents by their ids; they are listed in the
order of their creation.
-/

namespace EchoEngine

open Std (ExtTreeMap)

structure Agent where
  id : AgentId
  name : String
  type : AgentType
  created : Timestamp
  state : AgentState
deriving DecidableEq, Repr

namespace Agent

/-- An agent that has done nothing yet, named for its type and a label. -/
def new (settings : AgentSettings) (id : AgentId) (type : AgentType) (label : String)
    (now : Timestamp) : Agent :=
  ⟨id, type.name ++ "-" ++ label, type, now, .new settings⟩

def toJson (a : Agent) : Json :=
  .obj [("id", a.id.toJson), ("name", .str a.name), ("agent_type", a.type.toJson),
    ("created_at", a.created.toJson), ("state", a.state.toJson)]

def ofJson? : Json.Reader Agent := fun v => do
  let fs ← Json.Fields.of? ["id", "name", "agent_type", "created_at", "state"] v
  return {
    id := ← fs.required "id" AgentId.ofJson?
    name := ← fs.required "name" Json.Reader.string
    type := ← fs.required "agent_type" AgentType.ofJson?
    created := ← fs.required "created_at" Timestamp.ofJson?
    state := ← fs.required "state" AgentState.ofJson? }

/-- Earlier agents first, those of one moment by their ids. -/
def isBefore (a b : Agent) : Bool :=
  ((compare a.created.seconds b.created.seconds).then
    ((compare a.created.nanoseconds b.created.nanoseconds).then (compare a.id b.id))).isLE

end Agent

structure AgentStore where
  settings : AgentSettings
  /-- The agents by the texts of their ids. -/
  agents : ExtTreeMap String Agent
deriving DecidableEq

namespace AgentStore

def new (settings : AgentSettings) : AgentStore :=
  ⟨settings, ∅⟩

instance : Inhabited AgentStore := ⟨new .standard⟩

def get? (s : AgentStore) (id : AgentId) : Option Agent :=
  s.agents[id.text]?

def find (s : AgentStore) (id : AgentId) : Except Error Agent :=
  match s.get? id with
  | some a => .ok a
  | none => .error (.notFound "agent" id.text)

def contains (s : AgentStore) (id : AgentId) : Bool :=
  s.agents.contains id.text

def size (s : AgentStore) : Nat :=
  s.agents.size

def isEmpty (s : AgentStore) : Bool :=
  s.size = 0

/-- The agents in the order of their creation. -/
def toList (s : AgentStore) : List Agent :=
  s.agents.values.mergeSort Agent.isBefore

/-- The store with an agent put under its id. -/
def put (s : AgentStore) (a : Agent) : AgentStore :=
  { s with agents := s.agents.insert a.id.text a }

/-- The store with another state of the agent under an id. -/
def update (s : AgentStore) (id : AgentId) (f : AgentState → AgentState) : AgentStore :=
  { s with agents := s.agents.modify id.text fun a => { a with state := f a.state } }

theorem get?_update (s : AgentStore) (id : AgentId) (f : AgentState → AgentState) :
    (s.update id f).get? id = (s.get? id).map fun a => { a with state := f a.state } := by
  simp [update, get?]

theorem get?_update_of_ne (s : AgentStore) {id other : AgentId} (f : AgentState → AgentState)
    (h : other ≠ id) : (s.update id f).get? other = s.get? other := by
  have htext : id.text ≠ other.text := by
    intro he
    apply h
    cases id; cases other
    simp_all
  simp [update, get?, ExtTreeMap.getElem?_modify, htext]

/-- A new agent under a fresh id. -/
def create (s : AgentStore) (id : AgentId) (type : AgentType) (label : String) (now : Timestamp) :
    AgentStore × Agent :=
  let a := Agent.new s.settings id type label now
  (s.put a, a)

end AgentStore

end EchoEngine
