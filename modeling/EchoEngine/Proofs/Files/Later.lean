import EchoEngine.Proofs.Files.Resolution

/-!
# Later times

The tree may be copied with every file changed later by the same time (`Node.later`).  Paths read no times, so they
lead to the same places (`resolve?_later`), and a walk meets the same files, later by that time (`walk_later`).
-/

namespace EchoEngine.Files

/-- A visit of a file that has changed some nanoseconds later. -/
def Visit.later (d : Int) (v : Visit) : Visit :=
  { v with modified := v.modified + d }

namespace Node

mutual

/-- The tree with every file changed some nanoseconds later. -/
def later (d : Int) : Node → Node
  | file bytes modified => file bytes (modified + d)
  | link target => link target
  | dir entries => dir (laterEntries d entries)
termination_by structural n => n

def laterEntries (d : Int) : List (String × Node) → List (String × Node)
  | [] => []
  | (name, n) :: rest => (name, n.later d) :: laterEntries d rest
termination_by structural es => es

end

variable (d : Int)

theorem lookup_laterEntries (name : String) (entries : List (String × Node)) :
    (laterEntries d entries).lookup name = (entries.lookup name).map (later d) := by
  induction entries with
  | nil => rfl
  | cons e entries ih =>
    rw [laterEntries, List.lookup_cons, List.lookup_cons, ih]
    split <;> rfl

theorem find?_later (names : List String) (n : Node) :
    (n.later d).find? names = (n.find? names).map (later d) := by
  induction names generalizing n with
  | nil => rfl
  | cons name names ih =>
    have hchild : (n.later d).child? name = (n.child? name).map (later d) := by
      cases n with
      | file | link => rfl
      | dir entries => exact lookup_laterEntries d name entries
    rw [find?, find?, hchild, Option.bind_map, Option.map_bind]
    congr 1
    funext child
    exact ih child

variable (skip : List String → Bool) (limit : Nat)

mutual

theorem walk_later (names : List String) (n : Node) :
    (n.later d).walk skip limit names = (n.walk skip limit names).map (Visit.later d) := by
  match n with
  | file bytes modified => rfl
  | link target => rfl
  | dir entries =>
    rw [later, walk, walk, walkEntries_later names entries]
    split <;> rfl
termination_by structural n

theorem walkEntries_later (names : List String) (entries : List (String × Node)) :
    walkEntries skip limit names (laterEntries d entries) =
      (walkEntries skip limit names entries).map (Visit.later d) := by
  match entries with
  | [] => rfl
  | (name, n) :: rest =>
    rw [laterEntries, walkEntries, walkEntries, List.map_append, walk_later (names ++ [name]) n,
      walkEntries_later names rest]
    split <;> rfl
termination_by structural entries

end

end Node

namespace World

/-- The files with each of them changed some nanoseconds later. -/
def later (d : Int) (w : World) : World :=
  { w with top := w.top.later d }

variable (d : Int)

theorem follow_later (top : Node) (links : Nat) (place todo : List String) :
    follow (top.later d) links place todo = follow top links place todo := by
  fun_induction follow top links place todo with
  | case1 links place => rw [follow]
  | case2 links place rest entries hdir ih =>
    rw [follow, Node.find?_later, hdir]
    exact ih
  | case3 links place rest entries hdir _ ih =>
    rw [follow, Node.find?_later, hdir]
    exact ih
  | case4 | case5 | case6 =>
    rw [follow, Node.find?_later]
    simp only [*, Option.map_some, Option.map_none, Node.later, Node.lookup_laterEntries, if_false, if_true]
  | case7 place piece rest entries hdir hhere hup target hentry links start htarget ih =>
    rw [follow, Node.find?_later, hdir]
    simp only [Option.map_some, Node.later, Node.lookup_laterEntries, hentry, if_neg hhere, if_neg hup, htarget]
    exact ih
  | case8 links place piece rest entries hdir hhere hup node hnode hentry ih =>
    rw [follow, Node.find?_later, hdir]
    simp only [Option.map_some, Node.later, Node.lookup_laterEntries, hentry, if_neg hhere, if_neg hup]
    cases node with
    | link target => exact absurd rfl (hnode target)
    | file | dir => exact ih
  | case9 links place piece rest hnone =>
    rw [follow, Node.find?_later]
    cases hfind : top.find? place with
    | none => rfl
    | some n =>
      cases n with
      | dir entries => exact absurd hfind (hnone entries)
      | file | link => rfl

theorem resolve?_later (w : World) (path : String) : (w.later d).resolve? path = w.resolve? path := by
  rw [resolve?, resolve?]
  congr 1
  exact follow_later d w.top maxLinks (w.origin path) (steps path)

end World

end EchoEngine.Files
