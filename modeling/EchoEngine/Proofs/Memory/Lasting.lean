import EchoEngine.Proofs.Memory.Parents
import EchoEngine.Proofs.Memory.TopicEdges

/-!
# What nodes keep

A node keeps the kind and the group that it has been created with: meeting it again changes its visits, its weight
and its topics.  So whatever lasts can be read off the first plan that names a key (`map_node?_fold`).  Plans agree
that the group of a key is the key above it, but for their roots, which have none.  So a key that has first been
a root stays without a group, even if a later plan has it below a directory and joins it there (`group_replay`,
`group_nestedTrees`).
-/

namespace EchoEngine

open Std (ExtTreeMap)
open FoldPlan

variable {α γ : Type}

/-! ### Lasting properties -/

namespace MemoryNode

/-- Meeting a node again does not change the property. -/
def Lasting (π : MemoryNode α → γ) : Prop :=
  ∀ old n, π (old.revisit n) = π old

theorem Lasting.met {π : MemoryNode α → γ} (h : Lasting π) (before : Option (MemoryNode α))
    (n : MemoryNode α) : π (.met before n) = (before.map π).getD (π n) := by
  cases before with
  | none => rfl
  | some old => exact h old n

theorem lasting_kind : Lasting fun n : MemoryNode α => n.kind := fun _ _ => rfl

theorem lasting_group : Lasting fun n : MemoryNode α => n.group := fun _ _ => rfl

end MemoryNode

section

variable {π : MemoryNode α → γ}

theorem Growing.map_node?_meet (hπ : MemoryNode.Lasting π) (w : Growing α) (key : String) (n : MemoryNode α)
    (k : String) : ((w.meet key n).graph.node? k).map π
      = if key = k then some (((w.graph.node? k).map π).getD (π n)) else (w.graph.node? k).map π := by
  rw [node?_meet]
  split
  · rename_i hk
    rw [Option.map_some, hπ.met, hk]
  · rfl

/-- Steps that meet one key each give the property to those keys that are new. -/
private theorem map_node?_foldl {β : Type} {step : Growing α → β → Growing α} {key : β → String}
    {made : β → MemoryNode α} (hπ : MemoryNode.Lasting π) (φ : String → γ)
    (hstep : ∀ w x k, (step w x).graph.node? k
      = if key x = k then some (.met (w.graph.node? (key x)) (made x)) else w.graph.node? k)
    {xs : List β} (hmade : ∀ x ∈ xs, π (made x) = φ (key x)) (w : Growing α) (k : String) :
    ((xs.foldl step w).graph.node? k).map π
      = ((w.graph.node? k).map π).or (if k ∈ xs.map key then some (φ k) else none) := by
  induction xs generalizing w with
  | nil => simp
  | cons x xs ih =>
    obtain ⟨hx, hxs⟩ := List.forall_mem_cons.1 hmade
    rw [List.foldl_cons, ih hxs, hstep]
    by_cases hk : key x = k
    · subst hk
      rw [if_pos rfl, Option.map_some, hπ.met, hx]
      cases w.graph.node? (key x) <;> simp
    · simp [hk, Ne.symm hk]

/-- A fold gives lasting properties to new keys, to directories before files. -/
theorem MemoryGraph.map_node?_fold [Scalar α] (hπ : MemoryNode.Lasting π) (φ ψ : String → γ) {plan : FoldPlan α}
    (hdirectory : ∀ d parent, plan.directories[d]? = some parent → π (.ofDirectory parent) = φ d)
    (hfile : ∀ f ∈ plan.files, π (.ofFile f) = ψ f.key) (g : MemoryGraph α) (key : String) :
    ((g.fold plan).graph.node? key).map π
      = (((g.node? key).map π).or (if key ∈ plan.directories then some (φ key) else none)).or
          (if key ∈ plan.files.map (·.key) then some (ψ key) else none) := by
  have hdirectories := map_node?_foldl hπ φ Growing.node?_addDirectory
    (fun d hd => hdirectory d.1 d.2 (ExtTreeMap.mem_toList_iff_getElem?_eq_some.1 hd)) ⟨g, .none⟩ key
  have hfiles := map_node?_foldl hπ ψ Growing.node?_addFile hfile
    (Growing.addDirectories ⟨g, .none⟩ plan.directories) key
  have hkeys : key ∈ plan.directories.toList.map Prod.fst ↔ key ∈ plan.directories := by
    rw [ExtTreeMap.map_fst_toList_eq_keys, ExtTreeMap.mem_keys]
  rw [fold, (rewired_joinTopics _ _).node?]
  refine hfiles.trans ?_
  simp only [Growing.addDirectories, hdirectories, hkeys]

end

/-! ### Groups -/

namespace MemoryGraph

/-- A directory of a plan gets the key above it as its group, unless it is the root. -/
theorem group_ofDirectory {s : Snapshot α} {d : String} {parent : Option String}
    (h : (ofSnapshot s).directories[d]? = some parent) :
    parent = if d = rootKey s.root then none else some (parentKey d) := by
  have hfiles : s.salient ≠ [] := by
    intro hnil
    simp [ofSnapshot, ofFiles, hnil] at h
  rcases (getElem?_directories hfiles d parent).1 h with ⟨rfl, rfl⟩ | ⟨hroot, piece, above, -, -, rfl⟩
  · rw [if_pos rfl]
  · rw [if_neg hroot, ← parent_eq_parentKey (isRoot_rootKey s.root) h]

/-- The group that the fold of a snapshot gives to a new node, if it names the key. -/
def foldedGroup? (s : Snapshot α) (key : String) : Option (Option String) :=
  if key ∈ (ofSnapshot s).directories ∨ key ∈ (ofSnapshot s).files.map (·.key) then
    some (if key = rootKey s.root then none else some (parentKey key))
  else none

theorem foldedGroup?_eq_some_iff {s : Snapshot α} {key : String} {group : Option String} :
    foldedGroup? s key = some group ↔
      key ∈ named (ofSnapshot s) ∧ group = if key = rootKey s.root then none else some (parentKey key) := by
  unfold foldedGroup?
  rw [Option.ite_none_right_eq_some, Option.some_inj, List.mem_map, eq_comm (b := group)]
  rfl

theorem foldedGroup?_eq_none_iff {s : Snapshot α} {key : String} :
    foldedGroup? s key = none ↔ key ∉ named (ofSnapshot s) := by
  unfold foldedGroup?
  rw [ite_eq_right_iff, List.mem_map]
  simp [named]

variable [Scalar α]

theorem group_fold (g : MemoryGraph α) (s : Snapshot α) (key : String) :
    ((g.fold (.ofSnapshot s)).graph.node? key).map (·.group)
      = ((g.node? key).map (·.group)).or (foldedGroup? s key) := by
  have hfile : ∀ f ∈ (ofSnapshot s).files, (MemoryNode.ofFile f).group = some (parentKey f.key) := by
    intro p hp
    obtain ⟨f, -, rfl⟩ := List.mem_map.1 hp
    exact congrArg some (directory_plannedFile (isRoot_rootKey s.root) f)
  -- a file has the key of the root only where the root is a directory of the plan
  have hroot : key ∈ (ofSnapshot s).files.map (·.key) → key = rootKey s.root →
      key ∈ (ofSnapshot s).directories := by
    rintro hkey rfl
    refine root_mem_directories ?_
    rintro hnil
    simp [ofSnapshot, ofFiles, hnil] at hkey
  rw [map_node?_fold MemoryNode.lasting_group
    (fun key => if key = rootKey s.root then none else some (parentKey key)) (fun key => some (parentKey key))
    (fun d parent hd => group_ofDirectory hd) hfile, foldedGroup?, Option.or_assoc]
  congr 1
  by_cases hd : key ∈ (ofSnapshot s).directories
  · simp [hd]
  · by_cases hf : key ∈ (ofSnapshot s).files.map (·.key)
    · have hne : key ≠ rootKey s.root := fun h => hd (hroot hf h)
      simp only [hd, hf, hne, if_true, if_false, or_true, Option.none_or]
    · simp only [hd, hf, if_false, or_self, Option.none_or]

theorem group_replay_eq (settings : GraphSettings) (ss : List (Snapshot α)) (key : String) :
    ((replay settings (ss.map .fold)).node? key).map (·.group) = ss.findSome? (foldedGroup? · key) := by
  induction ss using List.reverseRecOn with
  | nil => simp [replay, applyAll, empty, node?]
  | append_singleton ss s ih =>
    rw [List.map_append, List.map_singleton, replay_concat, apply, group_fold, ih, List.findSome?_append,
      List.findSome?_singleton]

/-- In a run of folds every key that is named has a node, and its group is what the first fold that names it gives:
the key above it, or none, if the key is the root there. -/
theorem group_replay (settings : GraphSettings) (ss : List (Snapshot α)) (key : String)
    (group : Option String) :
    (∃ n, (replay settings (ss.map .fold)).node? key = some n ∧ n.group = group) ↔
      ∃ before s after, ss = before ++ s :: after ∧ key ∈ named (ofSnapshot s) ∧
        (∀ s' ∈ before, key ∉ named (ofSnapshot s')) ∧
        group = if key = rootKey s.root then none else some (parentKey key) := by
  have hfirst : ∀ s before after, (ss = before ++ s :: after ∧ foldedGroup? s key = some group ∧
      ∀ s' ∈ before, foldedGroup? s' key = none) ↔
      ss = before ++ s :: after ∧ key ∈ named (ofSnapshot s) ∧ (∀ s' ∈ before, key ∉ named (ofSnapshot s')) ∧
        group = if key = rootKey s.root then none else some (parentKey key) := by
    intro s before after
    simp only [foldedGroup?_eq_some_iff, foldedGroup?_eq_none_iff, and_assoc, and_comm, and_left_comm]
  rw [← Option.map_eq_some_iff, group_replay_eq, List.findSome?_eq_some_iff]
  simp only [hfirst]

/-- A directory that has been a root first has no group, although it is joined to the one above it. -/
theorem group_nestedTrees :
    (replay .standard (nestedTrees.map .fold)).adjacent "/tree/src" "/tree" ∧
    parentKey "/tree/src" = "/tree" ∧
    ((replay .standard (nestedTrees.map .fold)).node? "/tree/src").map (fun n => (n.kind, n.group))
      = some (.directory, none) := by
  decide +kernel

/-- In the other order it has. -/
theorem group_replay_nestedTrees :
    ∃ n, (replay .standard (nestedTrees.reverse.map .fold)).node? "/tree/src" = some n ∧
      n.group = some "/tree" := by
  refine (group_replay .standard nestedTrees.reverse "/tree/src" (some "/tree")).2
    ⟨[], sampleTree [("src/parse_tree.rs", 0.5)], nestedTrees.take 1, rfl, .inl (by decide), by simp, ?_⟩
  decide

end MemoryGraph

end EchoEngine
