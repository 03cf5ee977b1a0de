import EchoEngine.Memory.Graph

/-!
# Looking things up

What the steps that a graph is built from do to what can be looked up in it: meeting a node, joining
two keys, removing a node.  Meeting touches nothing but one node, joining nothing but the edges.
Wherever edges are noted at both ends, joining adds one pair (`adjacent_join`) and removing a node
takes away all pairs with it (`adjacent_remove`).
-/

namespace EchoEngine

open Std (ExtTreeMap ExtTreeSet)

variable {α : Type}

namespace MemoryNode

/-- What a node is after it has been met. -/
def met (before : Option (MemoryNode α)) (n : MemoryNode α) : MemoryNode α :=
  match before with
  | some old => old.revisit n
  | none => n

end MemoryNode

namespace MemoryGraph

theorem contains_iff {g : MemoryGraph α} {key : String} : g.contains key ↔ ∃ n, g.node? key = some n := by
  rw [contains, node?, ExtTreeMap.contains_eq_isSome_getElem?, Option.isSome_iff_exists]

theorem adjacent_iff {g : MemoryGraph α} {a b : String} : g.adjacent a b ↔ b ∈ g.adjacency.members a :=
  ExtTreeSet.contains_iff_mem

theorem mem_neighbors {g : MemoryGraph α} {a b : String} : b ∈ g.neighbors a ↔ g.adjacent a b := by
  rw [neighbors, ExtTreeSet.mem_toList, adjacent_iff]

theorem nodup_neighbors (g : MemoryGraph α) (key : String) : (g.neighbors key).Nodup :=
  KeySets.nodup_toList _

/-- Two graphs differ in nothing but edges. -/
def Rewired (g g' : MemoryGraph α) : Prop :=
  ∃ adjacency edgeCount, g' = { g with adjacency, edgeCount }

theorem Rewired.refl (g : MemoryGraph α) : g.Rewired g :=
  ⟨g.adjacency, g.edgeCount, rfl⟩

theorem Rewired.trans {g g' g'' : MemoryGraph α} (h : g.Rewired g') (h' : g'.Rewired g'') :
    g.Rewired g'' := by
  obtain ⟨_, _, rfl⟩ := h
  obtain ⟨adjacency, edgeCount, rfl⟩ := h'
  exact ⟨adjacency, edgeCount, rfl⟩

section

variable {g g' : MemoryGraph α}

theorem Rewired.node? (h : g.Rewired g') (key : String) : g'.node? key = g.node? key := by
  obtain ⟨_, _, rfl⟩ := h
  rfl

theorem Rewired.contains (h : g.Rewired g') (key : String) : g'.contains key = g.contains key := by
  obtain ⟨_, _, rfl⟩ := h
  rfl

theorem Rewired.settings (h : g.Rewired g') : g'.settings = g.settings := by
  obtain ⟨_, _, rfl⟩ := h
  rfl

theorem Rewired.hyperedges (h : g.Rewired g') : g'.hyperedges = g.hyperedges := by
  obtain ⟨_, _, rfl⟩ := h
  rfl

theorem Rewired.carriers (h : g.Rewired g') : g'.carriers = g.carriers := by
  obtain ⟨_, _, rfl⟩ := h
  rfl

theorem Rewired.memories (h : g.Rewired g') : g'.memories = g.memories := by
  obtain ⟨_, _, rfl⟩ := h
  rfl

end

/-- Every edge is noted at both of its ends. -/
def Symmetric (g : MemoryGraph α) : Prop :=
  ∀ a b, g.adjacent a b → g.adjacent b a

end MemoryGraph

/-! ### Meeting and joining -/

namespace Growing

theorem graph_meet (w : Growing α) (key : String) (n : MemoryNode α) :
    (w.meet key n).graph
      = { w.graph with nodes := w.graph.nodes.insert key (.met (w.graph.node? key) n) } := by
  unfold meet
  split <;> simp [MemoryNode.met, *]

theorem node?_meet (w : Growing α) (key : String) (n : MemoryNode α) (k : String) :
    (w.meet key n).graph.node? k
      = if key = k then some (.met (w.graph.node? key) n) else w.graph.node? k := by
  rw [graph_meet, MemoryGraph.node?, ExtTreeMap.getElem?_insert]
  simp only [Std.compare_eq_iff_eq]
  rfl

theorem contains_meet (w : Growing α) (key : String) (n : MemoryNode α) (k : String) :
    (w.meet key n).graph.contains k ↔ k = key ∨ w.graph.contains k := by
  simp only [MemoryGraph.contains_iff, node?_meet]
  by_cases h : key = k
  · simp [h]
  · simp [h, Ne.symm h]

theorem created_meet (w : Growing α) (key : String) (n : MemoryNode α) :
    (w.meet key n).created = if w.graph.contains key then w.created else w.created + ⟨1, 0⟩ := by
  unfold meet MemoryGraph.contains
  rw [ExtTreeMap.contains_eq_isSome_getElem?]
  split <;> simp_all [MemoryGraph.node?]

theorem graph_join (w : Growing α) (a b : String) :
    (w.join a b).graph = if a = b ∨ w.graph.adjacent a b then w.graph
      else { w.graph with
        adjacency := (w.graph.adjacency.enroll a b).enroll b a
        edgeCount := w.graph.edgeCount + 1 } := by
  unfold join
  split <;> rfl

theorem rewired_join (w : Growing α) (a b : String) : w.graph.Rewired (w.join a b).graph := by
  rw [graph_join]
  split
  · exact .refl _
  · exact ⟨_, _, rfl⟩

@[simp] theorem node?_join (w : Growing α) (a b key : String) :
    (w.join a b).graph.node? key = w.graph.node? key :=
  (rewired_join w a b).node? key

@[simp] theorem contains_join (w : Growing α) (a b key : String) :
    (w.join a b).graph.contains key = w.graph.contains key :=
  (rewired_join w a b).contains key

@[simp] theorem settings_join (w : Growing α) (a b : String) :
    (w.join a b).graph.settings = w.graph.settings :=
  (rewired_join w a b).settings

@[simp] theorem hyperedges_join (w : Growing α) (a b : String) :
    (w.join a b).graph.hyperedges = w.graph.hyperedges :=
  (rewired_join w a b).hyperedges

@[simp] theorem carriers_join (w : Growing α) (a b : String) :
    (w.join a b).graph.carriers = w.graph.carriers :=
  (rewired_join w a b).carriers

@[simp] theorem memories_join (w : Growing α) (a b : String) :
    (w.join a b).graph.memories = w.graph.memories :=
  (rewired_join w a b).memories

theorem adjacent_join {w : Growing α} (h : w.graph.Symmetric) (a b x y : String) :
    (w.join a b).graph.adjacent x y ↔
      w.graph.adjacent x y ∨ (a ≠ b ∧ (x = a ∧ y = b ∨ x = b ∧ y = a)) := by
  rw [graph_join]
  split
  · rename_i hold
    constructor
    · exact .inl
    · rintro (hxy | ⟨hne, ⟨rfl, rfl⟩ | ⟨rfl, rfl⟩⟩)
      · exact hxy
      · exact hold.resolve_left hne
      · exact h _ _ (hold.resolve_left hne)
  · rename_i hnew
    rw [not_or] at hnew
    simp only [MemoryGraph.adjacent_iff, KeySets.mem_members_enroll]
    constructor
    · rintro (⟨rfl, rfl⟩ | ⟨rfl, rfl⟩ | hxy)
      · exact .inr ⟨hnew.1, .inr ⟨rfl, rfl⟩⟩
      · exact .inr ⟨hnew.1, .inl ⟨rfl, rfl⟩⟩
      · exact .inl hxy
    · rintro (hxy | ⟨-, ⟨rfl, rfl⟩ | ⟨rfl, rfl⟩⟩)
      · exact .inr (.inr hxy)
      · exact .inr (.inl ⟨rfl, rfl⟩)
      · exact .inl ⟨rfl, rfl⟩

theorem adjacent_join_of_adjacent {w : Growing α} {a b x y : String} (h : w.graph.adjacent x y) :
    (w.join a b).graph.adjacent x y := by
  rw [graph_join]
  split
  · exact h
  · rw [MemoryGraph.adjacent_iff] at h ⊢
    simp [h]

/-- Two keys that have been joined are one or joined. -/
theorem eq_or_adjacent_join (w : Growing α) (a b : String) : a = b ∨ (w.join a b).graph.adjacent a b := by
  rw [graph_join]
  split
  · assumption
  · right
    rw [MemoryGraph.adjacent_iff]
    simp

/-- Joining keys that are one or joined already does nothing. -/
theorem join_eq_self {w : Growing α} {a b : String} (h : a = b ∨ w.graph.adjacent a b) :
    w.join a b = w := by
  unfold join
  rw [if_pos h]

/-- Joining by ancestry is joining or doing nothing. -/
theorem joinAncestor_cases (w : Growing α) (key parent : String) :
    w.joinAncestor key parent = w.join key parent ∨ w.joinAncestor key parent = w := by
  unfold joinAncestor
  split
  · exact .inl rfl
  · exact .inr rfl

theorem rewired_joinAncestor (w : Growing α) (key parent : String) :
    w.graph.Rewired (w.joinAncestor key parent).graph := by
  rcases joinAncestor_cases w key parent with h | h
  · rw [h]
    exact rewired_join w key parent
  · rw [h]
    exact .refl _

/-! ### Files and directories -/

theorem mem_carriers_carry {w : Growing α} {key : String} {topics : ExtTreeSet String} {topic x : String} :
    x ∈ (w.carry key topics).graph.carriers.members topic ↔
      (topic ∈ topics ∧ x = key) ∨ x ∈ w.graph.carriers.members topic := by
  rw [carry]
  dsimp only
  rw [KeySets.mem_members_foldl_enroll (fun topic => topic) (fun _ => key)]
  simp only [ExtTreeSet.mem_toList, and_left_comm, exists_eq_left']

theorem node?_addFile (w : Growing α) (f : PlannedFile α) (k : String) :
    (w.addFile f).graph.node? k
      = if f.key = k then some (.met (w.graph.node? f.key) (.ofFile f)) else w.graph.node? k :=
  ((rewired_joinAncestor _ _ _).node? k).trans (node?_meet (w.carry f.key f.topics) f.key (.ofFile f) k)

theorem mem_carriers_addFile {w : Growing α} {f : PlannedFile α} {topic x : String} :
    x ∈ (w.addFile f).graph.carriers.members topic ↔
      (topic ∈ f.topics ∧ x = f.key) ∨ x ∈ w.graph.carriers.members topic := by
  have h : (w.addFile f).graph.carriers = (w.carry f.key f.topics).graph.carriers := by
    rw [addFile, gather]
    dsimp only
    rw [(rewired_joinAncestor _ _ _).carriers, graph_meet]
  rw [h, mem_carriers_carry]

theorem hyperedges_addFile (w : Growing α) (f : PlannedFile α) :
    (w.addFile f).graph.hyperedges = w.graph.hyperedges.enroll f.directory f.key := by
  rw [addFile, gather]
  dsimp only
  rw [(rewired_joinAncestor _ _ _).hyperedges, graph_meet]
  rfl

theorem mem_hyperedges_addFile {w : Growing α} {f : PlannedFile α} {d x : String} :
    x ∈ (w.addFile f).graph.hyperedges.members d ↔
      (d = f.directory ∧ x = f.key) ∨ x ∈ w.graph.hyperedges.members d := by
  rw [hyperedges_addFile, KeySets.mem_members_enroll]

theorem addDirectory_cases [Scalar α] (w : Growing α) (d : String × Option String) :
    (d.2 = none ∧ w.addDirectory d = w.meet d.1 (.ofDirectory d.2)) ∨
      ∃ parent, d.2 = some parent ∧
        w.addDirectory d = (w.meet d.1 (.ofDirectory d.2)).joinAncestor d.1 parent := by
  unfold addDirectory
  dsimp only
  split
  · exact .inr ⟨_, ‹_›, rfl⟩
  · exact .inl ⟨‹_›, rfl⟩

theorem node?_addDirectory [Scalar α] (w : Growing α) (d : String × Option String) (k : String) :
    (w.addDirectory d).graph.node? k
      = if d.1 = k then some (.met (w.graph.node? d.1) (.ofDirectory d.2)) else w.graph.node? k := by
  rcases addDirectory_cases w d with ⟨-, h⟩ | ⟨parent, -, h⟩
  · rw [h, node?_meet]
  · rw [h, (rewired_joinAncestor _ _ _).node?, node?_meet]

theorem carriers_addDirectory [Scalar α] (w : Growing α) (d : String × Option String) :
    (w.addDirectory d).graph.carriers = w.graph.carriers := by
  rcases addDirectory_cases w d with ⟨-, h⟩ | ⟨parent, -, h⟩
  · rw [h, graph_meet]
  · rw [h, (rewired_joinAncestor _ _ _).carriers, graph_meet]

theorem hyperedges_addDirectory [Scalar α] (w : Growing α) (d : String × Option String) :
    (w.addDirectory d).graph.hyperedges = w.graph.hyperedges := by
  rcases addDirectory_cases w d with ⟨-, h⟩ | ⟨parent, -, h⟩
  · rw [h, graph_meet]
  · rw [h, (rewired_joinAncestor _ _ _).hyperedges, graph_meet]

/-! ### Memories -/

theorem contains_meetMemory (w : Growing α) (key : String) (n : MemoryNode α) (k : String) :
    (w.meetMemory key n).graph.contains k ↔ k = key ∨ w.graph.contains k :=
  contains_meet w key n k

end Growing

/-! ### Removing -/

namespace MemoryGraph

private theorem foldl_unlink (key : String) (others : List String) (g : MemoryGraph α) :
    others.foldl (unlink key) g = { g with
      adjacency := others.foldl (fun sets other => sets.withdraw other key) g.adjacency
      edgeCount := g.edgeCount - others.length } := by
  induction others generalizing g with
  | nil => rfl
  | cons other others ih =>
    rw [List.foldl_cons, ih]
    simp only [unlink, List.foldl_cons, List.length_cons]
    congr 1
    omega

private theorem mem_members_foldl_withdraw (key : String) (others : List String) (sets : KeySets)
    (x y : String) :
    y ∈ (others.foldl (fun sets other => sets.withdraw other key) sets).members x ↔
      ¬(x ∈ others ∧ y = key) ∧ y ∈ sets.members x := by
  induction others generalizing sets with
  | nil => simp
  | cons other others ih =>
    rw [List.foldl_cons, ih, KeySets.mem_members_withdraw, List.mem_cons, ← and_assoc]
    apply and_congr_left
    intro _
    rw [or_and_right, not_or, and_comm]

theorem remove_eq (g : MemoryGraph α) (key : String) : g.remove key = { g with
    nodes := g.nodes.erase key
    adjacency := (g.neighbors key).foldl (fun sets other => sets.withdraw other key) (g.adjacency.erase key)
    edgeCount := g.edgeCount - (g.neighbors key).length } := by
  rw [remove, foldl_unlink]

@[simp] theorem settings_remove (g : MemoryGraph α) (key : String) :
    (g.remove key).settings = g.settings := by
  rw [remove_eq]

@[simp] theorem hyperedges_remove (g : MemoryGraph α) (key : String) :
    (g.remove key).hyperedges = g.hyperedges := by
  rw [remove_eq]

@[simp] theorem carriers_remove (g : MemoryGraph α) (key : String) :
    (g.remove key).carriers = g.carriers := by
  rw [remove_eq]

@[simp] theorem memories_remove (g : MemoryGraph α) (key : String) :
    (g.remove key).memories = g.memories := by
  rw [remove_eq]

theorem node?_remove (g : MemoryGraph α) (key k : String) :
    (g.remove key).node? k = if key = k then none else g.node? k := by
  rw [remove_eq, node?, ExtTreeMap.getElem?_erase]
  simp only [Std.compare_eq_iff_eq]
  rfl

theorem contains_remove (g : MemoryGraph α) (key k : String) :
    (g.remove key).contains k ↔ k ≠ key ∧ g.contains k := by
  simp only [contains_iff, node?_remove]
  by_cases h : key = k
  · simp [h]
  · simp [h, Ne.symm h]

/-- Without a node there are no edges with it, and all others are left. -/
theorem adjacent_remove {g : MemoryGraph α} (h : g.Symmetric) (key x y : String) :
    (g.remove key).adjacent x y ↔ x ≠ key ∧ y ≠ key ∧ g.adjacent x y := by
  rw [remove_eq]
  simp only [adjacent_iff, mem_members_foldl_withdraw, KeySets.members_erase, mem_neighbors]
  by_cases hx : x = key
  · simp [hx]
  · rw [if_neg (Ne.symm hx)]
    constructor
    · rintro ⟨hnot, hxy⟩
      refine ⟨hx, ?_, hxy⟩
      rintro rfl
      exact hnot ⟨adjacent_iff.1 (h _ _ (adjacent_iff.2 hxy)), rfl⟩
    · rintro ⟨-, hy, hxy⟩
      exact ⟨fun hnot => hy hnot.2, hxy⟩

end MemoryGraph

/-! ### Inductions over a fold -/

/-- What joining files to their partners keeps one by one holds when topics have been linked. -/
theorem Growing.joinTopics_induction {P : Growing α → Prop} {w : Growing α}
    {files : List (PlannedFile α)} (h : P w) (hjoin : ∀ w, ∀ f ∈ files, P w → P (w.joinPartners f)) :
    P (w.joinTopics files) := by
  unfold joinTopics
  split
  · exact List.foldlRecOn _ _ h fun w hw f hf => hjoin w f hf hw
  · exact h

/-- What adding the directories and files of a plan keeps one by one holds when it has been entered. -/
theorem MemoryGraph.enter_induction [Scalar α] {P : Growing α → Prop} {g : MemoryGraph α}
    {plan : FoldPlan α} (h : P ⟨g, .none⟩)
    (hdirectory : ∀ w d parent, plan.directories[d]? = some parent → P w → P (w.addDirectory (d, parent)))
    (hfile : ∀ w, ∀ f ∈ plan.files, P w → P (w.addFile f)) : P (g.enter plan) := by
  have hdirectories : P (Growing.addDirectories ⟨g, .none⟩ plan.directories) :=
    List.foldlRecOn _ _ h fun w hw d hd =>
      hdirectory w d.1 d.2 (ExtTreeMap.mem_toList_iff_getElem?_eq_some.1 hd) hw
  exact List.foldlRecOn _ _ hdirectories fun w hw f hf => hfile w f hf hw

end EchoEngine
