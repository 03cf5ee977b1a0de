import EchoEngine.Proofs.Memory.Lookup
import Mathlib.Data.Set.Card
import Mathlib.Data.Sym.Sym2

/-!
# Edges and their count

A graph is undirected if every edge is noted at both of its ends, no key is joined to itself, and the
count of edges is the number of unordered pairs of joined keys.  Joining two keys and removing a node
keep a graph so, and hence folding and recording do, whatever the keys are.  A node has at most as many
neighbors as there are edges, so that counting them down when the node is removed never ends below zero
(`length_neighbors_le`).
-/

namespace EchoEngine

variable {α : Type}

namespace MemoryGraph

/-- The unordered pairs of keys that are joined. -/
def edges (g : MemoryGraph α) : Set (Sym2 String) :=
  {e | ∃ a b, e = s(a, b) ∧ g.adjacent a b}

/-- The edges with a key. -/
def star (g : MemoryGraph α) (key : String) : Set (Sym2 String) :=
  {e | ∃ b, e = s(key, b) ∧ g.adjacent key b}

structure Undirected (g : MemoryGraph α) : Prop where
  symmetric : g.Symmetric
  irreflexive : ∀ a, ¬g.adjacent a a
  encard_edges : g.edges.encard = g.edgeCount

theorem mem_edges {g : MemoryGraph α} (h : g.Symmetric) {a b : String} :
    s(a, b) ∈ g.edges ↔ g.adjacent a b := by
  constructor
  · rintro ⟨x, y, he, hxy⟩
    rw [Sym2.eq_iff] at he
    rcases he with ⟨rfl, rfl⟩ | ⟨rfl, rfl⟩
    · exact hxy
    · exact h _ _ hxy
  · intro hab
    exact ⟨a, b, rfl, hab⟩

/-- Whether a graph is undirected is a matter of its edges and their count alone. -/
theorem Undirected.congr {g g' : MemoryGraph α} (h : g.Undirected) (hadjacency : g'.adjacency = g.adjacency)
    (hcount : g'.edgeCount = g.edgeCount) : g'.Undirected := by
  have hadjacent : ∀ a b, g'.adjacent a b = g.adjacent a b := by
    intro a b
    rw [adjacent, adjacent, hadjacency]
  have hedges : g'.edges = g.edges := by
    simp only [edges, hadjacent]
  refine ⟨fun a b hab => ?_, fun a ha => ?_, ?_⟩
  · rw [hadjacent] at hab ⊢
    exact h.symmetric a b hab
  · rw [hadjacent] at ha
    exact h.irreflexive a ha
  · rw [hedges, h.encard_edges, hcount]

/-- Edges are counted as they are noted. -/
theorem Undirected.edgeCount_eq {g g' : MemoryGraph α} (h : g.Undirected) (h' : g'.Undirected)
    (hadjacency : g'.adjacency = g.adjacency) : g'.edgeCount = g.edgeCount := by
  have hcounts : (g'.edgeCount : ℕ∞) = g.edgeCount := by
    rw [← h.encard_edges, ← h'.encard_edges]
    simp only [edges, adjacent, hadjacency]
  exact_mod_cast hcounts

theorem undirected_empty (settings : GraphSettings) : (empty settings : MemoryGraph α).Undirected := by
  have hnone : ∀ a b, ¬(empty settings : MemoryGraph α).adjacent a b := by
    intro a b h
    rw [adjacent_iff] at h
    simp [empty] at h
  refine ⟨fun a b h => absurd h (hnone a b), fun a => hnone a a, ?_⟩
  have : (empty settings : MemoryGraph α).edges = ∅ := by
    rw [Set.eq_empty_iff_forall_notMem]
    rintro e ⟨a, b, -, hab⟩
    exact hnone a b hab
  rw [this]
  simp [empty]

/-! ### Joining -/

theorem Undirected.join {w : Growing α} (h : w.graph.Undirected) (a b : String) :
    (w.join a b).graph.Undirected := by
  by_cases hold : a = b ∨ w.graph.adjacent a b
  · rw [Growing.join_eq_self hold]
    exact h
  · have hnew := not_or.1 hold
    have hjoin := Growing.adjacent_join h.symmetric a b
    refine ⟨?_, ?_, ?_⟩
    · intro x y hxy
      rw [hjoin] at hxy ⊢
      rcases hxy with hxy | ⟨hne, hxy | hxy⟩
      · exact .inl (h.symmetric _ _ hxy)
      · exact .inr ⟨hne, .inr hxy.symm⟩
      · exact .inr ⟨hne, .inl hxy.symm⟩
    · intro x hx
      rw [hjoin] at hx
      rcases hx with hx | ⟨hne, ⟨rfl, rfl⟩ | ⟨rfl, rfl⟩⟩
      · exact h.irreflexive x hx
      · exact hne rfl
      · exact hne rfl
    · have hedges : (w.join a b).graph.edges = insert s(a, b) w.graph.edges := by
        ext e
        rw [Set.mem_insert_iff]
        constructor
        · rintro ⟨x, y, rfl, hxy⟩
          rw [hjoin] at hxy
          rcases hxy with hxy | ⟨-, ⟨rfl, rfl⟩ | ⟨rfl, rfl⟩⟩
          · exact .inr ⟨x, y, rfl, hxy⟩
          · exact .inl rfl
          · exact .inl Sym2.eq_swap
        · rintro (rfl | ⟨x, y, rfl, hxy⟩)
          · exact ⟨a, b, rfl, (hjoin a b).2 (.inr ⟨hnew.1, .inl ⟨rfl, rfl⟩⟩)⟩
          · exact ⟨x, y, rfl, (hjoin x y).2 (.inl hxy)⟩
      have hcount : (w.join a b).graph.edgeCount = w.graph.edgeCount + 1 := by
        rw [Growing.graph_join, if_neg hold]
      rw [hedges, Set.encard_insert_of_notMem (fun he => hnew.2 ((mem_edges h.symmetric).1 he)),
        h.encard_edges, hcount]
      rfl

/-! ### Removing -/

private theorem encard_star (g : MemoryGraph α) (key : String) :
    (g.star key).encard = (g.neighbors key).length := by
  have hinj : Function.Injective fun b => s(key, b) := fun _ _ he => Sym2.congr_right.1 he
  have hstar : g.star key = (((g.neighbors key).map fun b => s(key, b)).toFinset : Set (Sym2 String)) := by
    ext e
    simp only [star, Set.mem_ofPred_eq, List.coe_toFinset, List.mem_map, mem_neighbors]
    constructor
    · rintro ⟨b, rfl, hb⟩
      exact ⟨b, hb, rfl⟩
    · rintro ⟨b, hb, rfl⟩
      exact ⟨b, rfl, hb⟩
  rw [hstar, Set.encard_coe_eq_coe_finsetCard,
    List.toFinset_card_of_nodup ((nodup_neighbors g key).map hinj), List.length_map]

/-- The edges of a graph are those left without a node and the ones with it. -/
private theorem encard_edges_remove {g : MemoryGraph α} (h : g.Symmetric) (key : String) :
    (g.remove key).edges.encard + (g.neighbors key).length = g.edges.encard := by
  have hunion : g.edges = (g.remove key).edges ∪ g.star key := by
    ext e
    rw [Set.mem_union]
    constructor
    · rintro ⟨a, b, rfl, hab⟩
      by_cases ha : a = key
      · subst ha
        exact .inr ⟨b, rfl, hab⟩
      · by_cases hb : b = key
        · subst hb
          exact .inr ⟨a, Sym2.eq_swap, h _ _ hab⟩
        · exact .inl ⟨a, b, rfl, (adjacent_remove h key a b).2 ⟨ha, hb, hab⟩⟩
    · rintro (⟨a, b, rfl, hab⟩ | ⟨b, rfl, hb⟩)
      · exact ⟨a, b, rfl, ((adjacent_remove h key a b).1 hab).2.2⟩
      · exact ⟨key, b, rfl, hb⟩
  have hdisjoint : Disjoint (g.remove key).edges (g.star key) := by
    rw [Set.disjoint_left]
    rintro e ⟨a, b, rfl, hab⟩ ⟨c, he, -⟩
    obtain ⟨ha, hb, -⟩ := (adjacent_remove h key a b).1 hab
    rw [Sym2.eq_iff] at he
    rcases he with ⟨rfl, -⟩ | ⟨-, rfl⟩
    · exact ha rfl
    · exact hb rfl
  rw [hunion, Set.encard_union_eq hdisjoint, encard_star]

/-- A node has no more neighbors than there are edges. -/
theorem Undirected.length_neighbors_le {g : MemoryGraph α} (h : g.Undirected) (key : String) :
    (g.neighbors key).length ≤ g.edgeCount := by
  have hsum := encard_edges_remove h.symmetric key
  rw [h.encard_edges] at hsum
  have hle : ((g.neighbors key).length : ℕ∞) ≤ g.edgeCount := by
    rw [← hsum]
    exact le_add_self
  exact_mod_cast hle

theorem Undirected.remove {g : MemoryGraph α} (h : g.Undirected) (key : String) :
    (g.remove key).Undirected := by
  have hremove := adjacent_remove h.symmetric key
  refine ⟨?_, ?_, ?_⟩
  · intro a b hab
    rw [hremove] at hab ⊢
    exact ⟨hab.2.1, hab.1, h.symmetric _ _ hab.2.2⟩
  · intro a ha
    exact h.irreflexive a ((hremove a a).1 ha).2.2
  · have hsum := encard_edges_remove h.symmetric key
    have hle := h.length_neighbors_le key
    have hcount : (g.remove key).edgeCount = g.edgeCount - (g.neighbors key).length := by
      rw [remove_eq]
    have hsplit : (g.edgeCount : ℕ∞) = (g.remove key).edgeCount + (g.neighbors key).length := by
      rw [hcount]
      exact_mod_cast (Nat.sub_add_cancel hle).symm
    -- one edge is counted down for each neighbor, and there were that many
    rw [h.encard_edges, hsplit] at hsum
    exact ENat.add_left_injective_of_ne_top (ENat.natCast_ne_top _) hsum

/-! ### Folding and recording -/

theorem Undirected.meet {w : Growing α} (h : w.graph.Undirected) (key : String) (n : MemoryNode α) :
    (w.meet key n).graph.Undirected :=
  h.congr (by rw [Growing.graph_meet]) (by rw [Growing.graph_meet])

theorem Undirected.meetMemory {w : Growing α} (h : w.graph.Undirected) (key : String) (n : MemoryNode α) :
    (w.meetMemory key n).graph.Undirected :=
  (h.meet key n).congr rfl rfl

theorem Undirected.joinAncestor {w : Growing α} (h : w.graph.Undirected) (key parent : String) :
    (w.joinAncestor key parent).graph.Undirected := by
  rcases Growing.joinAncestor_cases w key parent with hw | hw
  · rw [hw]
    exact h.join key parent
  · rwa [hw]

theorem Undirected.addFile {w : Growing α} (h : w.graph.Undirected) (f : PlannedFile α) :
    (w.addFile f).graph.Undirected := by
  have hcarry : (w.carry f.key f.topics).graph.Undirected := h.congr rfl rfl
  exact ((hcarry.meet f.key (.ofFile f)).joinAncestor f.key f.directory).congr rfl rfl

theorem Undirected.joinPartners {w : Growing α} (h : w.graph.Undirected) (f : PlannedFile α) :
    (w.joinPartners f).graph.Undirected :=
  List.foldlRecOn (motive := fun v : Growing α => v.graph.Undirected) _ _ h
    fun _ hv other _ => hv.join f.key other

theorem Undirected.repeat_dropOldest {g : MemoryGraph α} (h : g.Undirected) (n : Nat) :
    (Nat.repeat dropOldest n g).Undirected := by
  induction n with
  | zero => exact h
  | succ n ih =>
    rw [Nat.repeat, dropOldest]
    split
    · exact ih
    · rename_i oldest rest _
      have hrest : ({ Nat.repeat dropOldest n g with memories := rest } : MemoryGraph α).Undirected :=
        ih.congr rfl rfl
      exact hrest.remove oldest

variable [Scalar α]

theorem Undirected.addDirectory {w : Growing α} (h : w.graph.Undirected) (d : String × Option String) :
    (w.addDirectory d).graph.Undirected := by
  have hmeet := h.meet d.1 (.ofDirectory d.2)
  rcases Growing.addDirectory_cases w d with ⟨-, hw⟩ | ⟨parent, -, hw⟩
  · rwa [hw]
  · rw [hw]
    exact hmeet.joinAncestor d.1 parent

theorem Undirected.enter {g : MemoryGraph α} (h : g.Undirected) (plan : FoldPlan α) :
    (g.enter plan).graph.Undirected :=
  enter_induction (P := fun w => w.graph.Undirected) h (fun _ d parent _ hw => hw.addDirectory (d, parent))
    fun _ f _ hw => hw.addFile f

theorem Undirected.fold {g : MemoryGraph α} (h : g.Undirected) (plan : FoldPlan α) :
    (g.fold plan).graph.Undirected :=
  Growing.joinTopics_induction (P := fun w => w.graph.Undirected) (h.enter plan)
    fun _ f _ hw => hw.joinPartners f

theorem Undirected.record {g : MemoryGraph α} (h : g.Undirected) (agent : AgentId) (task summary : String) :
    (g.record agent task summary).graph.Undirected := by
  have hhub : (Growing.meet ⟨g, .none⟩ (hubKey agent) .hub).graph.Undirected := h.meet _ _
  have hremembered : (g.remember agent task summary).graph.Undirected :=
    (hhub.meetMemory (memoryKey agent task) _).join _ _
  exact hremembered.repeat_dropOldest _

end MemoryGraph

end EchoEngine
