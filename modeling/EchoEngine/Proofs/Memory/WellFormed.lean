import EchoEngine.Proofs.Memory.Edges
import EchoEngine.Proofs.Memory.Partners
import Mathlib.Data.Sym.Card

/-!
# Well-formed graphs

A graph is well formed if all that it keeps agrees: both ends of an edge are nodes, and so are the
members of hyperedges and the carriers of topics; the memories that wait to be dropped are, without
repetition, the nodes of that kind.

Two things have to be added for the steps to keep it so.  Nothing but memories has the key of a memory,
and what is in a hyperedge or carries a topic is a path, so that dropping a memory leaves both alone.
And in the middle of a fold an edge or a hyperedge may name what is yet to be met, so the invariant
(`Sound`) is stated up to a set of pending keys, all of which the fold has met at its end.
-/

namespace EchoEngine

open Std (ExtTreeMap ExtTreeSet)

variable {α : Type}

namespace MemoryGraph

structure WellFormed (g : MemoryGraph α) : Prop extends g.Undirected where
  edge_contains : ∀ a b, g.adjacent a b → g.contains a ∧ g.contains b
  hyperedge_contains : ∀ d key, key ∈ g.hyperedges.members d → g.contains key
  carrier_contains : ∀ topic key, key ∈ g.carriers.members topic → g.contains key
  memories_nodup : g.memories.Nodup
  mem_memories : ∀ key, key ∈ g.memories ↔ ∃ n, g.node? key = some n ∧ n.kind = .memory

/-- The parts of a graph agree, up to keys that are pending. -/
structure Sound (pending : Set String) (g : MemoryGraph α) : Prop extends g.Undirected where
  edge_known : ∀ a b, g.adjacent a b → g.contains a ∨ a ∈ pending
  hyperedge : ∀ d key, key ∈ g.hyperedges.members d → IsPath key ∧ (g.contains key ∨ key ∈ pending)
  carrier : ∀ topic key, key ∈ g.carriers.members topic → IsPath key ∧ (g.contains key ∨ key ∈ pending)
  memories_nodup : g.memories.Nodup
  mem_memories : ∀ key, key ∈ g.memories ↔ g.contains key ∧ IsMemory key
  kind_iff : ∀ key n, g.node? key = some n → (n.kind = .memory ↔ IsMemory key)

/-- There are no more edges than pairs of nodes. -/
theorem WellFormed.edgeCount_le {g : MemoryGraph α} (h : g.WellFormed) :
    g.edgeCount ≤ g.nodeCount * (g.nodeCount - 1) / 2 := by
  have hpairs : g.edges ⊆ ↑(g.nodes.keys.toFinset.offDiag.image (Function.uncurry Sym2.mk)) := by
    rintro e ⟨a, b, rfl, hab⟩
    have hne : a ≠ b := by
      rintro rfl
      exact h.irreflexive a hab
    obtain ⟨ha, hb⟩ := h.edge_contains a b hab
    refine Finset.mem_coe.2 (Finset.mem_image.2 ⟨(a, b), ?_, rfl⟩)
    simp only [Finset.mem_offDiag, List.mem_toFinset, ExtTreeMap.mem_keys]
    exact ⟨ha, hb, hne⟩
  have hcard : g.nodes.keys.toFinset.card = g.nodeCount := by
    rw [List.toFinset_card_of_nodup ExtTreeMap.nodup_keys, ExtTreeMap.length_keys, nodeCount]
  have hle := Set.encard_le_encard hpairs
  rw [Set.encard_coe_eq_coe_finsetCard, Sym2.card_image_offDiag, hcard, Nat.choose_two_right,
    h.encard_edges] at hle
  exact_mod_cast hle

variable {pending : Set String}

theorem Sound.wellFormed {g : MemoryGraph α} (h : g.Sound ∅) : g.WellFormed where
  toUndirected := h.toUndirected
  edge_contains a b hab :=
    ⟨(h.edge_known a b hab).resolve_right id, (h.edge_known b a (h.symmetric a b hab)).resolve_right id⟩
  hyperedge_contains d key hkey := (h.hyperedge d key hkey).2.resolve_right id
  carrier_contains topic key hkey := (h.carrier topic key hkey).2.resolve_right id
  memories_nodup := h.memories_nodup
  mem_memories key := by
    rw [h.mem_memories, contains_iff]
    constructor
    · rintro ⟨⟨n, hn⟩, hkey⟩
      exact ⟨n, hn, (h.kind_iff key n hn).2 hkey⟩
    · rintro ⟨n, hn, hkind⟩
      exact ⟨⟨n, hn⟩, (h.kind_iff key n hn).1 hkind⟩

theorem sound_empty (settings : GraphSettings) : (empty settings : MemoryGraph α).Sound ∅ where
  toUndirected := undirected_empty settings
  edge_known a b hab := by
    rw [adjacent_iff] at hab
    simp [empty] at hab
  hyperedge d key hkey := by simp [empty] at hkey
  carrier topic key hkey := by simp [empty] at hkey
  memories_nodup := List.nodup_nil
  mem_memories key := by simp [empty, contains]
  kind_iff key n hn := by simp [empty, node?] at hn

/-- A key that has been met need not be pending any longer. -/
theorem Sound.mono {g : MemoryGraph α} {pending' : Set String} (h : g.Sound pending)
    (hpending : ∀ key ∈ pending, g.contains key ∨ key ∈ pending') : g.Sound pending' := by
  have hknown : ∀ key, g.contains key ∨ key ∈ pending → g.contains key ∨ key ∈ pending' := by
    rintro key (hkey | hkey)
    · exact .inl hkey
    · exact hpending key hkey
  exact { h with
    edge_known := fun a b hab => hknown a (h.edge_known a b hab)
    hyperedge := fun d key hkey => (h.hyperedge d key hkey).imp_right (hknown key)
    carrier := fun topic key hkey => (h.carrier topic key hkey).imp_right (hknown key) }

/-! ### Steps -/

/-- Meeting a node whose kind goes with its key is sound with any list of memories that fits. -/
private theorem Sound.meet_with {w : Growing α} (h : w.graph.Sound pending) {key : String}
    {n : MemoryNode α} {memories : List String} (hkey : n.kind = .memory ↔ IsMemory key)
    (hnodup : memories.Nodup)
    (hmem : ∀ k, k ∈ memories ↔ (k = key ∨ w.graph.contains k) ∧ IsMemory k) :
    ({ (w.meet key n).graph with memories } : MemoryGraph α).Sound pending := by
  have hkept : ∀ k, w.graph.contains k ∨ k ∈ pending →
      (w.meet key n).graph.contains k ∨ k ∈ pending := by
    intro k hk
    rw [Growing.contains_meet]
    exact hk.imp_left .inr
  refine ⟨?_, ?_, ?_, ?_, hnodup, ?_, ?_⟩
  · exact h.toUndirected.congr (by rw [Growing.graph_meet]) (by rw [Growing.graph_meet])
  · intro a b hab
    refine hkept a (h.edge_known a b ?_)
    rwa [Growing.graph_meet] at hab
  · intro d k hk
    rw [Growing.graph_meet] at hk
    exact (h.hyperedge d k hk).imp_right (hkept k)
  · intro topic k hk
    rw [Growing.graph_meet] at hk
    exact (h.carrier topic k hk).imp_right (hkept k)
  · intro k
    exact (hmem k).trans (and_congr_left' (Growing.contains_meet w key n k).symm)
  · intro k m (hm : (w.meet key n).graph.node? k = some m)
    rw [Growing.node?_meet] at hm
    split at hm
    · rename_i hk
      subst hk
      cases hm
      cases hold : w.graph.node? key with
      | none => exact hkey
      | some old => exact h.kind_iff key old hold
    · exact h.kind_iff k m hm

theorem Sound.meet {w : Growing α} (h : w.graph.Sound pending) {key : String} {n : MemoryNode α}
    (hkey : ¬IsMemory key) (hn : n.kind ≠ .memory) : (w.meet key n).graph.Sound pending := by
  have hgraph : ({ (w.meet key n).graph with memories := w.graph.memories } : MemoryGraph α)
      = (w.meet key n).graph := by
    rw [Growing.graph_meet]
  rw [← hgraph]
  refine h.meet_with (iff_of_false hn hkey) h.memories_nodup ?_
  intro k
  rw [h.mem_memories, or_and_right]
  constructor
  · exact .inr
  · rintro (⟨rfl, hk⟩ | hk)
    · exact absurd hk hkey
    · exact hk

theorem Sound.meetMemory {w : Growing α} (h : w.graph.Sound pending) {key : String} {n : MemoryNode α}
    (hkey : IsMemory key) (hn : n.kind = .memory) : (w.meetMemory key n).graph.Sound pending := by
  refine h.meet_with (iff_of_true hn hkey) ?_ ?_
  · split
    · exact h.memories_nodup
    · rename_i hnew
      refine List.nodup_append.2 ⟨h.memories_nodup, List.nodup_singleton key, ?_⟩
      intro k hk k' hk' he
      rw [List.mem_singleton] at hk'
      rw [he, hk'] at hk
      exact hnew ((h.mem_memories key).1 hk).1
  · intro k
    split
    · -- a memory that is met again keeps its place
      rename_i hold
      rw [h.mem_memories]
      apply and_congr_left'
      constructor
      · exact .inr
      · rintro (rfl | hk)
        · exact hold
        · exact hk
    · rw [List.mem_append, List.mem_singleton, h.mem_memories, or_and_right, or_comm]
      apply or_congr_left
      constructor
      · rintro rfl
        exact ⟨rfl, hkey⟩
      · exact And.left

theorem Sound.join {w : Growing α} (h : w.graph.Sound pending) {a b : String}
    (ha : w.graph.contains a ∨ a ∈ pending) (hb : w.graph.contains b ∨ b ∈ pending) :
    (w.join a b).graph.Sound pending := by
  refine ⟨h.toUndirected.join a b, ?_, ?_, ?_, ?_, ?_, ?_⟩
  · intro x y hxy
    rw [Growing.adjacent_join h.symmetric] at hxy
    rw [Growing.contains_join]
    rcases hxy with hxy | ⟨-, ⟨rfl, -⟩ | ⟨rfl, -⟩⟩
    · exact h.edge_known x y hxy
    · exact ha
    · exact hb
  · simpa using h.hyperedge
  · simpa using h.carrier
  · simpa using h.memories_nodup
  · simpa using h.mem_memories
  · simpa using h.kind_iff

theorem Sound.joinAncestor {w : Growing α} (h : w.graph.Sound pending) {a b : String}
    (ha : w.graph.contains a ∨ a ∈ pending) (hb : w.graph.contains b ∨ b ∈ pending) :
    (w.joinAncestor a b).graph.Sound pending := by
  rcases Growing.joinAncestor_cases w a b with hw | hw
  · rw [hw]
    exact h.join ha hb
  · rw [hw]
    exact h

theorem Sound.carry {w : Growing α} (h : w.graph.Sound pending) {key : String}
    (hkey : IsPath key) (hpending : key ∈ pending) (topics : ExtTreeSet String) :
    (w.carry key topics).graph.Sound pending :=
  { h with
    toUndirected := h.toUndirected.congr rfl rfl
    carrier := fun topic k hk => by
      rcases Growing.mem_carriers_carry.1 hk with ⟨-, rfl⟩ | hk
      · exact ⟨hkey, .inr hpending⟩
      · exact h.carrier topic k hk }

theorem Sound.gather {w : Growing α} (h : w.graph.Sound pending) {key : String}
    (hkey : IsPath key) (hpending : key ∈ pending) (directory : String) :
    (w.gather directory key).graph.Sound pending :=
  { h with
    toUndirected := h.toUndirected.congr rfl rfl
    hyperedge := fun d k hk => by
      rcases KeySets.mem_members_enroll.1 hk with ⟨-, rfl⟩ | hk
      · exact ⟨hkey, .inr hpending⟩
      · exact h.hyperedge d k hk }

/-! ### Folding -/

/-- The keys that a plan names. -/
def named (plan : FoldPlan α) : Set String :=
  {key | key ∈ plan.directories ∨ ∃ f ∈ plan.files, f.key = key}

theorem Sound.addFile {w : Growing α} {plan : FoldPlan α} (hplan : plan.Closed)
    (h : w.graph.Sound (named plan)) {f : PlannedFile α} (hf : f ∈ plan.files) :
    (w.addFile f).graph.Sound (named plan) := by
  have hpath := hplan.file_path f hf
  have hkey : f.key ∈ named plan := .inr ⟨f, hf, rfl⟩
  have hdirectory : f.directory ∈ named plan := .inl (hplan.file_directory_mem f hf)
  have hmeet := (h.carry hpath hkey f.topics).meet (not_isMemory_of_isPath hpath)
    (n := MemoryNode.ofFile f) (by simp [MemoryNode.ofFile])
  exact (hmeet.joinAncestor (.inr hkey) (.inr hdirectory)).gather hpath hkey f.directory

theorem Sound.joinPartners {w : Growing α} (h : w.graph.Sound pending) {f : PlannedFile α}
    (hf : f.key ∈ pending) : (w.joinPartners f).graph.Sound pending := by
  have hkept : (w.joinPartners f).graph.Sound pending ∧
      ∀ k, (w.joinPartners f).graph.contains k = w.graph.contains k := by
    refine List.foldlRecOn (motive := fun w' : Growing α => w'.graph.Sound pending ∧
      ∀ k, w'.graph.contains k = w.graph.contains k) _ _ ⟨h, fun _ => rfl⟩ ?_
    rintro w' ⟨h', hw'⟩ other hother
    obtain ⟨topic, htopic⟩ := exists_carrier_of_mem_partners hother
    refine ⟨h'.join (.inr hf) ?_, fun k => ?_⟩
    · rw [hw']
      exact (h.carrier topic other htopic).2
    · rw [Growing.contains_join, hw']
  exact hkept.1

/-! ### Dropping memories -/

theorem Sound.dropOldest {g : MemoryGraph α} (h : g.Sound ∅) : g.dropOldest.Sound ∅ := by
  unfold MemoryGraph.dropOldest
  split
  · exact h
  · rename_i oldest rest hmemories
    have hnodup := h.memories_nodup
    have hmem := h.mem_memories
    rw [hmemories] at hnodup hmem
    rw [List.nodup_cons] at hnodup
    have holdest : IsMemory oldest := ((hmem oldest).1 List.mem_cons_self).2
    -- paths are not memories, so what hyperedges and carriers name is left
    have hpath : ∀ key, IsPath key ∧ (g.contains key ∨ key ∈ (∅ : Set String)) → IsPath key ∧
        ((({ g with memories := rest } : MemoryGraph α).remove oldest).contains key ∨
          key ∈ (∅ : Set String)) := by
      rintro key ⟨hkey, hcontains⟩
      refine ⟨hkey, hcontains.imp_left fun hc => ?_⟩
      rw [contains_remove]
      refine ⟨?_, hc⟩
      rintro rfl
      exact not_isMemory_of_isPath hkey holdest
    have hstart : ({ g with memories := rest } : MemoryGraph α).Undirected :=
      h.toUndirected.congr rfl rfl
    refine ⟨hstart.remove oldest, ?_, ?_, ?_, ?_, ?_, ?_⟩
    · intro a b hab
      obtain ⟨ha, -, hab⟩ := (adjacent_remove hstart.symmetric oldest a b).1 hab
      rw [contains_remove]
      exact (h.edge_known a b hab).imp_left fun hc => ⟨ha, hc⟩
    · intro d key hkey
      rw [hyperedges_remove] at hkey
      exact hpath key (h.hyperedge d key hkey)
    · intro topic key hkey
      rw [carriers_remove] at hkey
      exact hpath key (h.carrier topic key hkey)
    · rw [memories_remove]
      exact hnodup.2
    · intro key
      rw [memories_remove, contains_remove]
      constructor
      · intro hkey
        obtain ⟨hc, hm⟩ := (hmem key).1 (List.mem_cons_of_mem _ hkey)
        refine ⟨⟨?_, hc⟩, hm⟩
        rintro rfl
        exact hnodup.1 hkey
      · rintro ⟨⟨hne, hc⟩, hm⟩
        exact List.mem_of_ne_of_mem hne ((hmem key).2 ⟨hc, hm⟩)
    · intro key n hn
      rw [node?_remove] at hn
      split at hn
      · contradiction
      · exact h.kind_iff key n hn

/-- Every stage of eviction is sound. -/
theorem Sound.repeat_dropOldest {g : MemoryGraph α} (h : g.Sound ∅) (n : Nat) :
    (Nat.repeat MemoryGraph.dropOldest n g).Sound ∅ := by
  induction n with
  | zero => exact h
  | succ n ih => exact ih.dropOldest

theorem memories_dropOldest (g : MemoryGraph α) : g.dropOldest.memories = g.memories.tail := by
  unfold dropOldest
  split
  · simp [*]
  · simp [*]

theorem memories_repeat_dropOldest (g : MemoryGraph α) (n : Nat) :
    (Nat.repeat dropOldest n g).memories = g.memories.drop n := by
  induction n with
  | zero => rfl
  | succ n ih =>
    rw [Nat.repeat, memories_dropOldest, ih, List.tail_drop]

/-- Eviction leaves no more memories than there is capacity for. -/
theorem length_memories_evict_le (g : MemoryGraph α) :
    g.evict.memories.length ≤ g.settings.memoryCapacity := by
  rw [evict, memories_repeat_dropOldest, List.length_drop]
  omega

variable [Scalar α]

theorem Sound.addDirectory {w : Growing α} {plan : FoldPlan α} (hplan : plan.Closed)
    (h : w.graph.Sound (named plan)) {d : String} {parent : Option String}
    (hd : plan.directories[d]? = some parent) : (w.addDirectory (d, parent)).graph.Sound (named plan) := by
  have hmeet := h.meet (n := MemoryNode.ofDirectory parent)
    (not_isMemory_of_isPath (hplan.directory_path hd)) (by simp [MemoryNode.ofDirectory])
  rcases Growing.addDirectory_cases w (d, parent) with ⟨-, hw⟩ | ⟨above, habove, hw⟩
  · rw [hw]
    exact hmeet
  · rw [hw]
    obtain rfl : parent = some above := habove
    exact hmeet.joinAncestor (.inr (.inl (FoldPlan.mem_of_getElem? hd)))
      (.inr (.inl (hplan.parent_mem d above hd)))

/-- A fold meets all that it leaves pending on its way. -/
theorem Sound.fold {g : MemoryGraph α} (h : g.Sound ∅) {plan : FoldPlan α} (hplan : plan.Closed) :
    (g.fold plan).graph.Sound ∅ := by
  have hall : (g.fold plan).graph.Sound (named plan) := by
    have hstart : g.Sound (named plan) := h.mono (fun _ hkey => absurd hkey id)
    have hentered : (g.enter plan).graph.Sound (named plan) :=
      enter_induction (P := fun w => w.graph.Sound (named plan)) hstart
        (fun _ _ _ hd hw => hw.addDirectory hplan hd) (fun _ _ hf hw => hw.addFile hplan hf)
    exact Growing.joinTopics_induction (P := fun w => w.graph.Sound (named plan)) hentered
      fun _ f hf hw => hw.joinPartners (.inr ⟨f, hf, rfl⟩)
  have hremembers := remembers_fold g hplan
  refine hall.mono ?_
  rintro key (hkey | ⟨f, hf, rfl⟩)
  · obtain ⟨parent, hparent⟩ := Option.isSome_iff_exists.1 (ExtTreeMap.mem_iff_isSome_getElem?.1 hkey)
    exact .inl (hremembers.directory key parent hparent).contains
  · obtain ⟨n, hn, -⟩ := (hremembers.file f hf).node
    exact .inl (contains_iff.2 ⟨n, hn⟩)

/-! ### Recording -/

theorem Sound.meet_hub {g : MemoryGraph α} (h : g.Sound ∅) (agent : AgentId) :
    (Growing.meet ⟨g, .none⟩ (hubKey agent) .hub).graph.Sound ∅ :=
  Sound.meet h (not_isMemory_hubKey agent) (by simp [MemoryNode.hub])

theorem Sound.remember {g : MemoryGraph α} (h : g.Sound ∅) (agent : AgentId) (task summary : String) :
    (g.remember agent task summary).graph.Sound ∅ := by
  refine ((h.meet_hub agent).meetMemory (n := .ofMemory _ _) ⟨agent, task, rfl⟩ rfl).join ?_ ?_
  · rw [Growing.contains_meetMemory]
    exact .inl (.inl rfl)
  · rw [Growing.contains_meetMemory, Growing.contains_meet]
    exact .inl (.inr (.inl rfl))

theorem Sound.record {g : MemoryGraph α} (h : g.Sound ∅) (agent : AgentId) (task summary : String) :
    (g.record agent task summary).graph.Sound ∅ :=
  (h.remember agent task summary).repeat_dropOldest _

end MemoryGraph

end EchoEngine
