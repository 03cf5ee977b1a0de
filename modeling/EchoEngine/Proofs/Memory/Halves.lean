import EchoEngine.Proofs.Memory.EdgeOrigins

/-!
# The two halves of a graph

A graph has two halves: what it holds about files and directories, whose keys are paths, and what it
holds about hubs and memories, whose keys are not.  What a step does at its own keys is a matter of what
the graph holds at these keys, and elsewhere it does nothing.  So what a fold does to files, and how much
it creates, depends on the files alone (`SameFiles.fold`), and what a recording does to hubs and
memories, evictions included, on these alone (`SameMemories.record`).
-/

namespace EchoEngine

open Std (ExtTreeMap ExtTreeSet)

variable {α : Type}

/-- The half of files and directories. -/
def paths : Set String :=
  {key | IsPath key}

namespace MemoryGraph

/-- What is noted of the edges of a key. -/
def noted (g : MemoryGraph α) (key : String) : Option (ExtTreeSet String) :=
  g.adjacency[key]?

/-- Two graphs hold the same at the keys of a half. -/
structure AgreeOn (half : Set String) (g g' : MemoryGraph α) : Prop where
  settings : g'.settings = g.settings
  node : ∀ key ∈ half, g'.node? key = g.node? key
  noted : ∀ key ∈ half, g'.noted key = g.noted key

variable {half : Set String}

theorem AgreeOn.refl (g : MemoryGraph α) : AgreeOn half g g :=
  ⟨rfl, fun _ _ => rfl, fun _ _ => rfl⟩

theorem AgreeOn.symm {g g' : MemoryGraph α} (h : AgreeOn half g g') : AgreeOn half g' g :=
  ⟨h.settings.symm, fun key hkey => (h.node key hkey).symm, fun key hkey => (h.noted key hkey).symm⟩

theorem AgreeOn.trans {g g' g'' : MemoryGraph α} (h : AgreeOn half g g') (h' : AgreeOn half g' g'') :
    AgreeOn half g g'' where
  settings := h'.settings.trans h.settings
  node key hkey := (h'.node key hkey).trans (h.node key hkey)
  noted key hkey := (h'.noted key hkey).trans (h.noted key hkey)

section

variable {g g' : MemoryGraph α}

theorem AgreeOn.contains (h : AgreeOn half g g') {key : String} (hkey : key ∈ half) :
    g'.contains key = g.contains key := by
  rw [Bool.eq_iff_iff, contains_iff, contains_iff, h.node key hkey]

theorem AgreeOn.members (h : AgreeOn half g g') {key : String} (hkey : key ∈ half) :
    g'.adjacency.members key = g.adjacency.members key :=
  congrArg (·.getD ∅) (h.noted key hkey)

theorem AgreeOn.adjacent (h : AgreeOn half g g') {a : String} (ha : a ∈ half) (b : String) :
    g'.adjacent a b = g.adjacent a b := by
  rw [MemoryGraph.adjacent, h.members ha, MemoryGraph.adjacent]

end

/-! ### Steps outside of a half -/

theorem agreeOn_meet (w : Growing α) {key : String} (hkey : key ∉ half) (n : MemoryNode α) :
    AgreeOn half w.graph (w.meet key n).graph where
  settings := by rw [Growing.graph_meet]
  node k hk := by
    rw [Growing.node?_meet, if_neg]
    rintro rfl
    exact hkey hk
  noted k _ := by
    rw [Growing.graph_meet]
    rfl

theorem agreeOn_join (w : Growing α) {a b : String} (ha : a ∉ half) (hb : b ∉ half) :
    AgreeOn half w.graph (w.join a b).graph where
  settings := Growing.settings_join w a b
  node k _ := Growing.node?_join w a b k
  noted k hk := by
    have hka : a ≠ k := fun h => ha (h ▸ hk)
    have hkb : b ≠ k := fun h => hb (h ▸ hk)
    rw [Growing.graph_join]
    split
    · rfl
    · simp only [MemoryGraph.noted, KeySets.getElem?_enroll, if_neg hka, if_neg hkb]

/-- Removing a node changes what is noted at its neighbors and nowhere else. -/
theorem agreeOn_remove {g : MemoryGraph α} {key : String} (hkey : key ∉ half)
    (hneighbors : ∀ other, g.adjacent key other → other ∉ half) : AgreeOn half g (g.remove key) where
  settings := settings_remove g key
  node k hk := by
    rw [node?_remove, if_neg]
    rintro rfl
    exact hkey hk
  noted k hk := by
    rw [remove_eq]
    refine List.foldlRecOn (motive := fun sets : KeySets => sets[k]? = g.noted k) _ _ ?_ ?_
    · rw [ExtTreeMap.getElem?_erase, if_neg]
      · rfl
      · rw [Std.compare_eq_iff_eq]
        rintro rfl
        exact hkey hk
    · intro sets hsets other hother
      rw [KeySets.getElem?_withdraw, if_neg, hsets]
      rintro rfl
      exact hneighbors other (mem_neighbors.1 hother) hk

end MemoryGraph

/-! ### Steps within a half -/

namespace Growing

open MemoryGraph

/-- Two graphs that hold the same at the keys of a half have grown by the same. -/
structure Alike (half : Set String) (w v : Growing α) : Prop extends AgreeOn half w.graph v.graph where
  created : v.created = w.created

variable {half : Set String} {w v : Growing α}

theorem Alike.meet (h : Alike half w v) {key : String} (hkey : key ∈ half) (n : MemoryNode α) :
    Alike half (w.meet key n) (v.meet key n) where
  settings := by
    rw [graph_meet, graph_meet]
    exact h.settings
  node k hk := by rw [node?_meet, node?_meet, h.node key hkey, h.node k hk]
  noted k hk := by
    rw [graph_meet, graph_meet]
    exact h.noted k hk
  created := by rw [created_meet, created_meet, h.contains hkey, h.created]

theorem Alike.join (h : Alike half w v) {a b : String} (ha : a ∈ half) (hb : b ∈ half) :
    Alike half (w.join a b) (v.join a b) := by
  have hadjacent := h.adjacent ha b
  unfold Growing.join
  rw [hadjacent]
  split
  · exact h
  · refine ⟨⟨h.settings, h.node, fun k hk => ?_⟩, congrArg (· + ⟨0, 1⟩) h.created⟩
    have hmembers : ∀ g : MemoryGraph α, (g.adjacency.enroll a b).members b
        = if a = b then (g.adjacency.members a).insert b else g.adjacency.members b :=
      fun g => KeySets.members_enroll _ a b b
    have hnoted : v.graph.adjacency[k]? = w.graph.adjacency[k]? := h.noted k hk
    simp only [MemoryGraph.noted, KeySets.getElem?_enroll, hmembers, h.members ha, h.members hb, hnoted]

end Growing

namespace MemoryGraph

variable {half : Set String}

theorem AgreeOn.remove {g g' : MemoryGraph α} (h : AgreeOn half g g') {key : String} (hkey : key ∈ half) :
    AgreeOn half (g.remove key) (g'.remove key) where
  settings := by rw [settings_remove, settings_remove, h.settings]
  node k hk := by rw [node?_remove, node?_remove, h.node k hk]
  noted k hk := by
    have hneighbors : g'.neighbors key = g.neighbors key := congrArg ExtTreeSet.toList (h.members hkey)
    rw [remove_eq, remove_eq, hneighbors]
    refine List.foldl_rel (r := fun sets sets' : KeySets => sets[k]? = sets'[k]?) ?_ ?_
    · have hnoted : g'.adjacency[k]? = g.adjacency[k]? := h.noted k hk
      rw [ExtTreeMap.getElem?_erase, ExtTreeMap.getElem?_erase, hnoted]
    · intro other _ sets sets' hsets
      rw [KeySets.getElem?_withdraw, KeySets.getElem?_withdraw]
      split
      · rename_i hother
        rw [hother, hsets]
      · exact hsets

/-! ### Files -/

/-- Two graphs hold the same about files and directories. -/
structure SameFiles (g g' : MemoryGraph α) : Prop extends AgreeOn paths g g' where
  hyperedges : g'.hyperedges = g.hyperedges
  carriers : g'.carriers = g.carriers

theorem SameFiles.symm {g g' : MemoryGraph α} (h : g.SameFiles g') : g'.SameFiles g :=
  ⟨h.toAgreeOn.symm, h.hyperedges.symm, h.carriers.symm⟩

theorem SameFiles.trans {g g' g'' : MemoryGraph α} (h : g.SameFiles g') (h' : g'.SameFiles g'') :
    g.SameFiles g'' :=
  ⟨h.toAgreeOn.trans h'.toAgreeOn, h'.hyperedges.trans h.hyperedges, h'.carriers.trans h.carriers⟩

/-- The partners of a file are a matter of its topics and of what carries them. -/
theorem SameFiles.partners {g g' : MemoryGraph α} (h : g.SameFiles g') {key : String} (hkey : IsPath key) :
    g'.partners key = g.partners key := by
  have hsharers : g'.sharers key = g.sharers key := by
    funext topic
    rw [sharers, sharers, h.carriers, h.settings]
  rw [MemoryGraph.partners, MemoryGraph.partners, h.node key hkey, hsharers, h.settings]

end MemoryGraph

namespace Growing

open MemoryGraph

/-- Two graphs that hold the same about files have grown by the same. -/
structure AlikeFiles (w v : Growing α) : Prop extends SameFiles w.graph v.graph where
  created : v.created = w.created

variable {w v : Growing α}

theorem AlikeFiles.alike (h : w.AlikeFiles v) : w.Alike paths v :=
  ⟨h.toAgreeOn, h.created⟩

theorem AlikeFiles.meet (h : w.AlikeFiles v) {key : String} (hkey : IsPath key) (n : MemoryNode α) :
    (w.meet key n).AlikeFiles (v.meet key n) := by
  have halike := h.alike.meet hkey n
  refine ⟨⟨halike.toAgreeOn, ?_, ?_⟩, halike.created⟩
  · rw [graph_meet, graph_meet]
    exact h.hyperedges
  · rw [graph_meet, graph_meet]
    exact h.carriers

theorem AlikeFiles.join (h : w.AlikeFiles v) {a b : String} (ha : IsPath a) (hb : IsPath b) :
    (w.join a b).AlikeFiles (v.join a b) := by
  have halike := h.alike.join ha hb
  refine ⟨⟨halike.toAgreeOn, ?_, ?_⟩, halike.created⟩
  · rw [hyperedges_join, hyperedges_join, h.hyperedges]
  · rw [carriers_join, carriers_join, h.carriers]

theorem AlikeFiles.joinAncestor (h : w.AlikeFiles v) {a b : String} (ha : IsPath a) (hb : IsPath b) :
    (w.joinAncestor a b).AlikeFiles (v.joinAncestor a b) := by
  unfold Growing.joinAncestor
  rw [h.settings]
  split
  · exact h.join ha hb
  · exact h

theorem AlikeFiles.carry (h : w.AlikeFiles v) (key : String) (topics : ExtTreeSet String) :
    (w.carry key topics).AlikeFiles (v.carry key topics) := by
  refine ⟨⟨⟨h.settings, h.node, h.noted⟩, h.hyperedges, ?_⟩, h.created⟩
  unfold Growing.carry
  dsimp only
  rw [h.carriers]

theorem AlikeFiles.gather (h : w.AlikeFiles v) (directory key : String) :
    (w.gather directory key).AlikeFiles (v.gather directory key) :=
  ⟨⟨⟨h.settings, h.node, h.noted⟩, congrArg (·.enroll directory key) h.hyperedges, h.carriers⟩, h.created⟩

theorem AlikeFiles.addFile (h : w.AlikeFiles v) {f : PlannedFile α} (hf : IsPath f.key)
    (hd : IsPath f.directory) : (w.addFile f).AlikeFiles (v.addFile f) :=
  (((h.carry f.key f.topics).meet hf (.ofFile f)).joinAncestor hf hd).gather f.directory f.key

theorem AlikeFiles.joinPartners (h : w.AlikeFiles v) (hcarry : w.graph.PathsCarry) {f : PlannedFile α}
    (hf : IsPath f.key) : (w.joinPartners f).AlikeFiles (v.joinPartners f) := by
  unfold Growing.joinPartners
  rw [h.partners hf]
  refine List.foldl_rel h fun other hother w' v' h' => h'.join hf ?_
  obtain ⟨topic, htopic⟩ := exists_carrier_of_mem_partners hother
  exact hcarry topic other htopic

theorem AlikeFiles.joinTopics (h : w.AlikeFiles v) (hcarry : w.graph.PathsCarry)
    {files : List (PlannedFile α)} (hfiles : ∀ f ∈ files, IsPath f.key) :
    (w.joinTopics files).AlikeFiles (v.joinTopics files) := by
  unfold Growing.joinTopics
  rw [h.settings]
  split
  · -- joining keeps what carries topics
    have hjoined : (files.foldl Growing.joinPartners w).AlikeFiles (files.foldl Growing.joinPartners v) ∧
        (files.foldl Growing.joinPartners w).graph.PathsCarry := by
      refine List.foldl_rel (r := fun w' v' : Growing α => w'.AlikeFiles v' ∧ w'.graph.PathsCarry)
        ⟨h, hcarry⟩ ?_
      rintro f hf w' v' ⟨h', hcarry'⟩
      refine ⟨h'.joinPartners hcarry' (hfiles f hf), ?_⟩
      rwa [PathsCarry, (rewired_joinPartners w' f).carriers]
    exact hjoined.1
  · exact h

theorem AlikeFiles.addDirectory [Scalar α] (h : w.AlikeFiles v) {d : String × Option String}
    (hd : IsPath d.1) (hparent : ∀ parent, d.2 = some parent → IsPath parent) :
    (w.addDirectory d).AlikeFiles (v.addDirectory d) := by
  have hmeet := h.meet hd (.ofDirectory d.2)
  unfold Growing.addDirectory
  dsimp only
  split
  · exact hmeet.joinAncestor hd (hparent _ ‹_›)
  · exact hmeet

end Growing

namespace MemoryGraph

variable [Scalar α]

theorem SameFiles.enter {g g' : MemoryGraph α} (h : g.SameFiles g') {plan : FoldPlan α}
    (hplan : plan.Closed) : (g.enter plan).AlikeFiles (g'.enter plan) := by
  have hstart : (⟨g, .none⟩ : Growing α).AlikeFiles ⟨g', .none⟩ := ⟨h, rfl⟩
  have hdirectories : (Growing.addDirectories ⟨g, .none⟩ plan.directories).AlikeFiles
      (Growing.addDirectories ⟨g', .none⟩ plan.directories) := by
    refine List.foldl_rel hstart fun d hd w v hw => ?_
    have hget := ExtTreeMap.mem_toList_iff_getElem?_eq_some.1 hd
    exact hw.addDirectory (hplan.directory_path hget) fun parent hp =>
      hplan.parent_path (hget.trans (congrArg some hp))
  exact List.foldl_rel hdirectories fun f hf w v hw =>
    hw.addFile (hplan.file_path f hf) (hplan.file_directory_path hf)

theorem pathsCarry_enter {g : MemoryGraph α} (h : g.Sound ∅) {plan : FoldPlan α} (hplan : plan.Closed) :
    (g.enter plan).graph.PathsCarry := by
  intro topic key hkey
  have hrewired : (g.enter plan).graph.Rewired (g.fold plan).graph := rewired_joinTopics _ _
  rw [← hrewired.carriers] at hkey
  exact ((h.fold hplan).carrier topic key hkey).1

/-- What a fold adds to files, and how much it creates, is a matter of the files alone. -/
theorem SameFiles.fold {g g' : MemoryGraph α} (h : g.SameFiles g') (hsound : g.Sound ∅) {plan : FoldPlan α}
    (hplan : plan.Closed) : (g.fold plan).AlikeFiles (g'.fold plan) :=
  (h.enter hplan).joinTopics (pathsCarry_enter hsound hplan) hplan.file_path

end MemoryGraph

/-! ### Memories -/

namespace MemoryGraph

/-- Two graphs hold the same about hubs and memories. -/
structure SameMemories (g g' : MemoryGraph α) : Prop extends AgreeOn pathsᶜ g g' where
  memories : g'.memories = g.memories

theorem SameMemories.refl (g : MemoryGraph α) : g.SameMemories g :=
  ⟨.refl g, rfl⟩

theorem SameMemories.symm {g g' : MemoryGraph α} (h : g.SameMemories g') : g'.SameMemories g :=
  ⟨h.toAgreeOn.symm, h.memories.symm⟩

theorem SameMemories.trans {g g' g'' : MemoryGraph α} (h : g.SameMemories g') (h' : g'.SameMemories g'') :
    g.SameMemories g'' :=
  ⟨h.toAgreeOn.trans h'.toAgreeOn, h'.memories.trans h.memories⟩

theorem Sound.not_isPath_of_mem_memories {g : MemoryGraph α} {pending : Set String} (h : g.Sound pending)
    {key : String} (hkey : key ∈ g.memories) : ¬IsPath key :=
  fun hpath => not_isMemory_of_isPath hpath ((h.mem_memories key).1 hkey).2

theorem SameMemories.dropOldest {g g' : MemoryGraph α} (h : g.SameMemories g')
    (hsound : g.Sound ∅) : g.dropOldest.SameMemories g'.dropOldest := by
  unfold MemoryGraph.dropOldest
  rw [h.memories]
  split
  · exact h
  · rename_i oldest rest hcons
    have hrest : ({ g with memories := rest } : MemoryGraph α).SameMemories { g' with memories := rest } :=
      ⟨⟨h.settings, h.node, h.noted⟩, rfl⟩
    have holdest : oldest ∈ pathsᶜ :=
      hsound.not_isPath_of_mem_memories (by rw [hcons]; exact List.mem_cons_self)
    refine ⟨hrest.toAgreeOn.remove holdest, ?_⟩
    rw [memories_remove, memories_remove]

theorem SameMemories.repeat_dropOldest {g g' : MemoryGraph α} (h : g.SameMemories g') (hsound : g.Sound ∅)
    (n : Nat) :
    (Nat.repeat MemoryGraph.dropOldest n g).SameMemories (Nat.repeat MemoryGraph.dropOldest n g') := by
  induction n with
  | zero => exact h
  | succ n ih => exact ih.dropOldest (hsound.repeat_dropOldest n)

theorem SameMemories.evict {g g' : MemoryGraph α} (h : g.SameMemories g') (hsound : g.Sound ∅) :
    g.evict.SameMemories g'.evict := by
  unfold MemoryGraph.evict
  rw [h.memories, h.settings]
  exact h.repeat_dropOldest hsound _

end MemoryGraph

namespace Growing

open MemoryGraph

/-- Two graphs that hold the same about hubs and memories have grown by the same. -/
structure AlikeMemories (w v : Growing α) : Prop extends SameMemories w.graph v.graph where
  created : v.created = w.created

variable {w v : Growing α} {key : String}

theorem AlikeMemories.meet (h : w.AlikeMemories v) (hkey : ¬IsPath key) (n : MemoryNode α) :
    (w.meet key n).AlikeMemories (v.meet key n) := by
  have halike := Alike.meet ⟨h.toAgreeOn, h.created⟩ hkey n
  refine ⟨⟨halike.toAgreeOn, ?_⟩, halike.created⟩
  rw [graph_meet, graph_meet]
  exact h.memories

theorem AlikeMemories.meetMemory (h : w.AlikeMemories v) (hkey : ¬IsPath key) (n : MemoryNode α) :
    (w.meetMemory key n).AlikeMemories (v.meetMemory key n) := by
  have hmeet := h.meet hkey n
  refine ⟨⟨⟨hmeet.settings, hmeet.node, hmeet.noted⟩, ?_⟩, hmeet.created⟩
  unfold Growing.meetMemory
  dsimp only
  rw [h.contains hkey, h.memories]

theorem AlikeMemories.join (h : w.AlikeMemories v) {a b : String} (ha : ¬IsPath a) (hb : ¬IsPath b) :
    (w.join a b).AlikeMemories (v.join a b) := by
  have halike := Alike.join ⟨h.toAgreeOn, h.created⟩ ha hb
  exact ⟨⟨halike.toAgreeOn, by rw [memories_join, memories_join, h.memories]⟩, halike.created⟩

end Growing

namespace MemoryGraph

variable [Scalar α]

theorem SameMemories.remember {g g' : MemoryGraph α} (h : g.SameMemories g') (agent : AgentId)
    (task summary : String) :
    (g.remember agent task summary).AlikeMemories (g'.remember agent task summary) := by
  have hstart : (⟨g, .none⟩ : Growing α).AlikeMemories ⟨g', .none⟩ := ⟨h, rfl⟩
  have hhub := not_isPath_hubKey agent
  have hkey := not_isPath_memoryKey agent task
  exact ((hstart.meet hhub .hub).meetMemory hkey _).join hkey hhub

/-- What a recording does to hubs and memories is a matter of these alone. -/
theorem SameMemories.record {g g' : MemoryGraph α} (h : g.SameMemories g') (hsound : g.Sound ∅)
    (agent : AgentId) (task summary : String) :
    (g.record agent task summary).AlikeMemories (g'.record agent task summary) :=
  have hremember := h.remember agent task summary
  ⟨hremember.toSameMemories.evict (hsound.remember agent task summary), hremember.created⟩

end MemoryGraph

end EchoEngine
