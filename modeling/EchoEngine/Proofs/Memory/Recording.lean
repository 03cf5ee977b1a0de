import EchoEngine.Proofs.Memory.WellFormed

/-!
# What recording leaves alone

Recording a memory meets a hub and a memory, joins them and drops other memories.  None of these keys
is a path, so everything that a graph holds about paths is the same afterwards (`sameOnPaths_record`).
-/

namespace EchoEngine

variable {α : Type}

namespace MemoryGraph

/-- Two graphs hold the same about paths. -/
structure SameOnPaths (g g' : MemoryGraph α) : Prop where
  settings : g'.settings = g.settings
  node : ∀ key, IsPath key → g'.node? key = g.node? key
  adjacent : ∀ a b, IsPath a → IsPath b → (g'.adjacent a b ↔ g.adjacent a b)
  hyperedges : g'.hyperedges = g.hyperedges
  carriers : g'.carriers = g.carriers

theorem SameOnPaths.refl (g : MemoryGraph α) : g.SameOnPaths g :=
  ⟨rfl, fun _ _ => rfl, fun _ _ _ _ => Iff.rfl, rfl, rfl⟩

theorem SameOnPaths.trans {g g' g'' : MemoryGraph α} (h : g.SameOnPaths g') (h' : g'.SameOnPaths g'') :
    g.SameOnPaths g'' where
  settings := h'.settings.trans h.settings
  node key hkey := (h'.node key hkey).trans (h.node key hkey)
  adjacent a b ha hb := (h'.adjacent a b ha hb).trans (h.adjacent a b ha hb)
  hyperedges := h'.hyperedges.trans h.hyperedges
  carriers := h'.carriers.trans h.carriers

theorem SameOnPaths.extends {g g' : MemoryGraph α} (h : g.SameOnPaths g') : g.Extends g' where
  settings := h.settings
  node key n hkey hn := ⟨n, (h.node key hkey).trans hn, fun _ ht => ht⟩
  adjacent a b ha hb hab := (h.adjacent a b ha hb).2 hab
  hyperedge d key hkey := by rwa [h.hyperedges]
  carrier topic key hkey := by rwa [h.carriers]

theorem sameOnPaths_meet (w : Growing α) {key : String} (hkey : ¬IsPath key) (n : MemoryNode α) :
    w.graph.SameOnPaths (w.meet key n).graph where
  settings := by rw [Growing.graph_meet]
  node k hk := by
    rw [Growing.node?_meet, if_neg]
    rintro rfl
    exact hkey hk
  adjacent a b _ _ := by
    rw [Growing.graph_meet]
    rfl
  hyperedges := by rw [Growing.graph_meet]
  carriers := by rw [Growing.graph_meet]

theorem sameOnPaths_meetMemory (w : Growing α) {key : String} (hkey : ¬IsPath key) (n : MemoryNode α) :
    w.graph.SameOnPaths (w.meetMemory key n).graph :=
  have h := sameOnPaths_meet w hkey n
  ⟨h.settings, h.node, h.adjacent, h.hyperedges, h.carriers⟩

theorem sameOnPaths_join {w : Growing α} (h : w.graph.Symmetric) {a : String} (ha : ¬IsPath a) (b : String) :
    w.graph.SameOnPaths (w.join a b).graph where
  settings := Growing.settings_join w a b
  node k _ := Growing.node?_join w a b k
  adjacent x y hx hy := by
    rw [Growing.adjacent_join h]
    refine or_iff_left ?_
    rintro ⟨-, ⟨rfl, -⟩ | ⟨-, rfl⟩⟩
    · exact ha hx
    · exact ha hy
  hyperedges := Growing.hyperedges_join w a b
  carriers := Growing.carriers_join w a b

theorem sameOnPaths_remove {g : MemoryGraph α} (h : g.Symmetric) {key : String} (hkey : ¬IsPath key) :
    g.SameOnPaths (g.remove key) where
  settings := settings_remove g key
  node k hk := by
    rw [node?_remove, if_neg]
    rintro rfl
    exact hkey hk
  adjacent x y hx hy := by
    rw [adjacent_remove h]
    constructor
    · rintro ⟨-, -, hxy⟩
      exact hxy
    · refine fun hxy => ⟨?_, ?_, hxy⟩
      · rintro rfl
        exact hkey hx
      · rintro rfl
        exact hkey hy
  hyperedges := hyperedges_remove g key
  carriers := carriers_remove g key

theorem sameOnPaths_dropOldest {g : MemoryGraph α} (h : g.Sound ∅) : g.SameOnPaths g.dropOldest := by
  unfold dropOldest
  split
  · exact .refl g
  · rename_i oldest rest hmemories
    have holdest : IsMemory oldest :=
      ((h.mem_memories oldest).1 (by rw [hmemories]; exact List.mem_cons_self)).2
    have hremove := sameOnPaths_remove (g := { g with memories := rest }) h.symmetric
      (fun hpath => not_isMemory_of_isPath hpath holdest)
    exact ⟨hremove.settings, hremove.node, hremove.adjacent, hremove.hyperedges, hremove.carriers⟩

theorem sameOnPaths_repeat_dropOldest {g : MemoryGraph α} (h : g.Sound ∅) (n : Nat) :
    g.SameOnPaths (Nat.repeat dropOldest n g) := by
  induction n with
  | zero => exact .refl g
  | succ n ih => exact ih.trans (sameOnPaths_dropOldest (h.repeat_dropOldest n))

variable [Scalar α]

theorem sameOnPaths_remember {g : MemoryGraph α} (h : g.Sound ∅) (agent : AgentId)
    (task summary : String) : g.SameOnPaths (g.remember agent task summary).graph := by
  have hmemory := (h.meet_hub agent).meetMemory (n := .ofMemory (hubKey agent)
    (.ofList ((Text.keywords summary memoryTopics).map Prod.fst) compare)) ⟨agent, task, rfl⟩ rfl
  exact (sameOnPaths_meet ⟨g, .none⟩ (not_isPath_hubKey agent) _).trans <|
    (sameOnPaths_meetMemory _ (not_isPath_memoryKey agent task) _).trans <|
      sameOnPaths_join hmemory.symmetric (not_isPath_memoryKey agent task) _

/-- Recording changes nothing that a graph holds about paths. -/
theorem sameOnPaths_record {g : MemoryGraph α} (h : g.Sound ∅) (agent : AgentId)
    (task summary : String) : g.SameOnPaths (g.record agent task summary).graph :=
  (sameOnPaths_remember h agent task summary).trans
    (sameOnPaths_repeat_dropOldest (h.remember agent task summary) _)

end MemoryGraph

end EchoEngine
