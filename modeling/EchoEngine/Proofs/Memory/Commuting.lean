import EchoEngine.Proofs.Memory.Halves

/-!
# Folding and recording in either order

A fold leaves the half of hubs and memories alone (`sameMemories_fold`), a recording that of files
(`sameFiles_record`).  So in whatever order the two come, each half has lived through the same, and the
graphs are equal, as are the numbers of what the fold has created (`fold_record`).

That dropping a memory leaves files alone is an invariant of all runs: no edge joins the two halves
(`apart_replay`).
-/

namespace EchoEngine

open Std (ExtTreeMap ExtTreeSet)

variable {α : Type}

attribute [ext] MemoryGraph

namespace MemoryGraph

/-! ### Folding leaves memories alone -/

theorem sameMemories_meet (w : Growing α) {key : String} (hkey : IsPath key) (n : MemoryNode α) :
    w.graph.SameMemories (w.meet key n).graph :=
  ⟨agreeOn_meet w (not_not_intro hkey) n, by rw [Growing.graph_meet]⟩

theorem sameMemories_join (w : Growing α) {a b : String} (ha : IsPath a) (hb : IsPath b) :
    w.graph.SameMemories (w.join a b).graph :=
  ⟨agreeOn_join w (not_not_intro ha) (not_not_intro hb), Growing.memories_join w a b⟩

theorem sameMemories_joinAncestor (w : Growing α) {a b : String} (ha : IsPath a) (hb : IsPath b) :
    w.graph.SameMemories (w.joinAncestor a b).graph := by
  rcases Growing.joinAncestor_cases w a b with h | h
  · rw [h]
    exact sameMemories_join w ha hb
  · rw [h]
    exact .refl _

theorem sameMemories_addFile (w : Growing α) {f : PlannedFile α} (hf : IsPath f.key)
    (hd : IsPath f.directory) : w.graph.SameMemories (w.addFile f).graph :=
  have h := (sameMemories_meet (w.carry f.key f.topics) hf (.ofFile f)).trans
    (sameMemories_joinAncestor _ hf hd)
  ⟨⟨h.settings, h.node, h.noted⟩, h.memories⟩

theorem sameMemories_addDirectory [Scalar α] (w : Growing α) {d : String × Option String}
    (hd : IsPath d.1) (hparent : ∀ parent, d.2 = some parent → IsPath parent) :
    w.graph.SameMemories (w.addDirectory d).graph := by
  have hmeet := sameMemories_meet w hd (.ofDirectory d.2)
  rcases Growing.addDirectory_cases w d with ⟨-, h⟩ | ⟨parent, hp, h⟩
  · rw [h]
    exact hmeet
  · rw [h]
    exact hmeet.trans (sameMemories_joinAncestor _ hd (hparent parent hp))

theorem sameMemories_joinPartners {w : Growing α} (hcarry : w.graph.PathsCarry) {f : PlannedFile α}
    (hf : IsPath f.key) : w.graph.SameMemories (w.joinPartners f).graph := by
  refine List.foldlRecOn (motive := fun v : Growing α => w.graph.SameMemories v.graph) _ _ (.refl _) ?_
  intro v hv other hother
  obtain ⟨topic, htopic⟩ := exists_carrier_of_mem_partners hother
  exact hv.trans (sameMemories_join v hf (hcarry topic other htopic))

/-- A fold leaves hubs and memories alone. -/
theorem sameMemories_fold [Scalar α] {g : MemoryGraph α} (h : g.Sound ∅) {plan : FoldPlan α}
    (hplan : plan.Closed) : g.SameMemories (g.fold plan).graph := by
  have hentered : g.SameMemories (g.enter plan).graph := by
    refine enter_induction (P := fun w => g.SameMemories w.graph) (.refl g) ?_ ?_
    · intro w d parent hd hw
      refine hw.trans (sameMemories_addDirectory w (hplan.directory_path hd) ?_)
      rintro p rfl
      exact hplan.parent_path hd
    · intro w f hf hw
      exact hw.trans (sameMemories_addFile w (hplan.file_path f hf) (hplan.file_directory_path hf))
  have hjoined : (g.fold plan).graph.PathsCarry ∧ g.SameMemories (g.fold plan).graph := by
    refine Growing.joinTopics_induction (P := fun w => w.graph.PathsCarry ∧ g.SameMemories w.graph)
      ⟨pathsCarry_enter h hplan, hentered⟩ ?_
    rintro w f hf ⟨hcarry, hw⟩
    refine ⟨?_, hw.trans (sameMemories_joinPartners hcarry (hplan.file_path f hf))⟩
    rwa [PathsCarry, (rewired_joinPartners w f).carriers]
  exact hjoined.2

/-! ### Recording leaves files alone -/

/-- No edge joins a path to what is none. -/
def Apart (g : MemoryGraph α) : Prop :=
  ∀ a b, g.adjacent a b → (IsPath a ↔ IsPath b)

theorem apart_empty (settings : GraphSettings) : (empty settings : MemoryGraph α).Apart := by
  intro a b hab
  simp [empty, adjacent_iff] at hab

theorem Apart.dropOldest {g : MemoryGraph α} (h : g.Apart) (hsymmetric : g.Symmetric) :
    g.dropOldest.Apart := by
  unfold MemoryGraph.dropOldest
  split
  · exact h
  · rename_i oldest rest _
    intro a b hab
    have hrest : ({ g with memories := rest } : MemoryGraph α).Symmetric := hsymmetric
    exact h a b ((adjacent_remove hrest oldest a b).1 hab).2.2

theorem Apart.repeat_dropOldest {g : MemoryGraph α} (h : g.Apart) (hsound : g.Sound ∅) (n : Nat) :
    (Nat.repeat MemoryGraph.dropOldest n g).Apart := by
  induction n with
  | zero => exact h
  | succ n ih => exact ih.dropOldest (hsound.repeat_dropOldest n).symmetric

/-- No file is among the neighbors of a memory that is dropped. -/
theorem agreeOn_dropOldest {g : MemoryGraph α} (hsound : g.Sound ∅) (hapart : g.Apart) :
    AgreeOn paths g g.dropOldest := by
  unfold dropOldest
  split
  · exact .refl g
  · rename_i oldest rest hcons
    have holdest : ¬IsPath oldest :=
      hsound.not_isPath_of_mem_memories (by rw [hcons]; exact List.mem_cons_self)
    have hremove : AgreeOn paths { g with memories := rest }
        (({ g with memories := rest } : MemoryGraph α).remove oldest) :=
      agreeOn_remove holdest fun other hother hpath => holdest ((hapart oldest other hother).2 hpath)
    exact ⟨hremove.settings, hremove.node, hremove.noted⟩

theorem agreeOn_repeat_dropOldest {g : MemoryGraph α} (hsound : g.Sound ∅) (hapart : g.Apart) (n : Nat) :
    AgreeOn paths g (Nat.repeat dropOldest n g) := by
  induction n with
  | zero => exact .refl g
  | succ n ih =>
    exact ih.trans (agreeOn_dropOldest (hsound.repeat_dropOldest n) (hapart.repeat_dropOldest hsound n))

variable [Scalar α]

/-- The graph with a hub and a memory that are not joined yet. -/
private def met (g : MemoryGraph α) (agent : AgentId) (task summary : String) : Growing α :=
  (Growing.meet ⟨g, .none⟩ (hubKey agent) .hub).meetMemory (memoryKey agent task)
    (.ofMemory (hubKey agent) (.ofList ((Text.keywords summary memoryTopics).map Prod.fst) compare))

private theorem remember_eq_join (g : MemoryGraph α) (agent : AgentId) (task summary : String) :
    g.remember agent task summary
      = (g.met agent task summary).join (memoryKey agent task) (hubKey agent) := rfl

private theorem agreeOn_met (g : MemoryGraph α) (agent : AgentId) (task summary : String) :
    AgreeOn paths g (g.met agent task summary).graph := by
  have hhub : AgreeOn paths g (Growing.meet ⟨g, .none⟩ (hubKey agent) .hub).graph :=
    agreeOn_meet ⟨g, .none⟩ (not_isPath_hubKey agent) .hub
  have hmeet := hhub.trans (agreeOn_meet _ (not_isPath_memoryKey agent task)
    (.ofMemory (hubKey agent) (.ofList ((Text.keywords summary memoryTopics).map Prod.fst) compare)))
  exact ⟨hmeet.settings, hmeet.node, hmeet.noted⟩

private theorem adjacency_met (g : MemoryGraph α) (agent : AgentId) (task summary : String) :
    (g.met agent task summary).graph.adjacency = g.adjacency := by
  unfold met Growing.meetMemory
  dsimp only
  rw [Growing.graph_meet, Growing.graph_meet]

theorem agreeOn_remember (g : MemoryGraph α) (agent : AgentId) (task summary : String) :
    AgreeOn paths g (g.remember agent task summary).graph :=
  (agreeOn_met g agent task summary).trans
    (agreeOn_join _ (not_isPath_memoryKey agent task) (not_isPath_hubKey agent))

/-- Remembering a task joins its memory to the hub of its agent and nothing else. -/
theorem adjacent_remember {g : MemoryGraph α} (h : g.Symmetric) (agent : AgentId) (task summary x y : String) :
    (g.remember agent task summary).graph.adjacent x y ↔
      g.adjacent x y ∨ x = memoryKey agent task ∧ y = hubKey agent ∨
        x = hubKey agent ∧ y = memoryKey agent task := by
  have hsame : ∀ a b, (g.met agent task summary).graph.adjacent a b = g.adjacent a b := by
    intro a b
    rw [adjacent, adjacency_met, adjacent]
  have hsymmetric : (g.met agent task summary).graph.Symmetric := by
    intro a b
    rw [hsame, hsame]
    exact h a b
  rw [remember_eq_join, Growing.adjacent_join hsymmetric, hsame]
  exact or_congr_right (and_iff_right (memoryKey_ne_hubKey agent agent task))

theorem Apart.remember {g : MemoryGraph α} (h : g.Apart) (hsymmetric : g.Symmetric) (agent : AgentId)
    (task summary : String) : (g.remember agent task summary).graph.Apart := by
  intro a b hab
  have hhub := not_isPath_hubKey agent
  have hkey := not_isPath_memoryKey agent task
  rcases (adjacent_remember hsymmetric agent task summary a b).1 hab with hold | ⟨rfl, rfl⟩ | ⟨rfl, rfl⟩
  · exact h a b hold
  · exact iff_of_false hkey hhub
  · exact iff_of_false hhub hkey

theorem Apart.record {g : MemoryGraph α} (h : g.Apart) (hsound : g.Sound ∅) (agent : AgentId)
    (task summary : String) : (g.record agent task summary).graph.Apart :=
  (h.remember hsound.symmetric agent task summary).repeat_dropOldest (hsound.remember agent task summary) _

/-- A recording leaves files and directories alone. -/
theorem sameFiles_record {g : MemoryGraph α} (hsound : g.Sound ∅) (hapart : g.Apart) (agent : AgentId)
    (task summary : String) : g.SameFiles (g.record agent task summary).graph where
  toAgreeOn := (agreeOn_remember g agent task summary).trans <|
    agreeOn_repeat_dropOldest (hsound.remember agent task summary)
      (hapart.remember hsound.symmetric agent task summary) _
  hyperedges := (sameOnPaths_record hsound agent task summary).hyperedges
  carriers := (sameOnPaths_record hsound agent task summary).carriers

/-! ### Either order -/

theorem Apart.fold {g : MemoryGraph α} (h : g.Apart) (hsound : g.Sound ∅) (hindexed : g.Indexed)
    {plan : FoldPlan α} (hplan : plan.Closed) : (g.fold plan).graph.Apart := by
  have hhangs : ∀ {a b}, plan.Hangs a b → IsPath a ∧ IsPath b := by
    rintro a b (hd | ⟨f, hf, rfl, rfl⟩)
    · exact ⟨hplan.directory_path hd, hplan.parent_path hd⟩
    · exact ⟨hplan.file_path f hf, hplan.file_directory_path hf⟩
  intro a b hab
  rcases adjacent_fold hindexed hplan hab with hold | hbelow | habove | hpartners
  · exact h a b hold
  · exact iff_of_true (hhangs hbelow).1 (hhangs hbelow).2
  · exact iff_of_true (hhangs habove).2 (hhangs habove).1
  · obtain ⟨topic, -, ha, hb⟩ := hpartners.nonempty
    have hcarrier := (hsound.fold hplan).carrier topic
    exact iff_of_true (hcarrier a ha).1 (hcarrier b hb).1

theorem apart_replay (settings : GraphSettings) {es : List (MemoryEvent α)} (hes : ∀ e ∈ es, e.Rooted) :
    (replay settings es).Apart := by
  refine replay_induction (P := fun _ g => g.Apart) settings hes (apart_empty settings) ?_ ?_
  · intro es s hold hplan h
    exact h.fold (sound_replay settings hold) (partnered_replay settings hold).1 hplan
  · intro es agent task summary hold h
    exact h.record (sound_replay settings hold) agent task summary

omit [Scalar α] in
/-- The halves make up the graph. -/
theorem eq_of_halves {g g' : MemoryGraph α} (hfiles : g.SameFiles g') (hmemories : g.SameMemories g')
    (h : g.Undirected) (h' : g'.Undirected) : g' = g := by
  have hadjacency : g'.adjacency = g.adjacency := by
    apply ExtTreeMap.ext_getElem?
    intro key
    by_cases hkey : key ∈ paths
    · exact hfiles.noted key hkey
    · exact hmemories.noted key hkey
  have hnodes : g'.nodes = g.nodes := by
    apply ExtTreeMap.ext_getElem?
    intro key
    by_cases hkey : key ∈ paths
    · exact hfiles.node key hkey
    · exact hmemories.node key hkey
  exact MemoryGraph.ext hfiles.settings hnodes hadjacency (h.edgeCount_eq h' hadjacency) hfiles.hyperedges
    hfiles.carriers hmemories.memories

/-- A fold and a recording leave the same graph in either order, and the fold creates the same. -/
theorem fold_record {g : MemoryGraph α} (hsound : g.Sound ∅) (hapart : g.Apart) (hindexed : g.Indexed)
    {plan : FoldPlan α} (hplan : plan.Closed) (agent : AgentId) (task summary : String) :
    ((g.record agent task summary).graph.fold plan).graph
        = ((g.fold plan).graph.record agent task summary).graph ∧
      ((g.record agent task summary).graph.fold plan).created = (g.fold plan).created := by
  have hfolded := hsound.fold hplan
  have hrecorded := hsound.record agent task summary
  -- the fold does to files what it does without the recording, and the other way round
  have halike := (sameFiles_record hsound hapart agent task summary).fold hsound hplan
  have hfiles := halike.toSameFiles.symm.trans
    (sameFiles_record hfolded (hapart.fold hsound hindexed hplan) agent task summary)
  have hmemories := (sameMemories_fold hrecorded hplan).symm.trans
    ((sameMemories_fold hsound hplan).record hsound agent task summary).toSameMemories
  have hgraph := eq_of_halves hfiles hmemories (hrecorded.fold hplan).toUndirected
    (hfolded.record agent task summary).toUndirected
  exact ⟨hgraph.symm, halike.created⟩

end MemoryGraph

end EchoEngine
