import EchoEngine.Proofs.Memory.Commuting
import EchoEngine.Proofs.Memory.Linear

/-!
# What is remembered while there is room

While there is room for all records of a run, no memory is dropped: memories and hubs are those of its
records, each memory joined to the hub of its agent (`keeps_replay`).  A fold changes none of that
(`Keeps.fold`), and a recording adds its own (`Keeps.record`).  Hubs are there to stay, so what is said of
them (`Hubs`) needs no room.
-/

namespace EchoEngine

variable {α : Type}

/-- The agent and the task of a recorded memory. -/
def MemoryEvent.recorded? : MemoryEvent α → Option (AgentId × String)
  | record agent task _ => some (agent, task)
  | fold _ => none

/-- What events record. -/
def MemoryEvent.recordsIn (es : List (MemoryEvent α)) : List (AgentId × String) :=
  es.filterMap recorded?

@[simp]
theorem MemoryEvent.recordsIn_concat_fold (es : List (MemoryEvent α)) (s : Snapshot α) :
    recordsIn (es ++ [.fold s]) = recordsIn es := by
  simp [recordsIn, recorded?]

@[simp]
theorem MemoryEvent.recordsIn_concat_record (es : List (MemoryEvent α)) (agent : AgentId) (task summary : String) :
    recordsIn (es ++ [.record agent task summary]) = recordsIn es ++ [(agent, task)] := by
  simp [recordsIn, recorded?]

namespace MemoryGraph

open MemoryEvent

/-! ### One more task -/

/-- Nothing is dropped while there is room. -/
theorem evict_eq_self {g : MemoryGraph α} (h : g.memories.length ≤ g.settings.memoryCapacity) :
    g.evict = g := by
  rw [evict, Nat.sub_eq_zero_of_le h]
  rfl

section

variable [Scalar α]

omit [Scalar α] in
theorem Sound.contains_memoryKey {g : MemoryGraph α} (h : g.Sound ∅) (agent : AgentId) (task : String) :
    g.contains (memoryKey agent task) ↔ memoryKey agent task ∈ g.memories := by
  rw [h.mem_memories]
  exact (and_iff_left ⟨agent, task, rfl⟩).symm

theorem memories_remember (g : MemoryGraph α) (agent : AgentId) (task summary : String) :
    (g.remember agent task summary).graph.memories
      = if g.contains (memoryKey agent task) then g.memories else g.memories ++ [memoryKey agent task] := by
  have hcontains : (Growing.meet ⟨g, .none⟩ (hubKey agent) .hub).graph.contains (memoryKey agent task)
      = g.contains (memoryKey agent task) := by
    rw [Bool.eq_iff_iff, Growing.contains_meet, or_iff_right (memoryKey_ne_hubKey agent agent task)]
  rw [remember, Growing.memories_join, Growing.meetMemory]
  dsimp only
  rw [hcontains, Growing.graph_meet]

theorem kind?_remember (g : MemoryGraph α) (agent : AgentId) (task summary key : String) :
    (g.remember agent task summary).graph.kind? key
      = if memoryKey agent task = key then some ((g.kind? key).getD .memory)
        else if hubKey agent = key then some ((g.kind? key).getD .agent) else g.kind? key := by
  rw [remember, kind?_of_rewired (Growing.rewired_join _ _ _)]
  refine (Growing.kind?_meet _ _ _ _).trans ?_
  rw [Growing.kind?_meet]
  by_cases hkey : memoryKey agent task = key
  · have hhub : hubKey agent ≠ key := by
      rintro rfl
      exact memoryKey_ne_hubKey agent agent task hkey
    rw [if_pos hkey, if_pos hkey, if_neg hhub]
    rfl
  · rw [if_neg hkey, if_neg hkey]
    rfl

end

/-! ### Hubs -/

/-- The hubs of a graph are those of records. -/
structure Hubs (rs : List (AgentId × String)) (g : MemoryGraph α) : Prop where
  agent_iff : ∀ key, g.kind? key = some .agent ↔ ∃ r ∈ rs, key = hubKey r.1
  kind_hub : ∀ agent kind, g.kind? (hubKey agent) = some kind → kind = .agent

theorem hubs_empty (settings : GraphSettings) : Hubs [] (empty settings : MemoryGraph α) := by
  constructor <;> simp [empty, kind?, node?]

section

variable [Scalar α] {rs : List (AgentId × String)} {g : MemoryGraph α}

/-- A fold makes directories and files only. -/
theorem Hubs.fold (h : Hubs rs g) (hsound : g.Sound ∅) {plan : FoldPlan α} (hplan : plan.Closed) :
    Hubs rs (g.fold plan).graph where
  agent_iff key := by
    rw [← h.agent_iff, kind?_fold]
    cases g.kind? key <;> grind
  kind_hub agent kind hkind := by
    rw [kind?, (sameMemories_fold hsound hplan).node _ (not_isPath_hubKey agent)] at hkind
    exact h.kind_hub agent kind hkind

theorem Hubs.remember (h : Hubs rs g) (agent : AgentId) (task summary : String) :
    Hubs (rs ++ [(agent, task)]) (g.remember agent task summary).graph where
  agent_iff key := by
    rw [kind?_remember]
    simp only [List.mem_append, List.mem_singleton, or_and_right, exists_or, exists_eq_left, ← h.agent_iff]
    split
    · rename_i hkey
      subst hkey
      cases g.kind? (memoryKey agent task) <;> simp [memoryKey_ne_hubKey]
    · split
      · rename_i hhub
        subst hhub
        cases hold : g.kind? (hubKey agent) with
        | none => simp
        | some kind => simp [h.kind_hub agent kind hold]
      · rename_i hhub
        simp [Ne.symm hhub]
  kind_hub other kind hkind := by
    rw [kind?_remember, if_neg (memoryKey_ne_hubKey agent other task)] at hkind
    split at hkind
    · cases hold : g.kind? (hubKey other) with
      | none => simpa [hold] using hkind.symm
      | some old =>
        rw [hold] at hkind
        exact (Option.some.inj hkind).symm.trans (h.kind_hub other old hold)
    · exact h.kind_hub other kind hkind

end

/-! ### Records that are kept -/

/-- Hubs and memories are those of records. -/
structure Keeps (rs : List (AgentId × String)) (g : MemoryGraph α) : Prop where
  mem_memories : ∀ key, key ∈ g.memories ↔ ∃ r ∈ rs, key = memoryKey r.1 r.2
  length_le : g.memories.length ≤ rs.length
  agent_iff : ∀ key, g.kind? key = some .agent ↔ ∃ r ∈ rs, key = hubKey r.1
  kind_hub : ∀ agent kind, g.kind? (hubKey agent) = some kind → kind = .agent
  adjacent : ∀ r ∈ rs, g.adjacent (memoryKey r.1 r.2) (hubKey r.1)

theorem keeps_empty (settings : GraphSettings) : Keeps [] (empty settings : MemoryGraph α) := by
  constructor <;> simp [empty, kind?, node?]

theorem Keeps.hubs {rs : List (AgentId × String)} {g : MemoryGraph α} (h : Keeps rs g) : Hubs rs g :=
  ⟨h.agent_iff, h.kind_hub⟩

variable [Scalar α] {rs : List (AgentId × String)} {g : MemoryGraph α}

theorem Keeps.fold (h : Keeps rs g) (hsound : g.Sound ∅) {plan : FoldPlan α} (hplan : plan.Closed) :
    Keeps rs (g.fold plan).graph := by
  have hsame := sameMemories_fold hsound hplan
  refine ⟨?_, ?_, ?_, ?_, ?_⟩
  · rw [hsame.memories]
    exact h.mem_memories
  · rw [hsame.memories]
    exact h.length_le
  · exact (h.hubs.fold hsound hplan).agent_iff
  · exact (h.hubs.fold hsound hplan).kind_hub
  · intro r hr
    rw [hsame.toAgreeOn.adjacent (not_isPath_memoryKey r.1 r.2)]
    exact h.adjacent r hr

theorem Keeps.remember (h : Keeps rs g) (hsound : g.Sound ∅) (agent : AgentId) (task summary : String) :
    Keeps (rs ++ [(agent, task)]) (g.remember agent task summary).graph := by
  have hknown := hsound.contains_memoryKey agent task
  refine ⟨?_, ?_, ?_, ?_, ?_⟩
  · intro key
    rw [memories_remember]
    simp only [List.mem_append, List.mem_singleton, or_and_right, exists_or, exists_eq_left, ← h.mem_memories]
    split
    · rename_i hold
      rw [iff_self_or]
      rintro rfl
      exact hknown.1 hold
    · rw [List.mem_append, List.mem_singleton]
  · rw [memories_remember, List.length_append]
    have hlength := h.length_le
    split
    · exact hlength.trans (Nat.le_add_right _ _)
    · simpa using hlength
  · exact (h.hubs.remember agent task summary).agent_iff
  · exact (h.hubs.remember agent task summary).kind_hub
  · intro r hr
    rw [adjacent_remember hsound.symmetric]
    rw [List.mem_append, List.mem_singleton] at hr
    rcases hr with hr | rfl
    · exact .inl (h.adjacent r hr)
    · exact .inr (.inl ⟨rfl, rfl⟩)

theorem Keeps.record (h : Keeps rs g) (hsound : g.Sound ∅) (agent : AgentId) (task summary : String)
    (hroom : rs.length < g.settings.memoryCapacity) :
    Keeps (rs ++ [(agent, task)]) (g.record agent task summary).graph := by
  have hremember := h.remember hsound agent task summary
  have hlength := hremember.length_le
  have hsettings := (agreeOn_remember g agent task summary).settings
  rw [List.length_append, List.length_singleton] at hlength
  rw [MemoryGraph.record]
  dsimp only
  rw [evict_eq_self (by rw [hsettings]; omega)]
  exact hremember

/-- A run with room for all that it records keeps all of it. -/
theorem keeps_replay (settings : GraphSettings) {es : List (MemoryEvent α)} (hes : ∀ e ∈ es, e.Rooted)
    (hroom : (recordsIn es).length ≤ settings.memoryCapacity) : Keeps (recordsIn es) (replay settings es) := by
  revert hroom
  refine replay_induction
    (P := fun es g => (recordsIn es).length ≤ settings.memoryCapacity → Keeps (recordsIn es) g) settings hes
    (fun _ => keeps_empty settings) ?_ ?_
  · intro es s hold hplan h hroom
    rw [recordsIn_concat_fold] at hroom ⊢
    exact (h hroom).fold (sound_replay settings hold) hplan
  · intro es agent task summary hold h hroom
    rw [recordsIn_concat_record, List.length_append] at hroom
    rw [recordsIn_concat_record]
    refine (h (Nat.le_of_succ_le hroom)).record (sound_replay settings hold) agent task summary ?_
    rw [settings_replay settings hold]
    exact hroom

omit [Scalar α] in
/-- The node of a hub is there if its agent has a record. -/
theorem Keeps.contains_hubKey (h : Keeps rs g) {agent : AgentId} :
    g.contains (hubKey agent) ↔ ∃ r ∈ rs, r.1 = agent := by
  have hagent : g.contains (hubKey agent) ↔ g.kind? (hubKey agent) = some .agent := by
    constructor
    · intro hcontains
      obtain ⟨kind, hkind⟩ := exists_kind? hcontains
      rw [hkind, h.kind_hub agent kind hkind]
    · exact contains_of_kind?
  rw [hagent, h.agent_iff]
  constructor
  · rintro ⟨r, hr, hkey⟩
    exact ⟨r, hr, (hubKey_inj hkey).symm⟩
  · rintro ⟨r, hr, rfl⟩
    exact ⟨r, hr, rfl⟩

/-! ### Counting -/

omit [Scalar α] in
theorem kind?_eq_memory_iff (hsound : g.Sound ∅) (key : String) :
    g.kind? key = some .memory ↔ key ∈ g.memories := by
  rw [hsound.wellFormed.mem_memories, kind?, Option.map_eq_some_iff]

omit [Scalar α] in
/-- The nodes of memories are those that wait to be dropped. -/
theorem perm_memories (hsound : g.Sound ∅) : ((g.nodesOf .memory).map Prod.fst).Perm g.memories := by
  have hnodup : ((g.nodesOf .memory).map Prod.fst).Nodup := by
    refine List.Nodup.sublist (List.Sublist.map Prod.fst List.filter_sublist) ?_
    rw [Std.ExtTreeMap.map_fst_toList_eq_keys]
    exact Std.ExtTreeMap.nodup_keys
  rw [List.perm_ext_iff_of_nodup hnodup hsound.memories_nodup]
  intro key
  rw [← kind?_eq_memory_iff hsound, List.mem_map]
  constructor
  · rintro ⟨⟨k, n⟩, hn, rfl⟩
    obtain ⟨hnode, hkind⟩ := mem_nodesOf.1 hn
    rw [kind?, hnode]
    exact congrArg some hkind
  · intro hkind
    obtain ⟨n, hn⟩ := exists_mem_nodesOf hkind
    exact ⟨(key, n), hn, rfl⟩

omit [Scalar α] in
/-- Records whose keys differ have as many memories. -/
theorem Keeps.length_nodesOf (h : Keeps rs g) (hsound : g.Sound ∅)
    (hrs : (rs.map fun r => memoryKey r.1 r.2).Nodup) : (g.nodesOf .memory).length = rs.length := by
  have hperm : g.memories.Perm (rs.map fun r => memoryKey r.1 r.2) := by
    rw [List.perm_ext_iff_of_nodup hsound.memories_nodup hrs]
    intro key
    rw [h.mem_memories, List.mem_map]
    simp only [eq_comm]
  have hlength := ((perm_memories hsound).trans hperm).length_eq
  rwa [List.length_map, List.length_map] at hlength

end MemoryGraph

end EchoEngine
