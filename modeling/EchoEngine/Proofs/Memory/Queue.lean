import EchoEngine.Proofs.Memory.Remembered
import Mathlib.Data.List.DropRight

/-!
# The queue of memories

Memories wait in a queue, the oldest first, until there is no room for them (`MemoryQueue`).  Which of them wait
depends on the records of a run alone, whatever is folded between them.  The graph has a node for each memory that
waits, joined to the hub of its agent and to nothing else, and it loses what the queue drops and nothing else
(`queues_replay`).

The key of a memory tells its agent only if the id of the agent holds no slash, so edges are described for such
ids (`Spoked`).
-/

namespace EchoEngine

variable {α : Type}

/-! ### The queue -/

/-- Keys of memories, the oldest first, and the keys that have been dropped so far. -/
structure MemoryQueue where
  waiting : List String
  dropped : List String

namespace MemoryQueue

def empty : MemoryQueue :=
  ⟨[], []⟩

/-- The queue with one more key.  One that waits already keeps its place, any other comes last; past the capacity
keys are dropped from the front. -/
def enqueue (capacity : Nat) (q : MemoryQueue) (key : String) : MemoryQueue :=
  if key ∈ q.waiting then q
  else
    { waiting := (q.waiting ++ [key]).rtake capacity
      dropped := q.dropped ++ (q.waiting ++ [key]).rdrop capacity }

/-- The queue of the keys of records. -/
def ofRecords (capacity : Nat) (rs : List (AgentId × String)) : MemoryQueue :=
  rs.foldl (fun q r => q.enqueue capacity (MemoryGraph.memoryKey r.1 r.2)) empty

theorem ofRecords_concat (capacity : Nat) (rs : List (AgentId × String)) (r : AgentId × String) :
    ofRecords capacity (rs ++ [r])
      = (ofRecords capacity rs).enqueue capacity (MemoryGraph.memoryKey r.1 r.2) :=
  List.foldl_concat ..

theorem length_waiting_le (capacity : Nat) (rs : List (AgentId × String)) :
    (ofRecords capacity rs).waiting.length ≤ capacity := by
  refine List.foldlRecOn (motive := fun q : MemoryQueue => q.waiting.length ≤ capacity) _ _ (Nat.zero_le _) ?_
  intro q hq r _
  unfold enqueue
  split
  · exact hq
  · rw [List.rtake, List.length_drop]
    omega

end MemoryQueue

/-- The id of a recorded agent holds no slash. -/
def MemoryEvent.Slashless : MemoryEvent α → Prop
  | record agent _ _ => '/' ∉ agent.text.toList
  | fold _ => True

namespace MemoryGraph

open MemoryEvent

variable {g g' g'' : MemoryGraph α} {dropped : List String}

/-! ### Dropping keys -/

/-- A graph drops keys and is left with all else: they are nodes no longer, nor ends of edges. -/
structure Drops (g : MemoryGraph α) (dropped : List String) (g' : MemoryGraph α) : Prop where
  node : ∀ key, g'.node? key = if key ∈ dropped then none else g.node? key
  adjacent : ∀ a b, g'.adjacent a b ↔ a ∉ dropped ∧ b ∉ dropped ∧ g.adjacent a b
  hyperedges : g'.hyperedges = g.hyperedges
  carriers : g'.carriers = g.carriers

theorem Drops.refl (g : MemoryGraph α) : g.Drops [] g := by
  constructor <;> simp

theorem Drops.trans {dropped' : List String} (h : g.Drops dropped g') (h' : g'.Drops dropped' g'') :
    g.Drops (dropped ++ dropped') g'' where
  node key := by
    rw [h'.node, h.node]
    by_cases hkey : key ∈ dropped <;> simp [hkey]
  adjacent a b := by
    rw [h'.adjacent, h.adjacent]
    simp only [List.mem_append, not_or]
    tauto
  hyperedges := h'.hyperedges.trans h.hyperedges
  carriers := h'.carriers.trans h.carriers

theorem drops_dropOldest (h : g.Symmetric) : g.Drops (g.memories.take 1) g.dropOldest := by
  unfold dropOldest
  split
  · rename_i hnone
    rw [hnone]
    exact .refl g
  · rename_i oldest rest hcons
    have hrest : ({ g with memories := rest } : MemoryGraph α).Symmetric := h
    rw [hcons]
    refine ⟨fun key => ?_, fun a b => ?_, hyperedges_remove _ _, carriers_remove _ _⟩
    · rw [node?_remove]
      simp only [List.take_succ_cons, List.take_zero, List.mem_singleton, eq_comm (a := oldest)]
      rfl
    · rw [adjacent_remove hrest]
      simp only [List.take_succ_cons, List.take_zero, List.mem_singleton]
      rfl

theorem drops_repeat_dropOldest (h : g.Sound ∅) (n : Nat) :
    g.Drops (g.memories.take n) (Nat.repeat dropOldest n g) := by
  induction n with
  | zero => exact .refl g
  | succ n ih =>
    have hnext := ih.trans (drops_dropOldest (h.repeat_dropOldest n).symmetric)
    rwa [memories_repeat_dropOldest, ← List.take_add] at hnext

theorem Drops.kind?_iff (h : g.Drops dropped g') {key : String} {kind : NodeKind} :
    g'.kind? key = some kind ↔ key ∉ dropped ∧ g.kind? key = some kind := by
  rw [kind?, h.node]
  split
  · rename_i hkey
    constructor
    · intro hnone
      cases hnone
    · rintro ⟨hkept, -⟩
      exact absurd hkey hkept
  · rename_i hkey
    exact (and_iff_right hkey).symm

/-- Nodes of all other kinds stay if nothing but memories is dropped. -/
theorem Drops.kind?_iff_of_ne (h : g.Drops dropped g') (hsound : g.Sound ∅)
    (hdropped : ∀ key ∈ dropped, key ∈ g.memories) {key : String} {kind : NodeKind} (hkind : kind ≠ .memory) :
    g'.kind? key = some kind ↔ g.kind? key = some kind := by
  rw [h.kind?_iff, and_iff_right_iff_imp]
  intro hkey hmem
  rw [(kind?_eq_memory_iff hsound key).2 (hdropped key hmem)] at hkey
  exact hkind (Option.some.inj hkey).symm

/-! ### Hubs and spokes -/

/-- Memories are joined to the hubs of their agents and to nothing else, and hubs to the memories of their agents. -/
structure Spoked (g : MemoryGraph α) : Prop where
  memory : ∀ (agent : AgentId) task, '/' ∉ agent.text.toList → memoryKey agent task ∈ g.memories →
    ∀ key, g.adjacent (memoryKey agent task) key ↔ key = hubKey agent
  hub : ∀ agent : AgentId, '/' ∉ agent.text.toList →
    ∀ key, g.adjacent (hubKey agent) key ↔ key ∈ g.memories ∧ ∃ task, key = memoryKey agent task

theorem spoked_empty (settings : GraphSettings) : (empty settings : MemoryGraph α).Spoked := by
  constructor <;> simp [empty, adjacent_iff]

theorem Spoked.of_sameMemories (h : g.Spoked) (hsame : g.SameMemories g') : g'.Spoked where
  memory agent task hid hkey key := by
    rw [hsame.memories] at hkey
    rw [hsame.toAgreeOn.adjacent (not_isPath_memoryKey agent task)]
    exact h.memory agent task hid hkey key
  hub agent hid key := by
    rw [hsame.toAgreeOn.adjacent (not_isPath_hubKey agent), hsame.memories]
    exact h.hub agent hid key

/-- What has been dropped leaves no edge behind. -/
theorem Spoked.of_drops (h : g.Spoked) (hsound : g.Sound ∅) (hdrops : g.Drops dropped g')
    (hmemories : g.memories = dropped ++ g'.memories) : g'.Spoked := by
  -- neither hubs nor the memories that are left are among what has been dropped
  have hnodup := hsound.memories_nodup
  rw [hmemories, List.nodup_append'] at hnodup
  have hkept : ∀ key ∈ g'.memories, key ∉ dropped := fun key hkey hdropped => hnodup.2.2 hdropped hkey
  have hhub : ∀ agent, hubKey agent ∉ dropped := by
    intro agent hdropped
    have hmem : hubKey agent ∈ g.memories := by
      rw [hmemories]
      exact List.mem_append_left _ hdropped
    exact not_isMemory_hubKey agent ((hsound.mem_memories _).1 hmem).2
  refine ⟨fun agent task hid hkey key => ?_, fun agent hid key => ?_⟩
  · have hold : memoryKey agent task ∈ g.memories := by
      rw [hmemories]
      exact List.mem_append_right _ hkey
    rw [hdrops.adjacent, h.memory agent task hid hold, and_iff_right (hkept _ hkey), and_iff_right_iff_imp]
    rintro rfl
    exact hhub agent
  · rw [hdrops.adjacent, h.hub agent hid, and_iff_right (hhub agent), hmemories, List.mem_append, ← and_assoc]
    exact and_congr_left' ⟨fun hkey => hkey.2.resolve_left hkey.1, fun hkey => ⟨hkept key hkey, .inr hkey⟩⟩

section

variable [Scalar α]

theorem Sound.memories_remember (h : g.Sound ∅) (agent : AgentId) (task summary : String) :
    (g.remember agent task summary).graph.memories
      = if memoryKey agent task ∈ g.memories then g.memories else g.memories ++ [memoryKey agent task] := by
  rw [MemoryGraph.memories_remember]
  exact if_congr (h.contains_memoryKey agent task) rfl rfl

theorem Spoked.remember (h : g.Spoked) (hsound : g.Sound ∅) {agent : AgentId} (hid : '/' ∉ agent.text.toList)
    (task summary : String) : (g.remember agent task summary).graph.Spoked := by
  have hmemories : ∀ key, key ∈ (g.remember agent task summary).graph.memories ↔
      key ∈ g.memories ∨ key = memoryKey agent task := by
    intro key
    rw [hsound.memories_remember]
    split
    · rename_i hold
      rw [iff_self_or]
      rintro rfl
      exact hold
    · rw [List.mem_append, List.mem_singleton]
  constructor
  case memory =>
    intro other task' hother hkey key
    rw [adjacent_remember hsound.symmetric]
    have hhub : memoryKey other task' ≠ hubKey agent := memoryKey_ne_hubKey other agent task'
    by_cases hold : memoryKey other task' ∈ g.memories
    · rw [h.memory other task' hother hold]
      constructor
      · rintro (hkey | ⟨hsame, rfl⟩ | ⟨hsame, -⟩)
        · exact hkey
        · rw [(memoryKey_inj hother hid hsame).1]
        · exact absurd hsame hhub
      · exact .inl
    · -- a memory that has just been met has no other edge
      have hsame := ((hmemories _).1 hkey).resolve_left hold
      obtain ⟨rfl, rfl⟩ := memoryKey_inj hother hid hsame
      have hnew : ¬g.adjacent (memoryKey other task') key := fun hadjacent =>
        hold ((hsound.contains_memoryKey other task').1 (hsound.wellFormed.edge_contains _ _ hadjacent).1)
      simp [hnew, hhub]
  case hub =>
    intro other hother key
    rw [adjacent_remember hsound.symmetric, h.hub other hother, hmemories]
    have hhub : hubKey other ≠ memoryKey agent task := (memoryKey_ne_hubKey agent other task).symm
    constructor
    · rintro (⟨hold, hown⟩ | ⟨hsame, -⟩ | ⟨hsame, rfl⟩)
      · exact ⟨.inl hold, hown⟩
      · exact absurd hsame hhub
      · rw [hubKey_inj hsame]
        exact ⟨.inr rfl, task, rfl⟩
    · rintro ⟨hold | rfl, task', hown⟩
      · exact .inl ⟨hold, task', hown⟩
      · rw [(memoryKey_inj hid hother hown).1]
        exact .inr (.inr ⟨rfl, rfl⟩)

/-! ### Recording -/

/-- A recording drops the oldest memories past the capacity, the new one included. -/
theorem drops_record (hsound : g.Sound ∅) (agent : AgentId) (task summary : String) :
    (g.remember agent task summary).graph.Drops
        ((g.remember agent task summary).graph.memories.rdrop g.settings.memoryCapacity)
        (g.record agent task summary).graph ∧
      (g.record agent task summary).graph.memories
        = (g.remember agent task summary).graph.memories.rtake g.settings.memoryCapacity := by
  have hsettings := (agreeOn_remember g agent task summary).settings
  have hremembered := hsound.remember agent task summary
  rw [record, evict, hsettings]
  exact ⟨drops_repeat_dropOldest hremembered _, memories_repeat_dropOldest _ _⟩

/-- Memories wait as in a queue, and what the queue drops the graph drops. -/
theorem drops_record_enqueue (hsound : g.Sound ∅) {capacity : Nat} (hcapacity : g.settings.memoryCapacity = capacity)
    {q : MemoryQueue} (hq : g.memories = q.waiting) (hlength : q.waiting.length ≤ capacity) (agent : AgentId)
    (task summary : String) :
    (g.record agent task summary).graph.memories = (q.enqueue capacity (memoryKey agent task)).waiting ∧
      ∃ dropped, (q.enqueue capacity (memoryKey agent task)).dropped = q.dropped ++ dropped ∧
        (g.remember agent task summary).graph.Drops dropped (g.record agent task summary).graph ∧
        (g.remember agent task summary).graph.memories
          = dropped ++ (g.record agent task summary).graph.memories := by
  obtain ⟨hdrops, hmemories⟩ := drops_record hsound agent task summary
  have hremembered := hsound.memories_remember agent task summary
  rw [hq] at hremembered
  rw [hcapacity] at hdrops hmemories
  unfold MemoryQueue.enqueue
  by_cases hold : memoryKey agent task ∈ q.waiting
  · -- a repeated task adds nothing, so there is still room
    have hnone : q.waiting.length - capacity = 0 := Nat.sub_eq_zero_of_le hlength
    rw [if_pos hold] at hremembered ⊢
    rw [hremembered, List.rdrop, hnone, List.take_zero] at hdrops
    rw [hremembered, List.rtake, hnone, List.drop_zero] at hmemories
    exact ⟨hmemories, [], (List.append_nil _).symm, hdrops, hremembered.trans hmemories.symm⟩
  · rw [if_neg hold] at hremembered ⊢
    rw [hremembered] at hdrops hmemories
    refine ⟨hmemories, _, rfl, hdrops, ?_⟩
    rw [hremembered, hmemories]
    exact (List.take_append_drop _ _).symm

theorem Spoked.record (h : g.Spoked) (hsound : g.Sound ∅) {agent : AgentId} (hid : '/' ∉ agent.text.toList)
    (task summary : String) : (g.record agent task summary).graph.Spoked := by
  obtain ⟨hdrops, hmemories⟩ := drops_record hsound agent task summary
  refine (h.remember hsound hid task summary).of_drops (hsound.remember agent task summary) hdrops ?_
  rw [hmemories]
  exact (List.take_append_drop _ _).symm

theorem Hubs.record {rs : List (AgentId × String)} (h : Hubs rs g) (hsound : g.Sound ∅) (agent : AgentId)
    (task summary : String) : Hubs (rs ++ [(agent, task)]) (g.record agent task summary).graph := by
  have hremembered := h.remember agent task summary
  have hdrops := (drops_record hsound agent task summary).1
  have hagent : NodeKind.agent ≠ .memory := by decide
  refine ⟨fun key => ?_, fun other kind hkind => ?_⟩
  · rw [hdrops.kind?_iff_of_ne (hsound.remember agent task summary) (fun _ => List.mem_of_mem_take) hagent,
      hremembered.agent_iff]
  · exact hremembered.kind_hub other kind (hdrops.kind?_iff.1 hkind).2

end

/-! ### Runs -/

/-- Memories wait in a queue, joined to the hubs of their agents; the hubs are those of records. -/
structure Queues (rs : List (AgentId × String)) (waiting : List String) (g : MemoryGraph α) : Prop
    extends Spoked g, Hubs rs g where
  memories : g.memories = waiting
  memory_iff : ∀ key, g.kind? key = some .memory ↔ key ∈ waiting

variable [Scalar α] {settings : GraphSettings} {es : List (MemoryEvent α)}

theorem memories_replay (settings : GraphSettings) (hes : ∀ e ∈ es, e.Rooted) :
    (replay settings es).memories = (MemoryQueue.ofRecords settings.memoryCapacity (recordsIn es)).waiting := by
  refine replay_induction
    (P := fun es g => g.memories = (MemoryQueue.ofRecords settings.memoryCapacity (recordsIn es)).waiting)
    settings hes rfl ?_ ?_
  · intro es s hold hplan h
    rw [recordsIn_concat_fold, (sameMemories_fold (sound_replay settings hold) hplan).memories, h]
  · intro es agent task summary hold h
    have hcapacity := congrArg GraphSettings.memoryCapacity (settings_replay settings hold)
    rw [recordsIn_concat_record, MemoryQueue.ofRecords_concat]
    exact (drops_record_enqueue (sound_replay settings hold) hcapacity h (MemoryQueue.length_waiting_le _ _)
      agent task summary).1

theorem spoked_replay (settings : GraphSettings) (hes : ∀ e ∈ es, e.Rooted) (hids : ∀ e ∈ es, e.Slashless) :
    (replay settings es).Spoked := by
  revert hids
  refine replay_induction (P := fun es g => (∀ e ∈ es, e.Slashless) → g.Spoked) settings hes
    (fun _ => spoked_empty settings) ?_ ?_
  · intro es s hold hplan h hids
    exact (h (List.forall_mem_append.1 hids).1).of_sameMemories
      (sameMemories_fold (sound_replay settings hold) hplan)
  · intro es agent task summary hold h hids
    have hid : '/' ∉ agent.text.toList := hids (.record agent task summary) (by simp)
    exact (h (List.forall_mem_append.1 hids).1).record (sound_replay settings hold) hid task summary

theorem hubs_replay (settings : GraphSettings) (hes : ∀ e ∈ es, e.Rooted) :
    Hubs (recordsIn es) (replay settings es) := by
  refine replay_induction (P := fun es g => Hubs (recordsIn es) g) settings hes (hubs_empty settings) ?_ ?_
  · intro es s hold hplan h
    rw [recordsIn_concat_fold]
    exact h.fold (sound_replay settings hold) hplan
  · intro es agent task summary hold h
    rw [recordsIn_concat_record]
    exact h.record (sound_replay settings hold) agent task summary

/-- In every run of folds and recordings the memories are those that wait in the queue of the records, and what a
recording makes the queue drop is all that the graph loses by it. -/
theorem queues_replay (settings : GraphSettings) (hes : ∀ e ∈ es, e.Rooted) (hids : ∀ e ∈ es, e.Slashless) :
    Queues (recordsIn es) (MemoryQueue.ofRecords settings.memoryCapacity (recordsIn es)).waiting
        (replay settings es) ∧
      ∀ agent task summary, ∃ dropped,
        (MemoryQueue.ofRecords settings.memoryCapacity (recordsIn es ++ [(agent, task)])).dropped
          = (MemoryQueue.ofRecords settings.memoryCapacity (recordsIn es)).dropped ++ dropped ∧
        ((replay settings es).remember agent task summary).graph.Drops dropped
          ((replay settings es).record agent task summary).graph := by
  have hsound := sound_replay settings hes
  have hmemories := memories_replay settings hes
  refine ⟨⟨spoked_replay settings hes hids, hubs_replay settings hes, hmemories, fun key => ?_⟩,
    fun agent task summary => ?_⟩
  · rw [kind?_eq_memory_iff hsound, hmemories]
  · have hcapacity := congrArg GraphSettings.memoryCapacity (settings_replay settings hes)
    obtain ⟨-, dropped, hdropped, hdrops, -⟩ := drops_record_enqueue hsound hcapacity hmemories
      (MemoryQueue.length_waiting_le _ _) agent task summary
    rw [MemoryQueue.ofRecords_concat]
    exact ⟨dropped, hdropped, hdrops⟩

/-! ### The run of two memories -/

theorem slashless_sampleRun : ∀ e ∈ sampleRun, e.Slashless := by
  simp [sampleRun, MemoryEvent.Slashless]

/-- With room for one memory, the second one has taken the place of the first, and a third one takes its own. -/
theorem queues_replay_sampleRun :
    (∀ e ∈ sampleRun, e.Rooted) ∧ (∀ e ∈ sampleRun, e.Slashless) ∧
    Queues [(⟨"agent-1"⟩, "task-1"), (⟨"agent-1"⟩, "task-2")] ["memory://agent-1/task-2"]
      (replay ⟨true, true, 1, 8, 1⟩ sampleRun) ∧
    ((replay ⟨true, true, 1, 8, 1⟩ sampleRun).remember ⟨"agent-1"⟩ "task-3" "").graph.Drops
      ["memory://agent-1/task-2"]
      ((replay ⟨true, true, 1, 8, 1⟩ sampleRun).record ⟨"agent-1"⟩ "task-3" "").graph := by
  obtain ⟨hqueues, hdrops⟩ := queues_replay ⟨true, true, 1, 8, 1⟩ rooted_sampleRun slashless_sampleRun
  have hwaiting : (MemoryQueue.ofRecords 1 (recordsIn sampleRun)).waiting = ["memory://agent-1/task-2"] := by
    decide
  obtain ⟨dropped, hdropped, hdrops⟩ := hdrops ⟨"agent-1"⟩ "task-3" ""
  have hlog : (MemoryQueue.ofRecords 1 (recordsIn sampleRun)).dropped = ["memory://agent-1/task-1"] ∧
      (MemoryQueue.ofRecords 1 (recordsIn sampleRun ++ [(⟨"agent-1"⟩, "task-3")])).dropped
        = ["memory://agent-1/task-1", "memory://agent-1/task-2"] := by
    decide
  rw [hwaiting] at hqueues
  rw [hlog.1, hlog.2, List.singleton_append, List.cons.injEq] at hdropped
  rw [← hdropped.2] at hdrops
  exact ⟨rooted_sampleRun, slashless_sampleRun, hqueues, hdrops⟩

end MemoryGraph

end EchoEngine
