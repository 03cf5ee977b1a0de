import EchoEngine.Agent.Memory
import EchoEngine.Proofs.Agent.Window

/-!
# What an agent recalls

The state of an agent can be read off the tasks that it has completed (`AgentState.recalled`): its context is a
window on their inputs and outputs, its memory has a line about each of them.  A window that is cut after every
item is cut no differently at the end (`rtake_rtake_append`), whether it lets items go one by one, as the
context does, or all that are too many at once, as the memory does.  So one more completed task leads from what
is recalled of the earlier ones to what is recalled of all (`commit_recalled`).
-/

namespace EchoEngine

/-! ### Windows -/

namespace ContextWindow

/-- The window after items have been pushed to a new one. -/
def ofItems (capacity : Nat) (items : List ContextItem) : ContextWindow :=
  ⟨max capacity 1, items.rtake (max capacity 1), .ofNat (items.length - max capacity 1)⟩

theorem ofItems_eq (capacity : Nat) (items : List ContextItem) :
    ofItems capacity items = (new capacity).pushAll items := by
  have hlength : items.rtake (max capacity 1) = items.rtake (min items.length (max capacity 1)) := by
    rw [List.rtake, List.rtake]
    congr 1
    omega
  have hafter : (new capacity).lengthAfter items.length = min items.length (max capacity 1) := by
    simp only [lengthAfter, new, List.length_nil]
    omega
  rw [pushAll_eq, hafter, ofItems, hlength]
  simp [new]

theorem push_ofItems (capacity : Nat) (items : List ContextItem) (i : ContextItem) :
    (ofItems capacity items).push i = ofItems capacity (items ++ [i]) := by
  rw [ofItems_eq, ofItems_eq, pushAll_concat]

/-- A handler sees the last items of a window. -/
theorem recent_eq (w : ContextWindow) (n : Nat) :
    w.recent n = (w.items.rtake (min n w.items.length)).map (·.content) := by
  have hskip : w.items.length - min n w.items.length = w.items.length - n := by omega
  rw [recent, List.rtake, hskip]

end ContextWindow

/-! ### Completed tasks -/

/-- A task that has been completed with an output. -/
structure Completion where
  task : Task
  output : String
  time : Timestamp

namespace Completion

/-- What a completed task adds to the context. -/
def items (c : Completion) : List ContextItem :=
  [⟨.input, c.task.input, c.task.id, c.time⟩, ⟨.output, c.output, c.task.id, c.time⟩]

/-- What it adds to the memory. -/
def entry (c : Completion) : MemoryEntry :=
  ⟨c.task.id, c.task.type, MemoryEntry.summarize c.task c.output, c.time⟩

end Completion

attribute [ext] AgentState

namespace AgentState

/-- The state of an agent that has completed tasks, the last of them last. -/
def recalled (s : AgentSettings) (cs : List Completion) : AgentState where
  context := ⟨max s.contextCapacity 1, (cs.flatMap Completion.items).rtake (max s.contextCapacity 1),
    .ofNat (2 * cs.length - max s.contextCapacity 1)⟩
  memory := match s.memoryCapacity with
    | some n => (cs.map Completion.entry).rtake (max n 1)
    | none => cs.map Completion.entry
  lastInteraction := cs.getLast?.map (·.time)
  memoryCapacity := s.memoryCapacity

theorem recalled_nil (s : AgentSettings) : recalled s [] = new s := by
  cases hcapacity : s.memoryCapacity <;> simp [recalled, new, ContextWindow.new, hcapacity]

private theorem length_flatMap_items (cs : List Completion) :
    (cs.flatMap Completion.items).length = 2 * cs.length := by
  simp [List.length_flatMap, Completion.items, Nat.mul_comm]

private theorem context_recalled (s : AgentSettings) (cs : List Completion) :
    (recalled s cs).context = .ofItems s.contextCapacity (cs.flatMap Completion.items) := by
  rw [ContextWindow.ofItems, length_flatMap_items]
  rfl

private theorem keepNewest_memory_recalled (s : AgentSettings) (cs : List Completion) (c : Completion) :
    keepNewest s.memoryCapacity ((recalled s cs).memory ++ [c.entry]) = (recalled s (cs ++ [c])).memory := by
  unfold keepNewest recalled
  rw [List.map_append, List.map_singleton]
  cases s.memoryCapacity with
  | none => rfl
  | some n => exact rtake_rtake_append (cs.map Completion.entry) [c.entry] (Nat.le_add_right _ _)

/-- One more completed task leads from what is recalled to what is recalled with it. -/
theorem commit_recalled (s : AgentSettings) (cs : List Completion) (c : Completion) :
    (recalled s cs).commit c.task c.output c.time = recalled s (cs ++ [c]) := by
  have hcontext : ((recalled s cs).commit c.task c.output c.time).context = (recalled s (cs ++ [c])).context := by
    rw [context_recalled, commit, context_recalled, ContextWindow.push_ofItems, ContextWindow.push_ofItems,
      List.flatMap_append, List.flatMap_singleton, List.append_assoc]
    rfl
  have hlast : some c.time = (recalled s (cs ++ [c])).lastInteraction := by simp [recalled]
  exact AgentState.ext hcontext (keepNewest_memory_recalled s cs c) hlast rfl

/-- All items that have had to go are counted, up to what 64 bits can count. -/
theorem evicted_recalled (s : AgentSettings) {cs : List Completion} (h : 2 * cs.length < UInt64.size) :
    (recalled s cs).context.evicted = 2 * cs.length - max s.contextCapacity 1 := by
  rw [recalled, ContextWindow.evicted]
  exact UInt64.toNat_ofNat_of_lt' (Nat.lt_of_le_of_lt (Nat.sub_le _ _) h)

/-- An agent has interacted if and only if it has completed a task. -/
theorem isSome_lastInteraction_recalled (s : AgentSettings) (cs : List Completion) :
    (recalled s cs).lastInteraction.isSome ↔ 0 < cs.length := by
  simp [recalled, List.length_pos_iff]

/-- A capacity leaves the newest memory. -/
theorem exists_keepNewest (capacity : Option Nat) (memory : List MemoryEntry) (m : MemoryEntry) :
    ∃ kept, kept <:+ memory ∧ keepNewest capacity (memory ++ [m]) = kept ++ [m] := by
  cases capacity with
  | none => exact ⟨memory, List.suffix_refl _, rfl⟩
  | some n =>
    have hdropped : (memory ++ [m]).length - max n 1 ≤ memory.length := by
      rw [List.length_append, List.length_singleton]
      omega
    exact ⟨memory.drop _, List.drop_suffix _ _, List.drop_append_of_le_length hdropped⟩

/-- What is recalled are memories of completed tasks. -/
theorem exists_of_mem_memory_recalled {settings : AgentSettings} {cs : List Completion} {m : MemoryEntry}
    (h : m ∈ (recalled settings cs).memory) : ∃ c ∈ cs, c.entry = m := by
  rw [← List.mem_map]
  unfold recalled at h
  cases hcapacity : settings.memoryCapacity with
  | none => rwa [hcapacity] at h
  | some n =>
    rw [hcapacity] at h
    exact List.mem_of_mem_drop h

end AgentState

end EchoEngine
