import EchoEngine.Memory.Graph
import EchoEngine.Proofs.Text.Pieces
import Mathlib.Data.List.TakeWhile

/-!
# Keys

The keys of files and directories start with a slash, as long as the root does (`IsPath`); those of
hubs and memories do not, and no hub shares its key with a memory.  The key of a directory below a
root determines the pieces of the path that leads to it (`directoryKey_inj`).
-/

namespace EchoEngine

/-! ### Paths -/

/-- The keys of files and directories. -/
def IsPath (key : String) : Prop :=
  key.toList.head? = some '/'

theorem IsPath.append {s : String} (h : IsPath s) (t : String) : IsPath (s ++ t) := by
  unfold IsPath at *
  rw [String.toList_append, List.head?_append, h]
  rfl

theorem not_isPath_hubKey (agent : AgentId) : ¬IsPath (MemoryGraph.hubKey agent) := by
  simp [IsPath, MemoryGraph.hubKey, String.toList_append]

theorem not_isPath_memoryKey (agent : AgentId) (task : String) :
    ¬IsPath (MemoryGraph.memoryKey agent task) := by
  simp [IsPath, MemoryGraph.memoryKey, String.toList_append]

/-- The keys of memories. -/
def IsMemory (key : String) : Prop :=
  ∃ agent task, key = MemoryGraph.memoryKey agent task

theorem not_isMemory_of_isPath {key : String} (h : IsPath key) : ¬IsMemory key := by
  rintro ⟨agent, task, rfl⟩
  exact not_isPath_memoryKey agent task h

theorem not_isMemory_hubKey (agent : AgentId) : ¬IsMemory (MemoryGraph.hubKey agent) := by
  rintro ⟨other, task, h⟩
  have := congrArg (fun s : String => s.toList.head?) h
  simp [MemoryGraph.hubKey, MemoryGraph.memoryKey, String.toList_append] at this

theorem memoryKey_ne_hubKey (agent other : AgentId) (task : String) :
    MemoryGraph.memoryKey agent task ≠ MemoryGraph.hubKey other :=
  fun h => not_isMemory_hubKey other ⟨agent, task, h.symm⟩

theorem hubKey_inj {a b : AgentId} (h : MemoryGraph.hubKey a = MemoryGraph.hubKey b) : a = b := by
  cases a
  cases b
  exact congrArg AgentId.mk ((String.append_right_inj "agent://").1 h)

/-- The key of a memory determines its agent and its task, as an id without slashes ends at the first one. -/
theorem memoryKey_inj {a b : AgentId} (ha : '/' ∉ a.text.toList) (hb : '/' ∉ b.text.toList)
    {task task' : String} (h : MemoryGraph.memoryKey a task = MemoryGraph.memoryKey b task') :
    a = b ∧ task = task' := by
  have hchars : a.text.toList ++ '/' :: task.toList = b.text.toList ++ '/' :: task'.toList := by
    simpa [MemoryGraph.memoryKey, String.toList_append] using congrArg String.toList h
  have hid : ∀ (id : AgentId) (rest : List Char), '/' ∉ id.text.toList →
      (id.text.toList ++ '/' :: rest).takeWhile (fun c => decide (c ≠ '/')) = id.text.toList := by
    intro id rest hid
    rw [List.takeWhile_append_of_pos]
    · simp
    · intro c hc
      rw [decide_eq_true_eq]
      rintro rfl
      exact hid hc
  have htext : a.text.toList = b.text.toList := by
    rw [← hid a task.toList ha, hchars, hid b task'.toList hb]
  rw [htext, List.append_cancel_left_eq, List.cons_eq_cons] at hchars
  cases a
  cases b
  exact ⟨congrArg AgentId.mk (String.toList_injective htext), String.toList_injective hchars.2⟩

/-- A memory is that of some id without slashes, the one that ends at the first slash. -/
theorem IsMemory.exists_slashless {key : String} (h : IsMemory key) :
    ∃ (agent : AgentId) (task : String), '/' ∉ agent.text.toList ∧ key = MemoryGraph.memoryKey agent task := by
  obtain ⟨agent, task, rfl⟩ := h
  have hslash : '/' ∈ agent.text.toList ++ '/' :: task.toList :=
    List.mem_append_right _ List.mem_cons_self
  obtain ⟨id, rest, hsplit, hid⟩ := List.eq_append_cons_of_mem hslash
  refine ⟨⟨String.ofList id⟩, String.ofList rest, by rwa [String.toList_ofList], ?_⟩
  apply String.toList_injective
  simpa [MemoryGraph.memoryKey, String.toList_append] using hsplit

/-! ### Keys below a root -/

namespace FoldPlan

/-- A root without the slashes at its end; if it has nothing else, one slash. -/
def Normal (root key : String) : Prop :=
  key = "/" ∧ (∀ c ∈ root.toList, c = '/') ∨
    key ≠ "" ∧ key.toList.getLast? ≠ some '/' ∧ ∃ n, root.toList = key.toList ++ List.replicate n '/'

theorem normal_rootKey (root : String) : Normal root (rootKey root) := by
  have hsplit := List.takeWhile_append_dropWhile (p := fun c => decide (c = '/')) (l := root.toList.reverse)
  have hlast := List.head?_dropWhile_not (fun c => decide (c = '/')) root.toList.reverse
  have hslashes : ∀ c ∈ root.toList.reverse.takeWhile (fun c => decide (c = '/')), c = '/' := by
    intro c hc
    simpa using List.mem_takeWhile_imp hc
  obtain ⟨n, hn⟩ : ∃ n, root.toList.reverse.takeWhile (fun c => decide (c = '/')) = List.replicate n '/' :=
    ⟨_, List.eq_replicate_of_mem hslashes⟩
  rw [hn] at hsplit
  unfold rootKey
  cases hcs : root.toList.reverse.dropWhile (fun c => decide (c = '/')) with
  | nil =>
    rw [hcs, List.append_nil, eq_comm, List.reverse_eq_iff, List.reverse_replicate] at hsplit
    refine .inl ⟨rfl, fun c hc => ?_⟩
    rw [hsplit] at hc
    exact List.eq_of_mem_replicate hc
  | cons c cs =>
    rw [hcs] at hlast
    rw [hcs, eq_comm, List.reverse_eq_iff, List.reverse_append, List.reverse_replicate] at hsplit
    refine .inr ⟨by simp [← String.toList_inj], by simpa using hlast, n, ?_⟩
    rw [String.toList_ofList, hsplit]

/-- A path without slashes at the end is a path, the empty one being the root. -/
theorem isPath_rootKey {root : String} (h : IsPath root) : IsPath (rootKey root) := by
  rcases normal_rootKey root with ⟨hkey, -⟩ | ⟨hne, -, n, hroot⟩
  · rw [hkey]
    rfl
  · -- what is dropped stands at the end, so the first character stays
    unfold IsPath at h ⊢
    rwa [hroot, List.head?_append_of_ne_nil _ (by simpa using hne)] at h

theorem isPath_keyBelow {root : String} (h : IsPath root) (rel : String) : IsPath (keyBelow root rel) := by
  unfold keyBelow
  split
  · exact h.append rel
  · exact (h.append "/").append rel

theorem isPath_directoryKey {root : String} (h : IsPath root) (pieces : List String) :
    IsPath (directoryKey root pieces) := by
  cases pieces with
  | nil => exact h
  | cons piece above => exact isPath_keyBelow h _

theorem keyBelow_inj {root a b : String} (h : keyBelow root a = keyBelow root b) : a = b := by
  unfold keyBelow at h
  split at h <;> exact (String.append_right_inj _).1 h

/-- Pieces of a path hold no slash. -/
def Pieces (pieces : List String) : Prop :=
  ∀ p ∈ pieces, '/' ∉ p.toList

theorem pieces_directoryPieces (path : String) : Pieces (directoryPieces path) := by
  intro p hp
  exact Text.not_mem_of_mem_splitBy (List.mem_reverse.1 (List.mem_of_mem_drop hp))

/-- On a way without empty pieces, every rest starts with a name. -/
theorem ne_empty_of_suffix {piece : String} {above way : List String} (h : piece :: above <:+ way) (hway : "" ∉ way) :
    piece ≠ "" := by
  rintro rfl
  exact hway (h.subset List.mem_cons_self)

private theorem intercalate_slash_inj {a b : List String} (ha : Pieces a) (hb : Pieces b) (hna : a ≠ [])
    (hnb : b ≠ []) (h : "/".intercalate a = "/".intercalate b) : a = b := by
  rw [← Text.splitBy_intercalate ha hna, h, Text.splitBy_intercalate hb hnb]

/-- The key of a directory below a root determines the pieces that lead to it. -/
theorem directoryKey_inj {root a b : String} {as bs : List String} (ha : Pieces (a :: as))
    (hb : Pieces (b :: bs)) (h : directoryKey root (a :: as) = directoryKey root (b :: bs)) :
    a :: as = b :: bs := by
  have hrev := intercalate_slash_inj (a := (a :: as).reverse) (b := (b :: bs).reverse)
    (fun p hp => ha p (List.mem_reverse.1 hp)) (fun p hp => hb p (List.mem_reverse.1 hp))
    (by simp) (by simp) (keyBelow_inj h)
  exact List.reverse_injective hrev

/-- A directory that shares its key with the root lies directly below it. -/
theorem eq_nil_of_directoryKey_eq_root {root piece : String} {above : List String}
    (h : directoryKey root (piece :: above) = root) : above = [] := by
  have hslash : "/".toList.length = 1 := rfl
  simp only [directoryKey, keyBelow] at h
  split at h
  · cases above with
    | nil => rfl
    | cons q above =>
      have hlen := congrArg (fun s : String => s.toList.length) h
      rw [List.reverse_cons, String.intercalate_append_of_ne_nil (by simp) (by simp)] at hlen
      simp only [String.toList_append, List.length_append] at hlen
      omega
  · have hlen := congrArg (fun s : String => s.toList.length) h
    simp only [String.toList_append, List.length_append] at hlen
    omega

end FoldPlan

end EchoEngine
