import EchoEngine.Agent.Context
import Mathlib.Data.List.DropRight

/-!
# The bound of a context window

A window holds the last of all items that it has been given, and what it starts from decides how many
(`pushAll_eq`).  Pushes mend nothing and break nothing: a window keeps to its capacity after any of them exactly
if it did so before all of them (`keepsBound_pushAll_iff`).  New windows do.  A window that is read has the
capacity and the items that were written, and these need not fit each other.

A push into a full window counts an item that has to go before it looks for one.  So the count is the number of
items given back, save that a window without capacity counts its first item as one that had to go, and that a counter
at its end cannot count one more (`Counts`).  A new window is far from that; one that is read may be as near as it gets.
-/

namespace EchoEngine

/-- Cutting a list before it grows makes no difference to the last items, if enough of them are left. -/
theorem rtake_rtake_append {β : Type} {n k : Nat} (xs ys : List β) (h : k ≤ n + ys.length) :
    (xs.rtake n ++ ys).rtake k = (xs ++ ys).rtake k := by
  have hmin : min (k - ys.length) n = k - ys.length := by omega
  simp only [List.rtake_eq_reverse_take_reverse, List.reverse_append, List.reverse_reverse,
    List.take_append, List.take_take, List.length_reverse, hmin]

namespace ContextWindow

/-- The window after items have been pushed, one after the other. -/
def pushAll (w : ContextWindow) (items : List ContextItem) : ContextWindow :=
  items.foldl push w

/-- How many items a window holds when `n` have been pushed: it does not shrink, and grows up to its capacity. -/
def lengthAfter (w : ContextWindow) (n : Nat) : Nat :=
  max w.items.length (min (w.items.length + n) (max w.capacity 1))

/-- The counter has numbers left for all that has to go in so many pushes. -/
def Counts (w : ContextWindow) (n : Nat) : Prop :=
  w.evicted + (n - (w.capacity - w.items.length)) < UInt64.size

/-- A window with room, which holds no more than it has room for, and whose next push counts one more item that
has had to go if and only if it gives one back. -/
structure KeepsBound (w : ContextWindow) : Prop where
  one_le_capacity : 1 ≤ w.capacity
  length_le : w.items.length ≤ w.capacity
  evicted_push : ∀ i, (w.push i).evicted = w.evicted + if w.evictedBy.isSome then 1 else 0

/-! ### One push -/

/-- A push keeps the last items, and counts one that has to go if the window is full. -/
theorem push_eq (w : ContextWindow) (i : ContextItem) :
    w.push i = ⟨w.capacity, (w.items ++ [i]).rtake (w.lengthAfter 1),
      if w.capacity ≤ w.items.length then w.counter + 1 else w.counter⟩ := by
  unfold push isFull List.rtake
  simp only [decide_eq_true_eq, List.length_append, List.length_singleton]
  split
  · rename_i hfull
    cases hitems : w.items with
    | nil =>
      -- the new item is all there is, even where there is room for none
      have hlength : w.lengthAfter 1 = 1 := by
        rw [hitems, List.length_nil] at hfull
        rw [lengthAfter, hitems, List.length_nil]
        omega
      rw [hlength]
      rfl
    | cons j rest =>
      have hlength : w.lengthAfter 1 = rest.length + 1 := by
        rw [hitems, List.length_cons] at hfull
        rw [lengthAfter, hitems, List.length_cons]
        omega
      rw [hlength, List.length_cons]
      simp
  · rename_i hroom
    have hlength : w.lengthAfter 1 = w.items.length + 1 := by
      rw [lengthAfter]
      omega
    rw [hlength, Nat.sub_self, List.drop_zero]

/-- An item is given back by a window that is full and not empty. -/
theorem isSome_evictedBy_iff {w : ContextWindow} :
    w.evictedBy.isSome ↔ w.capacity ≤ w.items.length ∧ w.items ≠ [] := by
  unfold evictedBy isFull
  split
  · rename_i hfull
    rw [decide_eq_true_eq] at hfull
    rw [List.isSome_head?, and_iff_right hfull]
  · rename_i hroom
    rw [decide_eq_true_eq] at hroom
    exact iff_of_false (by simp) fun h => hroom h.1

/-- What is given back and what is kept is what was there with the new item. -/
theorem toList_evictedBy_append (w : ContextWindow) (i : ContextItem) :
    w.evictedBy.toList ++ (w.push i).items = w.items ++ [i] := by
  unfold evictedBy push
  split
  · cases w.items <;> rfl
  · rfl

theorem evicted_push (w : ContextWindow) (i : ContextItem) : (w.push i).evicted =
    if w.capacity ≤ w.items.length then (w.evicted + 1) % UInt64.size else w.evicted := by
  rw [push_eq, evicted]
  split
  · exact UInt64.toNat_add w.counter 1
  · rfl

/-- A push counts what it gives back, unless the window has no capacity and nothing in it, or the counter is at its
end. -/
theorem evicted_push_iff {w : ContextWindow} (i : ContextItem) :
    (w.push i).evicted = w.evicted + (if w.evictedBy.isSome then 1 else 0) ↔
      ¬(w.capacity = 0 ∧ w.items = []) ∧ w.Counts 1 := by
  have hcounter : w.evicted < UInt64.size := w.counter.toNat_lt
  rw [evicted_push, Counts]
  simp only [isSome_evictedBy_iff]
  by_cases hfull : w.capacity ≤ w.items.length
  · rw [if_pos hfull, Nat.sub_eq_zero_of_le hfull]
    by_cases hnil : w.items = []
    · have hzero : w.capacity = 0 := by rwa [hnil, List.length_nil, Nat.le_zero] at hfull
      -- what is counted is the next number or zero, and not the number before
      have hmoves : (w.evicted + 1) % UInt64.size ≠ w.evicted := by
        rw [UInt64.size] at hcounter ⊢
        omega
      simp [hnil, hzero, hmoves]
    · simp only [hfull, ne_eq, hnil, not_false_eq_true, and_self, and_false, if_true, true_and]
      rw [UInt64.size] at hcounter ⊢
      omega
  · have hroom : 1 - (w.capacity - w.items.length) = 0 := by omega
    have hzero : w.capacity ≠ 0 := fun hzero => hfull (hzero ▸ Nat.zero_le _)
    simp [hfull, hroom, hzero, hcounter]

theorem keepsBound_iff (w : ContextWindow) :
    w.KeepsBound ↔ 1 ≤ w.capacity ∧ w.items.length ≤ w.capacity ∧ w.Counts 1 := by
  constructor
  · intro h
    -- any item will do to see what a push counts
    have hcounts := ((evicted_push_iff _).1 (h.evicted_push ⟨.input, "", "", ⟨0, 0⟩⟩)).2
    exact ⟨h.one_le_capacity, h.length_le, hcounts⟩
  · rintro ⟨hpos, hle, hcounts⟩
    refine ⟨hpos, hle, fun i => (evicted_push_iff i).2 ⟨?_, hcounts⟩⟩
    omega

/-! ### All pushes -/

theorem pushAll_concat (w : ContextWindow) (items : List ContextItem) (i : ContextItem) :
    w.pushAll (items ++ [i]) = (w.pushAll items).push i := by
  rw [pushAll, List.foldl_append]
  rfl

/-- A window holds the last items of all that it has been given, and has counted the others. -/
theorem pushAll_eq (w : ContextWindow) (items : List ContextItem) :
    w.pushAll items = ⟨w.capacity, (w.items ++ items).rtake (w.lengthAfter items.length),
      w.counter + .ofNat (items.length - (w.capacity - w.items.length))⟩ := by
  induction items using List.reverseRecOn with
  | nil =>
    have hlength : w.lengthAfter 0 = w.items.length := by
      rw [lengthAfter]
      omega
    simp [pushAll, hlength, List.rtake]
  | append_singleton items i ih =>
    have hcapacity : (w.pushAll items).capacity = w.capacity := by rw [ih]
    have hitems : (w.pushAll items).items = (w.items ++ items).rtake (w.lengthAfter items.length) := by
      rw [ih]
    have hcounter : (w.pushAll items).counter =
        w.counter + .ofNat (items.length - (w.capacity - w.items.length)) := by
      rw [ih]
    have hlength : (w.pushAll items).items.length = w.lengthAfter items.length := by
      rw [hitems, List.rtake, List.length_drop, List.length_append, lengthAfter]
      omega
    have hgrows : (w.pushAll items).lengthAfter 1 = w.lengthAfter (items.length + 1) := by
      rw [lengthAfter, hlength, hcapacity]
      unfold lengthAfter
      omega
    have hkept : w.lengthAfter (items.length + 1) ≤ w.lengthAfter items.length + [i].length := by
      rw [List.length_singleton, lengthAfter, lengthAfter]
      omega
    rw [pushAll_concat, push_eq, hcapacity, hlength, hgrows, hitems, hcounter, rtake_rtake_append _ _ hkept,
      List.append_assoc, List.length_append, List.length_singleton, mk.injEq]
    refine ⟨rfl, rfl, ?_⟩
    split
    · rename_i hfull
      have hcounted : items.length + 1 - (w.capacity - w.items.length) =
          items.length - (w.capacity - w.items.length) + 1 := by
        rw [lengthAfter] at hfull
        omega
      rw [hcounted, UInt64.ofNat_add, UInt64.add_assoc]
      rfl
    · rename_i hroom
      have hcounted : items.length + 1 - (w.capacity - w.items.length) =
          items.length - (w.capacity - w.items.length) := by
        rw [lengthAfter] at hroom
        omega
      rw [hcounted]

theorem length_pushAll (w : ContextWindow) (items : List ContextItem) :
    (w.pushAll items).items.length = w.lengthAfter items.length := by
  rw [pushAll_eq, List.rtake, List.length_drop, List.length_append, lengthAfter]
  omega

/-- As long as there are numbers left, every item that has to go is counted. -/
theorem evicted_pushAll {w : ContextWindow} {items : List ContextItem} (h : w.Counts items.length) :
    (w.pushAll items).evicted = w.evicted + (items.length - (w.capacity - w.items.length)) := by
  rw [Counts, evicted] at h
  rw [pushAll_eq, evicted, evicted, UInt64.toNat_add, UInt64.toNat_ofNat', Nat.add_mod_mod]
  exact Nat.mod_eq_of_lt h

/-- Pushes neither bring a window to keep to its capacity nor keep it from doing so, if the counter does not come to
its end. -/
theorem keepsBound_pushAll_iff (w : ContextWindow) (items : List ContextItem) :
    (w.pushAll items).KeepsBound ↔
      1 ≤ w.capacity ∧ w.items.length ≤ w.capacity ∧ (w.pushAll items).Counts 1 := by
  have hcapacity : (w.pushAll items).capacity = w.capacity := by rw [pushAll_eq]
  have hfits : 1 ≤ w.capacity → (w.lengthAfter items.length ≤ w.capacity ↔ w.items.length ≤ w.capacity) := by
    rw [lengthAfter]
    omega
  rw [keepsBound_iff, hcapacity, length_pushAll]
  exact and_congr_right fun hpos => and_congr_left fun _ => hfits hpos

/-- A window can count one push more if it could before as many pushes. -/
theorem Counts.pushAll {w : ContextWindow} {items : List ContextItem} (h : w.Counts (items.length + 1)) :
    (w.pushAll items).Counts 1 := by
  have hcapacity : (w.pushAll items).capacity = w.capacity := by rw [pushAll_eq]
  rw [Counts] at h
  have hbefore : w.Counts items.length := by
    rw [Counts]
    omega
  have hevicted := evicted_pushAll hbefore
  rw [Counts, hcapacity, length_pushAll, hevicted, lengthAfter]
  omega

/-- A new window keeps to its capacity whatever is pushed, up to what 64 bits can count.  One that is read does so
exactly if there is room in it, its items fit, and it can count one push more; in any case it holds the last of its
items, a push loses none without giving it back, and what is counted is what is given back, but for the first item of
an empty window without capacity and for a counter at its end. -/
theorem keepsBound_of_new_or_read (pushed : List ContextItem) :
    (∀ capacity, pushed.length < UInt64.size → ((new capacity).pushAll pushed).KeepsBound) ∧
    ∀ v start, ofJson? v = some start →
      ((start.pushAll pushed).KeepsBound ↔
        1 ≤ start.capacity ∧ start.items.length ≤ start.capacity ∧ (start.pushAll pushed).Counts 1) ∧
      start.pushAll pushed = ⟨start.capacity, (start.items ++ pushed).rtake (start.lengthAfter pushed.length),
        start.counter + .ofNat (pushed.length - (start.capacity - start.items.length))⟩ ∧
      (start.Counts pushed.length → (start.pushAll pushed).evicted =
        start.evicted + (pushed.length - (start.capacity - start.items.length))) ∧
      ∀ i, (start.pushAll pushed).evictedBy.toList ++ ((start.pushAll pushed).push i).items =
          (start.pushAll pushed).items ++ [i] ∧
        (((start.pushAll pushed).push i).evicted =
            (start.pushAll pushed).evicted + (if (start.pushAll pushed).evictedBy.isSome then 1 else 0) ↔
          ¬(start.capacity = 0 ∧ start.items = [] ∧ pushed = []) ∧ (start.pushAll pushed).Counts 1) := by
  constructor
  · intro capacity hpushed
    have hcounts : (new capacity).Counts (pushed.length + 1) := by
      change 0 + (pushed.length + 1 - (max capacity 1 - 0)) < UInt64.size
      omega
    rw [keepsBound_pushAll_iff]
    exact ⟨Nat.le_max_right capacity 1, Nat.zero_le _, hcounts.pushAll⟩
  · intro v start _
    refine ⟨keepsBound_pushAll_iff start pushed, pushAll_eq start pushed, evicted_pushAll, fun i => ?_⟩
    have hcapacity : (start.pushAll pushed).capacity = start.capacity := by rw [pushAll_eq]
    have hnil : start.capacity = 0 → ((start.pushAll pushed).items = [] ↔ start.items = [] ∧ pushed = []) := by
      intro hzero
      rw [← List.length_eq_zero_iff, length_pushAll, lengthAfter, ← List.length_eq_zero_iff (l := pushed),
        ← List.length_eq_zero_iff (l := start.items)]
      omega
    refine ⟨toList_evictedBy_append _ i, (evicted_push_iff i).trans (and_congr_left' (not_congr ?_))⟩
    rw [hcapacity]
    exact and_congr_right hnil

def sampleItem (content : String) : ContextItem :=
  ⟨.input, content, "t", ⟨1704067200, 0⟩⟩

/-- A window with more items than it has room for. -/
def crowded : ContextWindow :=
  ⟨1, [sampleItem "a", sampleItem "b"], 7⟩

theorem keepsBound_of_new_or_read_crowded :
    ofJson? crowded.toJson = some crowded ∧ ¬(crowded.pushAll [sampleItem "c"]).KeepsBound ∧
      crowded.pushAll [sampleItem "c"] = ⟨1, [sampleItem "b", sampleItem "c"], 8⟩ ∧
      crowded.Counts 1 ∧ (crowded.pushAll [sampleItem "c"]).evicted = 8 ∧
      [sampleItem "c"].length < UInt64.size ∧ ((new 1).pushAll [sampleItem "c"]).KeepsBound := by
  have hread : ofJson? crowded.toJson = some crowded := by decide +kernel
  obtain ⟨hnew, hread'⟩ := keepsBound_of_new_or_read [sampleItem "c"]
  obtain ⟨hbound, heq, hevicted, -⟩ := hread' _ _ hread
  have hcounts : crowded.Counts [sampleItem "c"].length := by unfold Counts; decide
  have hshort : [sampleItem "c"].length < UInt64.size := by decide
  refine ⟨hread, fun h => absurd (hbound.1 h).2.1 (by decide), heq.trans ?_, hcounts, (hevicted hcounts).trans ?_,
    hshort, hnew 1 hshort⟩
  · decide
  · rfl

/-- What is read may have no room at all: then an item is counted that nothing gives back, and one item too many is
held. -/
theorem not_keepsBound_roomless :
    ofJson? (.obj [("capacity", .int 0), ("items", .arr []), ("evicted", .int 7)]) = some ⟨0, [], 7⟩ ∧
      ¬(⟨0, [], 7⟩ : ContextWindow).KeepsBound ∧
      (⟨0, [], 7⟩ : ContextWindow).evictedBy = none ∧
      ∀ i, (⟨0, [], 7⟩ : ContextWindow).push i = ⟨0, [i], 8⟩ :=
  ⟨rfl, fun h => absurd h.one_le_capacity (by decide), rfl, fun _ => rfl⟩

/-- A counter at its end has no number for the item that a push gives back. -/
example : ¬(⟨1, [sampleItem "a"], 18446744073709551615⟩ : ContextWindow).KeepsBound := by
  rw [keepsBound_iff, Counts]
  decide

end ContextWindow

end EchoEngine
