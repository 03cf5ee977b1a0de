import EchoEngine.Proofs.Memory.Queue

/-!
# Reported growth

Folding and recording report how many nodes and edges they have created.  A memory that is dropped takes one node
and one edge with it, so what the reports of a run add up to is the size of the graph and the number of memories
that have been dropped on the way (`growth_replay`).  All else that has once been there stays (`Persists`).
-/

namespace EchoEngine

variable {α : Type}

/-! ### Creating -/

namespace Growing

/-- A graph has grown by what has been created. -/
structure Grown (g : MemoryGraph α) (w : Growing α) : Prop where
  nodes : w.graph.nodeCount = g.nodeCount + w.created.nodes
  edges : w.graph.edgeCount = g.edgeCount + w.created.edges

variable {g : MemoryGraph α} {w : Growing α}

theorem grown_start (g : MemoryGraph α) : Grown g ⟨g, .none⟩ :=
  ⟨rfl, rfl⟩

theorem Grown.meet (h : Grown g w) (key : String) (n : MemoryNode α) : Grown g (w.meet key n) := by
  have hsize : (w.meet key n).graph.nodeCount
      = if w.graph.contains key then w.graph.nodeCount else w.graph.nodeCount + 1 := by
    rw [graph_meet]
    exact Std.ExtTreeMap.size_insert
  refine ⟨?_, ?_⟩
  · rw [hsize, created_meet]
    split
    · exact h.nodes
    · exact congrArg (· + 1) h.nodes
  · rw [graph_meet, created_meet]
    split <;> exact h.edges

theorem Grown.meetMemory (h : Grown g w) (key : String) (n : MemoryNode α) : Grown g (w.meetMemory key n) :=
  ⟨(h.meet key n).nodes, (h.meet key n).edges⟩

theorem Grown.join (h : Grown g w) (a b : String) : Grown g (w.join a b) := by
  unfold Growing.join
  split
  · exact h
  · exact ⟨h.nodes, congrArg (· + 1) h.edges⟩

theorem Grown.joinAncestor (h : Grown g w) (key parent : String) : Grown g (w.joinAncestor key parent) := by
  rcases joinAncestor_cases w key parent with hw | hw
  · rw [hw]
    exact h.join key parent
  · rwa [hw]

theorem Grown.addFile (h : Grown g w) (f : PlannedFile α) : Grown g (w.addFile f) := by
  have hcarry : Grown g (w.carry f.key f.topics) := ⟨h.nodes, h.edges⟩
  have hjoined := (hcarry.meet f.key (.ofFile f)).joinAncestor f.key f.directory
  exact ⟨hjoined.nodes, hjoined.edges⟩

theorem Grown.joinPartners (h : Grown g w) (f : PlannedFile α) : Grown g (w.joinPartners f) :=
  List.foldlRecOn (motive := Grown g) _ _ h fun _ hw other _ => hw.join f.key other

variable [Scalar α]

theorem Grown.addDirectory (h : Grown g w) (d : String × Option String) : Grown g (w.addDirectory d) := by
  have hmeet := h.meet d.1 (.ofDirectory d.2)
  rcases addDirectory_cases w d with ⟨-, hw⟩ | ⟨parent, -, hw⟩
  · rwa [hw]
  · rw [hw]
    exact hmeet.joinAncestor d.1 parent

theorem grown_enter (g : MemoryGraph α) (plan : FoldPlan α) : Grown g (g.enter plan) :=
  MemoryGraph.enter_induction (grown_start g) (fun _ d parent _ hw => hw.addDirectory (d, parent))
    fun _ f _ hw => hw.addFile f

theorem grown_fold (g : MemoryGraph α) (plan : FoldPlan α) : Grown g (g.fold plan) :=
  joinTopics_induction (grown_enter g plan) fun _ f _ hw => hw.joinPartners f

theorem grown_remember (g : MemoryGraph α) (agent : AgentId) (task summary : String) :
    Grown g (g.remember agent task summary) :=
  (((grown_start g).meet _ _).meetMemory _ _).join _ _

end Growing

namespace MemoryGraph

open MemoryEvent

variable {g g' g'' : MemoryGraph α}

/-! ### Dropping -/

/-- A memory has one edge, to the hub of its agent. -/
theorem Spoked.length_neighbors (h : g.Spoked) (hsound : g.Sound ∅) {key : String} (hkey : key ∈ g.memories) :
    (g.neighbors key).length = 1 := by
  obtain ⟨agent, task, hid, rfl⟩ := ((hsound.mem_memories key).1 hkey).2.exists_slashless
  have hperm : (g.neighbors (memoryKey agent task)).Perm [hubKey agent] := by
    rw [List.perm_ext_iff_of_nodup (nodup_neighbors _ _) (List.nodup_singleton _)]
    intro other
    rw [mem_neighbors, List.mem_singleton]
    exact h.memory agent task hid hkey other
  exact hperm.length_eq

/-- For each memory that goes, one node and one edge go. -/
structure Shrinks (g g' : MemoryGraph α) : Prop where
  nodes : g'.nodeCount + g.memories.length = g.nodeCount + g'.memories.length
  edges : g'.edgeCount + g.memories.length = g.edgeCount + g'.memories.length

theorem Shrinks.trans (h : g.Shrinks g') (h' : g'.Shrinks g'') : g.Shrinks g'' where
  nodes := by
    have hfirst := h.nodes
    have hsecond := h'.nodes
    omega
  edges := by
    have hfirst := h.edges
    have hsecond := h'.edges
    omega

theorem Spoked.shrinks_dropOldest (h : g.Spoked) (hsound : g.Sound ∅) : g.Shrinks g.dropOldest := by
  unfold dropOldest
  split
  · exact ⟨rfl, rfl⟩
  · rename_i oldest rest hcons
    have holdest : oldest ∈ g.memories := by
      rw [hcons]
      exact List.mem_cons_self
    have hneighbors := h.length_neighbors hsound holdest
    have hedges := hsound.length_neighbors_le oldest
    have hcontains : g.nodes.contains oldest := ((hsound.mem_memories oldest).1 holdest).1
    -- both counts are taken down by one, and neither of them is zero
    have hnodes : g.nodes.size ≠ 0 := fun hzero =>
      Std.ExtTreeMap.ne_empty_of_mem hcontains (Std.ExtTreeMap.eq_empty_iff_size_eq_zero.2 hzero)
    rw [remove_eq]
    constructor
    · have herase : (g.nodes.erase oldest).size = g.nodes.size - 1 := by
        rw [Std.ExtTreeMap.size_erase, if_pos hcontains]
      simp only [nodeCount, herase, hcons, List.length_cons]
      omega
    · change g.edgeCount - (g.neighbors oldest).length + _ = _
      simp only [hcons, List.length_cons]
      omega

theorem Spoked.shrinks_repeat_dropOldest (h : g.Spoked) (hsound : g.Sound ∅) (n : Nat) :
    g.Shrinks (Nat.repeat dropOldest n g) := by
  induction n with
  | zero => exact ⟨rfl, rfl⟩
  | succ n ih =>
    have hstage : (Nat.repeat dropOldest n g).Spoked := by
      refine h.of_drops hsound (drops_repeat_dropOldest hsound n) ?_
      rw [memories_repeat_dropOldest]
      exact (List.take_append_drop n g.memories).symm
    exact ih.trans (hstage.shrinks_dropOldest (hsound.repeat_dropOldest n))

/-! ### What stays -/

/-- There is a node that is no memory. -/
def Lasting (g : MemoryGraph α) (key : String) : Prop :=
  ∃ kind, kind ≠ .memory ∧ g.kind? key = some kind

/-- All that a graph holds but for memories and their edges a later one holds too. -/
structure Persists (g g' : MemoryGraph α) : Prop where
  node : ∀ key kind, kind ≠ .memory → g.kind? key = some kind → g'.kind? key = some kind
  edge : ∀ a b, g.Lasting a → g.Lasting b → g.adjacent a b → g'.adjacent a b
  member : ∀ directory key, key ∈ g.hyperedges.members directory → key ∈ g'.hyperedges.members directory

theorem Persists.refl (g : MemoryGraph α) : g.Persists g :=
  ⟨fun _ _ _ h => h, fun _ _ _ _ h => h, fun _ _ h => h⟩

theorem Persists.trans (h : g.Persists g') (h' : g'.Persists g'') : g.Persists g'' where
  node key kind hkind hkey := h'.node key kind hkind (h.node key kind hkind hkey)
  edge a b ha hb hab := by
    have hlasting : ∀ key, g.Lasting key → g'.Lasting key := fun key hkey =>
      hkey.imp fun kind hkind => ⟨hkind.1, h.node key kind hkind.1 hkind.2⟩
    exact h'.edge a b (hlasting a ha) (hlasting b hb) (h.edge a b ha hb hab)
  member directory key hkey := h'.member directory key (h.member directory key hkey)

section

variable [Scalar α]

theorem persists_fold (hsound : g.Sound ∅) (hapart : g.Apart) {plan : FoldPlan α} (hplan : plan.Closed) :
    g.Persists (g.fold plan).graph where
  node key kind _ hkey := by rw [kind?_fold, hkey, Option.some_or, Option.some_or]
  edge a b _ _ hab := by
    -- an edge joins two paths, or two keys that a fold does not touch
    by_cases ha : IsPath a
    · exact (extends_fold g plan).adjacent a b ha ((hapart a b hab).1 ha) hab
    · rwa [(sameMemories_fold hsound hplan).toAgreeOn.adjacent ha b]
  member directory key hkey := (extends_fold g plan).hyperedge directory key hkey

theorem persists_record (hsound : g.Sound ∅) (agent : AgentId) (task summary : String) :
    g.Persists (g.record agent task summary).graph := by
  have hremembered := hsound.remember agent task summary
  have hdrops := (drops_record hsound agent task summary).1
  have hkind : ∀ key kind, g.kind? key = some kind →
      (g.remember agent task summary).graph.kind? key = some kind := by
    intro key kind hkey
    rw [kind?_remember, hkey]
    split
    · rfl
    · split <;> rfl
  have hkept : ∀ key, g.Lasting key →
      key ∉ (g.remember agent task summary).graph.memories.rdrop g.settings.memoryCapacity := by
    rintro key ⟨kind, hne, hkey⟩ hmem
    have hmemory := (kind?_eq_memory_iff hremembered key).2 (List.mem_of_mem_take hmem)
    rw [hkind key kind hkey] at hmemory
    exact hne (Option.some.inj hmemory)
  refine ⟨fun key kind hne hkey => ?_, fun a b ha hb hab => ?_, fun directory key hkey => ?_⟩
  · exact hdrops.kind?_iff.2 ⟨hkept key ⟨kind, hne, hkey⟩, hkind key kind hkey⟩
  · exact (hdrops.adjacent a b).2
      ⟨hkept a ha, hkept b hb, (adjacent_remember hsound.symmetric agent task summary a b).2 (.inl hab)⟩
  · rwa [(sameOnPaths_record hsound agent task summary).hyperedges]

/-! ### Runs -/

/-- What an event reports to have created. -/
def reported (g : MemoryGraph α) : MemoryEvent α → Growth
  | .fold s => (g.fold (.ofSnapshot s)).created
  | .record agent task summary => (g.record agent task summary).created

/-- What events report one after another. -/
def reports (g : MemoryGraph α) : List (MemoryEvent α) → List Growth
  | [] => []
  | e :: es => g.reported e :: (g.apply e).reports es

theorem reports_concat (g : MemoryGraph α) (es : List (MemoryEvent α)) (e : MemoryEvent α) :
    g.reports (es ++ [e]) = g.reports es ++ [(g.applyAll es).reported e] := by
  induction es generalizing g with
  | nil => rfl
  | cons e' es ih => exact congrArg (g.reported e' :: ·) (ih (g.apply e'))

/-- The size of a graph and the number of keys dropped on the way make up what has been reported. -/
structure Accounts (growths : List Growth) (dropped : List String) (g : MemoryGraph α) : Prop where
  nodes : g.nodeCount + dropped.length = (growths.map (·.nodes)).sum
  edges : g.edgeCount + dropped.length = (growths.map (·.edges)).sum

omit [Scalar α] in
theorem Accounts.concat {growths : List Growth} {dropped more : List String} {growth : Growth}
    (h : Accounts growths dropped g) (hnodes : g'.nodeCount + more.length = g.nodeCount + growth.nodes)
    (hedges : g'.edgeCount + more.length = g.edgeCount + growth.edges) :
    Accounts (growths ++ [growth]) (dropped ++ more) g' where
  nodes := by
    rw [List.map_append, List.sum_append, ← h.nodes, List.length_append, List.map_singleton, List.sum_singleton]
    omega
  edges := by
    rw [List.map_append, List.sum_append, ← h.edges, List.length_append, List.map_singleton, List.sum_singleton]
    omega

theorem Accounts.fold {growths : List Growth} {dropped : List String} (h : Accounts growths dropped g)
    (s : Snapshot α) : Accounts (growths ++ [g.reported (.fold s)]) dropped (g.apply (.fold s)) := by
  have hgrown := Growing.grown_fold g (.ofSnapshot s)
  have hconcat : Accounts (growths ++ [g.reported (.fold s)]) (dropped ++ []) (g.apply (.fold s)) :=
    h.concat hgrown.nodes hgrown.edges
  rwa [List.append_nil] at hconcat

/-- What has been created is there, but for what has been dropped at once. -/
theorem Accounts.record {growths : List Growth} {dropped more : List String} (h : Accounts growths dropped g)
    (hspoked : g.Spoked) (hsound : g.Sound ∅) {agent : AgentId} (hid : '/' ∉ agent.text.toList)
    (task summary : String) (hmemories : (g.remember agent task summary).graph.memories
      = more ++ (g.record agent task summary).graph.memories) :
    Accounts (growths ++ [g.reported (.record agent task summary)]) (dropped ++ more)
      (g.apply (.record agent task summary)) := by
  have hgrown := Growing.grown_remember g agent task summary
  have hshrinks : (g.remember agent task summary).graph.Shrinks (g.record agent task summary).graph :=
    (hspoked.remember hsound hid task summary).shrinks_repeat_dropOldest (hsound.remember agent task summary) _
  have hnodes := hshrinks.nodes
  have hedges := hshrinks.edges
  rw [hmemories, List.length_append, hgrown.nodes] at hnodes
  rw [hmemories, List.length_append, hgrown.edges] at hedges
  refine h.concat ?_ ?_
  · change (g.record agent task summary).graph.nodeCount + _ = _ + (g.remember agent task summary).created.nodes
    omega
  · change (g.record agent task summary).graph.edgeCount + _ = _ + (g.remember agent task summary).created.edges
    omega

variable {es : List (MemoryEvent α)}

theorem accounts_replay (settings : GraphSettings) (hes : ∀ e ∈ es, e.Rooted) (hids : ∀ e ∈ es, e.Slashless) :
    Accounts ((empty settings).reports es)
      (MemoryQueue.ofRecords settings.memoryCapacity (recordsIn es)).dropped (replay settings es) := by
  revert hids
  refine replay_induction (P := fun es g => (∀ e ∈ es, e.Slashless) → Accounts ((empty settings).reports es)
    (MemoryQueue.ofRecords settings.memoryCapacity (recordsIn es)).dropped g) settings hes
    (fun _ => ⟨rfl, rfl⟩) ?_ ?_
  · intro es s hold hplan h hids
    rw [reports_concat, recordsIn_concat_fold]
    exact (h (List.forall_mem_append.1 hids).1).fold s
  · intro es agent task summary hold h hids
    have hsound := sound_replay settings hold
    have hid : '/' ∉ agent.text.toList := hids (.record agent task summary) (by simp)
    have hids' : ∀ e ∈ es, e.Slashless := (List.forall_mem_append.1 hids).1
    have hcapacity := congrArg GraphSettings.memoryCapacity (settings_replay settings hold)
    obtain ⟨-, dropped, hdropped, -, hmemories⟩ := drops_record_enqueue hsound hcapacity
      (memories_replay settings hold) (MemoryQueue.length_waiting_le _ _) agent task summary
    rw [reports_concat, recordsIn_concat_record, MemoryQueue.ofRecords_concat, hdropped]
    exact (h hids').record (spoked_replay settings hold hids') hsound hid task summary hmemories

theorem persists_replay (settings : GraphSettings) {later : List (MemoryEvent α)}
    (hes : ∀ e ∈ es ++ later, e.Rooted) : (replay settings es).Persists (replay settings (es ++ later)) := by
  induction later using List.reverseRecOn with
  | nil =>
    rw [List.append_nil]
    exact .refl _
  | append_singleton later e ih =>
    rw [← List.append_assoc] at hes ⊢
    have hold : ∀ e ∈ es ++ later, e.Rooted := (List.forall_mem_append.1 hes).1
    have hsound := sound_replay settings hold
    rw [replay_concat]
    refine (ih hold).trans ?_
    cases e with
    | fold s =>
      have hplan := FoldPlan.closed_ofSnapshot s (hes (.fold s) (by simp))
      exact persists_fold hsound (apart_replay settings hold) hplan
    | record agent task summary => exact persists_record hsound agent task summary

/-- In every run of folds and recordings the reports add up to the size of the graph and to the memories that have
been dropped, and what is no memory stays from each stage of the run to the last. -/
theorem growth_replay (settings : GraphSettings) (hes : ∀ e ∈ es, e.Rooted) (hids : ∀ e ∈ es, e.Slashless) :
    Accounts ((empty settings).reports es)
        (MemoryQueue.ofRecords settings.memoryCapacity (recordsIn es)).dropped (replay settings es) ∧
      ∀ before, before <+: es → (replay settings before).Persists (replay settings es) := by
  refine ⟨accounts_replay settings hes hids, ?_⟩
  rintro before ⟨later, rfl⟩
  exact persists_replay settings hes

/-- The run of two trees and two memories has dropped the first memory. -/
theorem growth_replay_sampleRun :
    (∀ e ∈ sampleRun, e.Rooted) ∧ (∀ e ∈ sampleRun, e.Slashless) ∧
    Accounts ((empty ⟨true, true, 1, 8, 1⟩).reports sampleRun) ["memory://agent-1/task-1"]
      (replay ⟨true, true, 1, 8, 1⟩ sampleRun) ∧
    ∀ before, before <+: sampleRun →
      (replay ⟨true, true, 1, 8, 1⟩ before).Persists (replay ⟨true, true, 1, 8, 1⟩ sampleRun) := by
  have hdropped : (MemoryQueue.ofRecords 1 (recordsIn sampleRun)).dropped = ["memory://agent-1/task-1"] := by
    decide
  obtain ⟨haccounts, hpersists⟩ := growth_replay ⟨true, true, 1, 8, 1⟩ rooted_sampleRun slashless_sampleRun
  rw [hdropped] at haccounts
  exact ⟨rooted_sampleRun, slashless_sampleRun, haccounts, hpersists⟩

end

end MemoryGraph

end EchoEngine
