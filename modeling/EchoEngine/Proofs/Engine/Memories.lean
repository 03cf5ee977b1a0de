import EchoEngine.Proofs.Capability.Registry
import EchoEngine.Proofs.Cognition.History
import EchoEngine.Proofs.Engine.Runs
import EchoEngine.Proofs.Memory.Remembered

/-!
# The memories of agents and of the graph

A completed task is committed to its agent, and separately it is reported to the tracker, whose graph has a
memory of it.  The two never come apart: what the graph lives through in a run are the snapshots of its
introspections and its completed tasks (`graph_run`), and these are also what agents recall.  While there is
room, and no agent completes two tasks of one id, the memories of the graph are those of the agents
(`memoriesAgree_run`).

Agents are created under fresh ids.  These hold no slash, so the key of a memory tells its agent and its task,
and they do not repeat, so no agent takes the place of another one with all that this one remembers.
-/

namespace EchoEngine

/-! ### Fresh ids -/

private theorem hexDigit_ne_slash {n : Nat} (h : n < 16) : Json.hexDigit n ≠ '/' := by
  have hall : ∀ i : Fin 16, Json.hexDigit i ≠ '/' := by decide
  exact hall ⟨n, h⟩

private theorem slash_not_mem_hexDigits (count n : Nat) : '/' ∉ hexDigits count n := by
  intro h
  obtain ⟨i, -, hi⟩ := List.mem_map.1 h
  exact hexDigit_ne_slash (Nat.mod_lt _ (by decide)) hi

theorem AgentId.slash_not_mem_fresh (random : Nat) : '/' ∉ (fresh random).text.toList := by
  have hpart : ∀ {part : List Char}, part.Sublist (hexDigits 32 random) → '/' ∉ part :=
    fun hsub hmem => slash_not_mem_hexDigits 32 random (hsub.subset hmem)
  have hfirst := hpart (List.take_sublist 8 _)
  have hmiddle : ∀ k m, '/' ∉ ((hexDigits 32 random).drop k).take m := fun k m =>
    hpart ((List.take_sublist m _).trans (List.drop_sublist k _))
  have hlast := hpart (List.drop_sublist 20 _)
  have hvariant : Json.hexDigit (8 + random / Nat.pow 16 15 % 4) ≠ '/' := hexDigit_ne_slash (by omega)
  simp [fresh, uuidText, String.toList_append, hfirst, hmiddle, hlast, hvariant.symm]

/-- The id of an agent that an event creates. -/
def EngineEvent.created? : EngineEvent → Option AgentId
  | createAgent id _ _ _ => some id
  | createAgentNamed id typeName _ _ =>
    match AgentType.ofName typeName with
    | .ok _ => some id
    | .error _ => none
  | _ => none

/-- Agents are created under ids of random bits, and none of them twice. -/
structure FreshIds (es : List EngineEvent) : Prop where
  fresh : ∀ id ∈ es.filterMap EngineEvent.created?, ∃ random, id = .fresh random
  nodup : (es.filterMap EngineEvent.created?).Nodup

theorem EngineEvent.birth?_isSome (event : EngineEvent) (id : AgentId) :
    (event.birth? id).isSome ↔ event.created? = some id := by
  cases event with
  | createAgent id' type label now =>
    by_cases h : id' = id <;> simp [birth?, created?, h]
  | createAgentNamed id' typeName label now =>
    simp only [birth?, created?]
    cases AgentType.ofName typeName with
    | ok type => by_cases h : id' = id <;> simp [h]
    | error err => simp
  | _ => simp [birth?, created?]

namespace Engine

open MemoryEvent MemoryGraph

theorem birthIn?_isSome (es : List EngineEvent) (id : AgentId) :
    (birthIn? es id).isSome ↔ id ∈ es.filterMap EngineEvent.created? := by
  rw [birthIn?, List.findSome?_isSome_iff, List.mem_filterMap]
  simp only [List.mem_reverse, EngineEvent.birth?_isSome]

/-! ### Completed tasks -/

/-- The task that an event completes, with its agent. -/
def completed? : Engine × EngineEvent → Option (AgentId × Completion)
  | (e, .execute t agent o now) =>
    if (e.execute t agent o now).result.isCompleted then
      some (agent, ⟨t, (e.execute t agent o now).result.output, now⟩)
    else none
  | _ => none

/-- The tasks that a run completes, with their agents. -/
def completions (e : Engine) (es : List EngineEvent) : List (AgentId × Completion) :=
  (e.trace es).filterMap completed?

theorem completions_concat (e : Engine) (es : List EngineEvent) (event : EngineEvent) :
    e.completions (es ++ [event]) = e.completions es ++ (completed? (e.run es, event)).toList := by
  rw [completions, trace_concat, List.filterMap_append]
  cases h : completed? (e.run es, event) <;> simp [completions, h]

theorem completion?_eq (id : AgentId) (p : Engine × EngineEvent) :
    (completion? id p).toList = ((completed? p).toList.filter (·.1 = id)).map Prod.snd := by
  obtain ⟨e, event⟩ := p
  cases event with
  | execute t agent o now =>
    simp only [completion?, completed?]
    cases (e.execute t agent o now).result.isCompleted with
    | false => simp
    | true => by_cases hagent : agent = id <;> simp [hagent]
  | _ => rfl

/-- Only a stored agent completes a task. -/
theorem exists_agent_of_completed {e : Engine} {event : EngineEvent} {c : AgentId × Completion}
    (h : completed? (e, event) = some c) : ∃ a, e.agents.get? c.1 = some a := by
  cases event with
  | execute t agent o now =>
    simp only [completed?] at h
    split at h
    · rename_i hcompleted
      cases h
      by_cases hreach : e.Reaches t agent
      · exact Option.isSome_iff_exists.1 hreach.2.2
      · obtain ⟨err, hrun⟩ := execute_of_not_reaches o now hreach
        rw [hrun] at hcompleted
        cases hcompleted
    · cases h
  | _ => cases h

variable {e : Engine} {settings : AgentSettings}

/-- What completes a task has been created before. -/
theorem created_of_mem_completions (he : e.agents = .new settings) {es : List EngineEvent}
    {c : AgentId × Completion} (hc : c ∈ e.completions es) : c.1 ∈ es.filterMap EngineEvent.created? := by
  induction es using List.reverseRecOn with
  | nil => cases hc
  | append_singleton es event ih =>
    rw [completions_concat, List.mem_append, Option.mem_toList] at hc
    rw [List.filterMap_append, List.mem_append]
    left
    rcases hc with hc | hc
    · exact ih hc
    · obtain ⟨a, ha⟩ := exists_agent_of_completed hc
      rw [get?_run he, Option.map_eq_some_iff] at ha
      obtain ⟨b, hb, -⟩ := ha
      rw [← birthIn?_isSome, hb]
      rfl

/-- Where no agent is created twice, an agent has completed all tasks that are completed under its id. -/
theorem completedBy_eq (he : e.agents = .new settings) {es : List EngineEvent}
    (hes : (es.filterMap EngineEvent.created?).Nodup) (id : AgentId) :
    e.completedBy id es = ((e.completions es).filter (·.1 = id)).map Prod.snd := by
  induction es using List.reverseRecOn with
  | nil => rfl
  | append_singleton es event ih =>
    rw [List.filterMap_append, List.nodup_append] at hes
    obtain ⟨hold, -, hnew⟩ := hes
    rw [completedBy_concat, completions_concat, List.filter_append, List.map_append, ← completion?_eq, ← ih hold]
    split
    · rfl
    · rename_i hbirth
      have hcreated : event.created? = some id := by
        rw [← EngineEvent.birth?_isSome, Option.isSome_iff_ne_none]
        simpa using hbirth
      have hnone : completion? id (e.run es, event) = none := by
        cases event <;> first | rfl | cases hcreated
      -- what is created only now has completed nothing yet
      have hnothing : e.completedBy id es = [] := by
        rw [ih hold, List.map_eq_nil_iff, List.filter_eq_nil_iff]
        intro c hc hid
        rw [decide_eq_true_eq] at hid
        have hbefore := created_of_mem_completions he hc
        rw [hid] at hbefore
        exact hnew id hbefore id (by simp [hcreated]) rfl
      rw [hnothing, hnone]
      rfl

/-! ### What the graph lives through -/

/-- What the graph of an engine lives through with an event. -/
def memoryEvent? : Engine × EngineEvent → Option (MemoryEvent Float)
  | (e, .introspect world root coherence novelty) =>
    (e.introspect world root coherence novelty).toOption.map fun r => .fold r.2.snapshot
  | (e, .execute t agent o now) =>
    (completed? (e, .execute t agent o now)).map fun c =>
      .record c.1 c.2.task.id (c.2.task.input ++ " " ++ c.2.output)
  | _ => none

/-- What the graph of an engine lives through in a run. -/
def memoryEvents (e : Engine) (es : List EngineEvent) : List (MemoryEvent Float) :=
  (e.trace es).filterMap memoryEvent?

theorem memoryEvents_concat (e : Engine) (es : List EngineEvent) (event : EngineEvent) :
    e.memoryEvents (es ++ [event]) = e.memoryEvents es ++ (memoryEvent? (e.run es, event)).toList := by
  rw [memoryEvents, trace_concat, List.filterMap_append]
  cases h : memoryEvent? (e.run es, event) <;> simp [memoryEvents, h]

/-- What the graph is told of an execution is what the agent commits. -/
private theorem graph_execute (e : Engine) (t : Task) (agent : AgentId) (o : ExecutionOptions)
    (now : Timestamp) (hid : ∀ a, e.agents.get? agent = some a → a.id = agent) :
    (e.execute t agent o now).engine.tracker.graph
      = e.tracker.graph.applyAll (memoryEvent? (e, .execute t agent o now)).toList := by
  by_cases hreach : e.Reaches t agent
  · obtain ⟨a, ha, hrun⟩ := execute_of_reaches o now hreach
    cases hout : e.output { t with status := .running } a o with
    | ok s =>
      rw [hout, finish_ok _ _ _ _ _ rfl] at hrun
      have hrecord := Tracker.graph_step e.tracker (.record ⟨a.id, t.id, t.type, true, t.input ++ " " ++ s⟩)
      rw [memoryEvent?, completed?, hrun, ← hid a ha]
      exact hrecord
    | error err =>
      rw [hout, finish_error _ _ _ _ _ rfl] at hrun
      rw [memoryEvent?, completed?, hrun]
      rfl
  · obtain ⟨err, hrun⟩ := execute_of_not_reaches o now hreach
    rw [memoryEvent?, completed?, hrun]
    rfl

theorem graph_step (e : Engine) (event : EngineEvent)
    (hids : ∀ id a, e.agents.get? id = some a → a.id = id) :
    (e.step event).tracker.graph = e.tracker.graph.applyAll (memoryEvent? (e, event)).toList := by
  cases event with
  | registerTool h =>
    simp only [step, registerTool]
    cases e.tools.register h <;> rfl
  | registerPlugin h =>
    simp only [step, registerPlugin]
    cases e.plugins.register h <;> rfl
  | createAgentNamed id typeName label now =>
    simp only [step, createAgentNamed]
    cases AgentType.ofName typeName <;> rfl
  | introspect world root coherence novelty =>
    simp only [step, memoryEvent?, introspect]
    cases Weights.new coherence novelty with
    | error err => rfl
    | ok weights =>
      cases hscan : e.scanner.scan world root weights with
      | error err =>
        simp only [bind, Except.bind, hscan]
        rfl
      | ok snapshot =>
        simp only [bind, Except.bind, hscan]
        rfl
  | execute t agent o now => exact graph_execute e t agent o now (hids agent)
  | _ => rfl

theorem graph_run (he : e.agents = .new settings) (es : List EngineEvent) :
    (e.run es).tracker.graph = e.tracker.graph.applyAll (e.memoryEvents es) := by
  induction es using List.reverseRecOn with
  | nil => rfl
  | append_singleton es event ih =>
    have hids : ∀ id a, (e.run es).agents.get? id = some a → a.id = id := by
      intro id a ha
      rw [get?_run he, Option.map_eq_some_iff] at ha
      obtain ⟨b, -, rfl⟩ := ha
      rfl
    rw [run_concat, graph_step _ _ hids, ih, memoryEvents_concat, applyAll, applyAll, applyAll,
      List.foldl_append]

/-- A scan starts at an absolute path. -/
theorem isPath_root_of_scan {α : Type} [Scalar α] {scanner : Scanner} {world : Files.World} {root : String}
    {weights : Weights α} {s : Snapshot α} (h : scanner.scan world root weights = .ok s) : IsPath s.root := by
  unfold Scanner.scan at h
  split at h
  · cases h
  · split at h
    · cases h
      exact IsPath.append (s := "/") rfl _
    · cases h

theorem exists_scan_of_introspect {e : Engine} {world : Files.World} {root : String} {coherence novelty : Float}
    {r : Engine × Introspection} (h : e.introspect world root coherence novelty = .ok r) :
    ∃ weights : Weights Float, e.scanner.scan world root weights = .ok r.2.snapshot := by
  unfold introspect at h
  cases hweights : Weights.new coherence novelty with
  | error err =>
    rw [hweights] at h
    cases h
  | ok weights =>
    cases hscan : e.scanner.scan world root weights with
    | error err =>
      simp only [bind, Except.bind, hweights, hscan] at h
      cases h
    | ok snapshot =>
      simp only [bind, Except.bind, hweights, hscan] at h
      cases h
      exact ⟨weights, hscan⟩

theorem rooted_memoryEvents (e : Engine) (es : List EngineEvent) : ∀ m ∈ e.memoryEvents es, m.Rooted := by
  intro m hm
  obtain ⟨⟨e', event⟩, -, hevent⟩ := List.mem_filterMap.1 hm
  cases event with
  | introspect world root coherence novelty =>
    cases hresult : e'.introspect world root coherence novelty with
    | error err =>
      rw [memoryEvent?, hresult] at hevent
      cases hevent
    | ok r =>
      rw [memoryEvent?, hresult] at hevent
      cases hevent
      obtain ⟨weights, hscan⟩ := exists_scan_of_introspect hresult
      exact isPath_root_of_scan hscan
  | execute t agent o now =>
    obtain ⟨c, -, rfl⟩ := Option.map_eq_some_iff.1 hevent
    trivial
  | _ => cases hevent

/-- The graph has a record of every completed task. -/
theorem recordsIn_memoryEvents (e : Engine) (es : List EngineEvent) :
    recordsIn (e.memoryEvents es) = (e.completions es).map fun c => (c.1, c.2.task.id) := by
  rw [recordsIn, memoryEvents, completions, List.filterMap_filterMap, List.map_filterMap]
  apply List.filterMap_congr
  rintro ⟨e', event⟩ -
  cases event with
  | introspect world root coherence novelty =>
    rw [memoryEvent?]
    cases e'.introspect world root coherence novelty <;> rfl
  | execute t agent o now =>
    rw [memoryEvent?]
    cases completed? (e', .execute t agent o now) <;> rfl
  | _ => rfl

/-- The graph of a new engine is empty. -/
theorem graph_withBackend {settings : Settings} {backend : Backend} {e : Engine}
    (h : withBackend settings backend = .ok e) : e.tracker.graph = .empty settings.graph := by
  obtain ⟨scanner, rfl⟩ := eq_of_withBackend h
  rfl

/-! ### Both sides -/

/-- The memories of a graph are those of agents that have completed tasks. -/
structure MemoriesAgree (e : Engine) (cs : List (AgentId × Completion)) : Prop where
  memory_iff : ∀ key, e.tracker.graph.kind? key = some .memory ↔
    ∃ id a, e.agents.get? id = some a ∧ ∃ m ∈ a.state.memory, key = memoryKey id m.task
  adjacent : ∀ id a, e.agents.get? id = some a → ∀ m ∈ a.state.memory,
    e.tracker.graph.adjacent (memoryKey id m.task) (hubKey id)
  agent_iff : ∀ key, e.tracker.graph.kind? key = some .agent ↔ ∃ c ∈ cs, key = hubKey c.1
  hub_iff : ∀ id, e.tracker.graph.contains (hubKey id) ↔ ∃ c ∈ cs, c.1 = id
  length_entries : (e.agents.toList.map fun a => a.state.memory.length).sum = cs.length
  length_nodes : (e.tracker.graph.nodesOf .memory).length = cs.length

/-- Each item is counted once among the keys. -/
private theorem sum_countP {β γ : Type} [DecidableEq γ] {keys : List γ} (hkeys : keys.Nodup) (f : β → γ)
    {xs : List β} (hxs : ∀ x ∈ xs, f x ∈ keys) :
    (keys.map fun k => xs.countP fun x => f x = k).sum = xs.length := by
  induction xs with
  | nil => simp
  | cons x xs ih =>
    have hone : (keys.map fun k => if f x = k then 1 else 0).sum = 1 := by
      rw [← List.sum_toFinset _ hkeys, Finset.sum_ite_eq, if_pos (List.mem_toFinset.2 (hxs x (by simp)))]
    simp only [List.countP_cons, decide_eq_true_eq, List.sum_map_add, hone, List.length_cons]
    rw [ih fun y hy => hxs y (List.mem_cons_of_mem x hy)]

section

variable (he : e.agents = .new settings) {es : List EngineEvent}

include he

/-- What completes a task is still there at the end of the run. -/
theorem exists_agent_of_mem_completions {c : AgentId × Completion} (hc : c ∈ e.completions es) :
    ∃ a, (e.run es).agents.get? c.1 = some a := by
  have hborn := (birthIn?_isSome es c.1).2 (created_of_mem_completions he hc)
  obtain ⟨b, hb⟩ := Option.isSome_iff_exists.1 hborn
  exact ⟨_, (get?_run he es c.1).trans (congrArg _ hb)⟩

/-- Tasks that differ in their agents or their ids have memories of different keys. -/
theorem nodup_memoryKeys (hids : FreshIds es)
    (honce : ((e.completions es).map fun c => (c.1, c.2.task.id)).Nodup) :
    (((e.completions es).map fun c => (c.1, c.2.task.id)).map fun r => memoryKey r.1 r.2).Nodup := by
  have hslash : ∀ c ∈ e.completions es, '/' ∉ c.1.text.toList := by
    intro c hc
    obtain ⟨random, hrandom⟩ := hids.fresh c.1 (created_of_mem_completions he hc)
    rw [hrandom]
    exact AgentId.slash_not_mem_fresh random
  refine honce.map_on ?_
  intro r hr r' hr' hkey
  obtain ⟨c, hc, rfl⟩ := List.mem_map.1 hr
  obtain ⟨c', hc', rfl⟩ := List.mem_map.1 hr'
  obtain ⟨hid, htask⟩ := memoryKey_inj (hslash c hc) (hslash c' hc') hkey
  exact Prod.ext hid htask

variable (hcap : settings.memoryCapacity = none) (hes : (es.filterMap EngineEvent.created?).Nodup)

include hcap hes

/-- Without a limit the memory of an agent has an entry for every task completed under its id. -/
theorem memory_run {id : AgentId} {a : Agent} (ha : (e.run es).agents.get? id = some a) :
    a.state.memory = ((e.completions es).filter (·.1 = id)).map fun c => c.2.entry := by
  rw [get?_run he, Option.map_eq_some_iff] at ha
  obtain ⟨b, -, rfl⟩ := ha
  have hall : (b.agent settings id (e.completedBy id es)).state.memory
      = (e.completedBy id es).map Completion.entry := by
    simp [Birth.agent, AgentState.recalled, hcap]
  rw [hall, completedBy_eq he hes, List.map_map]
  rfl

/-- Together the memories of all agents have an entry for every completed task. -/
theorem sum_length_memory :
    ((e.run es).agents.toList.map fun a => a.state.memory.length).sum = (e.completions es).length := by
  have hmemory : ∀ p ∈ (e.run es).agents.agents.toList,
      p.2.state.memory.length = (e.completions es).countP fun c => c.1 = ⟨p.1⟩ := by
    rintro ⟨text, a⟩ hp
    have ha : (e.run es).agents.get? ⟨text⟩ = some a := Std.ExtTreeMap.mem_toList_iff_getElem?_eq_some.1 hp
    rw [memory_run he hcap hes ha, List.length_map, List.countP_eq_length_filter]
  have hkeys : ((e.run es).agents.agents.keys.map AgentId.mk).Nodup :=
    Std.ExtTreeMap.nodup_keys.map fun _ _ h => congrArg AgentId.text h
  have hstored : ∀ c ∈ e.completions es, c.1 ∈ (e.run es).agents.agents.keys.map AgentId.mk := by
    intro c hc
    obtain ⟨a, ha⟩ := exists_agent_of_mem_completions he hc
    refine List.mem_map.2 ⟨c.1.text, ?_, rfl⟩
    rw [Std.ExtTreeMap.mem_keys, Std.ExtTreeMap.mem_iff_isSome_getElem?]
    exact Option.isSome_iff_exists.2 ⟨a, ha⟩
  calc ((e.run es).agents.toList.map fun a => a.state.memory.length).sum
      = ((e.run es).agents.agents.values.map fun a => a.state.memory.length).sum :=
        ((List.mergeSort_perm _ _).map _).sum_eq
    _ = ((e.run es).agents.agents.toList.map fun p => p.2.state.memory.length).sum := by
        rw [values_eq_map_toList, List.map_map]
        rfl
    _ = (((e.run es).agents.agents.keys.map AgentId.mk).map fun id =>
          (e.completions es).countP fun c => c.1 = id).sum := by
        rw [List.map_congr_left hmemory, ← Std.ExtTreeMap.map_fst_toList_eq_keys, List.map_map, List.map_map]
        rfl
    _ = (e.completions es).length := sum_countP hkeys Prod.fst hstored

end

/-- At the end of a run the memories of the graph are those of the agents.  The run starts with a new engine
(`agents_withBackend`, `graph_withBackend`), the agents have no limit, no agent completes two tasks of one id,
and there is room for a memory of every completed task. -/
theorem memoriesAgree_run (settings : AgentSettings) (graph : GraphSettings) (e : Engine)
    (he : e.agents = .new settings) (hgraph : e.tracker.graph = .empty graph)
    (hcap : settings.memoryCapacity = none) (es : List EngineEvent) (hids : FreshIds es)
    (honce : ((e.completions es).map fun c => (c.1, c.2.task.id)).Nodup)
    (hroom : (e.completions es).length ≤ graph.memoryCapacity) :
    (e.run es).MemoriesAgree (e.completions es) := by
  have hrun : (e.run es).tracker.graph = replay graph (e.memoryEvents es) := by
    rw [graph_run he, hgraph, replay]
  have hrooted := rooted_memoryEvents e es
  have hsound : (e.run es).tracker.graph.Sound ∅ := by
    rw [hrun]
    exact sound_replay graph hrooted
  have hkeeps : Keeps ((e.completions es).map fun c => (c.1, c.2.task.id)) (e.run es).tracker.graph := by
    rw [hrun, ← recordsIn_memoryEvents]
    exact keeps_replay graph hrooted (by rwa [recordsIn_memoryEvents, List.length_map])
  have hentry : ∀ id a, (e.run es).agents.get? id = some a → ∀ m,
      m ∈ a.state.memory ↔ ∃ c ∈ e.completions es, c.1 = id ∧ c.2.entry = m := by
    intro id a ha m
    simp [memory_run he hcap hids.nodup ha, and_assoc]
  refine ⟨?_, ?_, ?_, ?_, sum_length_memory he hcap hids.nodup, ?_⟩
  · intro key
    rw [kind?_eq_memory_iff hsound, hkeeps.mem_memories]
    constructor
    · rintro ⟨r, hr, rfl⟩
      obtain ⟨c, hc, rfl⟩ := List.mem_map.1 hr
      obtain ⟨a, ha⟩ := exists_agent_of_mem_completions he hc
      exact ⟨c.1, a, ha, c.2.entry, (hentry c.1 a ha _).2 ⟨c, hc, rfl, rfl⟩, rfl⟩
    · rintro ⟨id, a, ha, m, hm, rfl⟩
      obtain ⟨c, hc, rfl, rfl⟩ := (hentry id a ha m).1 hm
      exact ⟨_, List.mem_map_of_mem hc, rfl⟩
  · intro id a ha m hm
    obtain ⟨c, hc, rfl, rfl⟩ := (hentry id a ha m).1 hm
    exact hkeeps.adjacent (c.1, c.2.task.id) (List.mem_map_of_mem hc)
  · intro key
    simp only [hkeeps.agent_iff, List.mem_map, exists_exists_and_eq_and]
  · intro id
    simp only [hkeeps.contains_hubKey, List.mem_map, exists_exists_and_eq_and]
  · rw [hkeeps.length_nodesOf hsound (nodup_memoryKeys he hids honce), List.length_map]

/-! ### A run of two agents -/

def sampleCompletions : List EngineEvent :=
  [.createAgent (.fresh 1) .general "reader" ⟨0, 0⟩,
    .createAgent (.fresh 2) .general "writer" ⟨0, 0⟩,
    .execute (.new "task-1" .analyze "read" (.fresh 1)) (.fresh 1) ⟨none, false⟩ ⟨1, 0⟩,
    .execute (.new "task-1" .analyze "write" (.fresh 2)) (.fresh 2) ⟨none, false⟩ ⟨2, 0⟩,
    .execute (.new "task-2" .analyze " " (.fresh 1)) (.fresh 1) ⟨none, false⟩ ⟨3, 0⟩]

/-- The third task fails, since its output is blank. -/
theorem memoriesAgree_run_sampleCompletions :
    (sampleEngine.run sampleCompletions).MemoriesAgree
      [(.fresh 1, ⟨.new "task-1" .analyze "read" (.fresh 1), "read", ⟨1, 0⟩⟩),
        (.fresh 2, ⟨.new "task-1" .analyze "write" (.fresh 2), "write", ⟨2, 0⟩⟩)] := by
  have hcompletions : sampleEngine.completions sampleCompletions
      = [(.fresh 1, ⟨.new "task-1" .analyze "read" (.fresh 1), "read", ⟨1, 0⟩⟩),
        (.fresh 2, ⟨.new "task-1" .analyze "write" (.fresh 2), "write", ⟨2, 0⟩⟩)] := rfl
  have hids : FreshIds sampleCompletions := by
    have hcreated : sampleCompletions.filterMap EngineEvent.created? = [.fresh 1, .fresh 2] := rfl
    refine ⟨?_, ?_⟩
    · rw [hcreated]
      simp
    · rw [hcreated]
      decide
  have hrun := memoriesAgree_run .standard .standard sampleEngine rfl rfl rfl sampleCompletions hids
  rw [hcompletions] at hrun
  exact hrun (by decide) (by decide)

end Engine

end EchoEngine
