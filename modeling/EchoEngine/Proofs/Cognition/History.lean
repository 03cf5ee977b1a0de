import EchoEngine.Cognition.Tracker
import EchoEngine.Proofs.Memory.Replay
import Mathlib.Data.List.DropRight
import Mathlib.Data.List.Sort

/-!
# The state as a function of its history

A tracker lives through starts, refreshes, task outcomes and introspections.  Its state can be read off
the events alone (`reflects_run`): thoughts and depth off the era that the latest start has begun, the
size of memory off everything since creation, and the factors of coherence off that part of the era
which the latest start or refresh has settled.

The tracker itself only keeps windows, tallies and totals.  What it keeps is described for any list of
outcomes and coherences (`Tracks`), so that each event is one case and the run is an induction from the
right.
-/

namespace EchoEngine

open Std (ExtTreeMap ExtTreeSet)

variable {α : Type}

/-- What a tracker lives through. -/
inductive TrackerEvent (α : Type) where
  | start (probes : List Probe) (now : Timestamp)
  | refresh (probes : List Probe) (now : Timestamp)
  | record (o : Outcome)
  | fold (s : Snapshot α)

namespace Tracker

variable [Scalar α]

def step (t : Tracker α) : TrackerEvent α → Tracker α
  | .start probes now => t.start probes now
  | .refresh probes now => t.refresh probes now
  | .record o => t.record o
  | .fold s => (t.fold s).1

/-- The tracker after events since its creation. -/
def run (settings : CognitionSettings) (graph : GraphSettings) (es : List (TrackerEvent α)) : Tracker α :=
  es.foldl step (new settings graph)

theorem run_concat (settings : CognitionSettings) (graph : GraphSettings) (es : List (TrackerEvent α))
    (e : TrackerEvent α) : run settings graph (es ++ [e]) = (run settings graph es).step e := by
  simp [run]

end Tracker

/-! ### Reading a history -/

namespace TrackerEvent

def isStart : TrackerEvent α → Bool
  | start _ _ => true
  | _ => false

/-- Whether an event computes everything anew. -/
def settles : TrackerEvent α → Bool
  | start _ _ | refresh _ _ => true
  | _ => false

def outcome? : TrackerEvent α → Option Outcome
  | record o => some o
  | _ => none

def snapshot? : TrackerEvent α → Option (Snapshot α)
  | fold s => some s
  | _ => none

/-- What memory lives through: folds and completed outcomes. -/
def memory? : TrackerEvent α → Option (MemoryEvent α)
  | record o => if o.completed then some (.record o.agent o.task o.summary) else none
  | fold s => some (.fold s)
  | _ => none

/-- The events since the latest start, or since creation. -/
def era (es : List (TrackerEvent α)) : List (TrackerEvent α) :=
  es.rtakeWhile fun e => !e.isStart

/-- The events of an era up to the latest start or refresh. -/
def settled (es : List (TrackerEvent α)) : List (TrackerEvent α) :=
  era (es.rdropWhile fun e => !e.settles)

theorem era_concat (es : List (TrackerEvent α)) (e : TrackerEvent α) :
    era (es ++ [e]) = if e.isStart then [] else era es ++ [e] := by
  rw [era, List.rtakeWhile_concat]
  cases e.isStart <;> rfl

theorem settled_concat (es : List (TrackerEvent α)) (e : TrackerEvent α) :
    settled (es ++ [e]) = if e.settles then era (es ++ [e]) else settled es := by
  rw [settled, List.rdropWhile_concat]
  cases e.settles <;> rfl

example (o : Outcome) (now : Timestamp) :
    settled ([.record o, .start [] now, .record o, .refresh [] now, .record o] : List (TrackerEvent α))
      = [.record o, .refresh [] now] := rfl

def outcomesIn (es : List (TrackerEvent α)) : List Outcome :=
  es.filterMap outcome?

def snapshotsIn (es : List (TrackerEvent α)) : List (Snapshot α) :=
  es.filterMap snapshot?

def memoriesIn (es : List (TrackerEvent α)) : List (MemoryEvent α) :=
  es.filterMap memory?

/-- The depths of the salient files of all snapshots. -/
def depthsIn (es : List (TrackerEvent α)) : List Nat :=
  (snapshotsIn es).flatMap fun s => s.salient.map (·.depth)

theorem outcomesIn_concat (es : List (TrackerEvent α)) (e : TrackerEvent α) :
    outcomesIn (es ++ [e]) = outcomesIn es ++ e.outcome?.toList := by
  cases h : e.outcome? <;> simp [outcomesIn, h]

theorem snapshotsIn_concat (es : List (TrackerEvent α)) (e : TrackerEvent α) :
    snapshotsIn (es ++ [e]) = snapshotsIn es ++ e.snapshot?.toList := by
  cases h : e.snapshot? <;> simp [snapshotsIn, h]

theorem memoriesIn_concat (es : List (TrackerEvent α)) (e : TrackerEvent α) :
    memoriesIn (es ++ [e]) = memoriesIn es ++ e.memory?.toList := by
  cases h : e.memory? <;> simp [memoriesIn, h]

theorem depthsIn_concat (es : List (TrackerEvent α)) (e : TrackerEvent α) :
    depthsIn (es ++ [e]) = depthsIn es ++ e.snapshot?.toList.flatMap fun s => s.salient.map (·.depth) := by
  rw [depthsIn, snapshotsIn_concat, List.flatMap_append, depthsIn]

end TrackerEvent

section Summary

variable [Scalar α]

/-- The share of completed tasks, if there are any tasks. -/
def completedShare? (os : List Outcome) : Option α :=
  if os = [] then none
  else some (Scalar.ofNat (os.countP (·.completed)) / Scalar.ofNat os.length)

/-- The agents with an outcome, by id. -/
def agentsOf (os : List Outcome) : List String :=
  (ExtTreeSet.ofList (os.map (·.agent.text))).toList

def outcomesOf (os : List Outcome) (agent : String) : List Outcome :=
  os.filter (·.agent.text = agent)

/-- How the tasks of an agent have ended, if there are any. -/
def tally? (os : List Outcome) (agent : String) : Option Tally :=
  let own := outcomesOf os agent
  if own = [] then none else some ⟨own.countP (·.completed), own.countP (!·.completed)⟩

/-- The mean of numbers, added up from the first to the last, if there are any. -/
def mean? : List α → Option α
  | [] => none
  | x :: xs => some (xs.foldl (· + ·) x / Scalar.ofNat (xs.length + 1))

/-- The mean over the agents of the share of their tasks that completed, if there are any. -/
def consistency? (os : List Outcome) : Option α :=
  mean? ((agentsOf os).filterMap fun agent => completedShare? (outcomesOf os agent))

/-- The mean coherence of the salient files of each snapshot that has any. -/
def TrackerEvent.coherencesIn (es : List (TrackerEvent α)) : List α :=
  (snapshotsIn es).filterMap fun s => mean? (s.salient.map (·.coherence))

theorem Snapshot.meanCoherence?_eq (s : Snapshot α) : s.meanCoherence? = mean? (s.salient.map (·.coherence)) := by
  rw [meanCoherence?]
  cases s.salient <;> rfl

theorem TrackerEvent.coherencesIn_concat (es : List (TrackerEvent α)) (e : TrackerEvent α) :
    coherencesIn (es ++ [e]) = coherencesIn es ++ (e.snapshot?.bind (·.meanCoherence?)).toList := by
  rw [coherencesIn, snapshotsIn_concat]
  cases e.snapshot? with
  | none => simp [coherencesIn]
  | some s => cases h : mean? (s.salient.map (·.coherence)) <;> simp [coherencesIn, Snapshot.meanCoherence?_eq, h]

end Summary

open TrackerEvent

/-- The factors of coherence are what outcomes and the coherences of snapshots say.  A window for
nothing counts as one for one thing. -/
structure Coherence.Reflects [Scalar α] (c : Coherence α) (settings : CognitionSettings) (os : List Outcome)
    (cs : List α) : Prop where
  stability : c.stability = (completedShare? (os.rtake (max 1 settings.outcomeWindow))).getD 1.0
  memory : c.memory = (consistency? os).getD 1.0
  introspection : c.introspection = mean? (cs.rtake (max 1 settings.introspectionHistory))

/-- A state is what a history says. -/
structure State.Reflects [Scalar α] (s : State α) (settings : CognitionSettings) (graph : GraphSettings)
    (es : List (TrackerEvent α)) : Prop where
  thoughts : s.thoughts = (outcomesIn (era es)).countP fun o => o.completed ∧ (o.type = .reflect ∨ o.type = .analyze)
  depth : s.depth = (depthsIn (era es)).max?.getD 0
  /-- Memory is as large as the graph that all folds and completed outcomes since creation lead to. -/
  resonance : s.resonance = ⟨(MemoryGraph.replay graph (memoriesIn es)).nodeCount,
    (MemoryGraph.replay graph (memoriesIn es)).edgeCount, (MemoryGraph.replay graph (memoriesIn es)).hyperedgeCount⟩
  coherence : s.coherence.Reflects settings (outcomesIn (settled es)) (coherencesIn (settled es))

/-! ### What the tracker keeps -/

namespace Tracker

/-- Remembering keeps a list to the latest things. -/
theorem remember_rtake {β : Type} (limit : Nat) (xs : List β) (x : β) :
    remember limit (xs.rtake (max 1 limit)) x = (xs ++ [x]).rtake (max 1 limit) := by
  obtain ⟨n, hn⟩ : ∃ n, max 1 limit = n + 1 := ⟨max 1 limit - 1, by omega⟩
  rw [hn, List.rtake_concat_succ, remember]
  congr 1
  cases xs with
  | nil => simp
  | cons y xs =>
    -- what is forgotten is the one that the window no longer reaches
    unfold List.rtake
    rw [List.length_drop, List.drop_drop]
    split
    · congr 1
      simp only [List.length_cons] at *
      omega
    · congr 1
      simp only [List.length_cons] at *
      omega

private theorem max?_getD (ns : List Nat) : ns.max?.getD 0 = ns.foldl max 0 := by
  cases ns with
  | nil => rfl
  | cons n ns => rw [List.max?_cons', Option.getD_some, List.foldl_cons, Nat.zero_max]

/-- The largest of some numbers and of others. -/
private theorem max?_append (ms ns : List Nat) :
    (ms ++ ns).max?.getD 0 = max (ms.max?.getD 0) (ns.foldl max 0) := by
  rw [max?_getD, max?_getD, List.foldl_append]
  generalize ms.foldl max 0 = m
  induction ns generalizing m with
  | nil => rw [List.foldl_nil, List.foldl_nil, Nat.max_zero]
  | cons n ns ih =>
    rw [List.foldl_cons, List.foldl_cons, ih, ih (max 0 n), Nat.zero_max, Nat.max_assoc]

private theorem isCognitive_iff (type : TaskType) : type.isCognitive ↔ type = .reflect ∨ type = .analyze := by
  cases type <;> decide

/-- What a tracker keeps of outcomes and of the coherences of introspections. -/
structure Tracks (t : Tracker α) (os : List Outcome) (cs : List α) : Prop where
  outcomes : t.outcomes = (os.map (·.completed)).rtake (max 1 t.settings.outcomeWindow)
  tallies : ∀ agent, t.tallies[agent]? = tally? os agent
  coherences : t.coherences = cs.rtake (max 1 t.settings.introspectionHistory)

variable [Scalar α]

theorem tracks_fresh (settings : CognitionSettings) (graph : MemoryGraph α) :
    (fresh settings graph).Tracks [] [] where
  outcomes := by simp [fresh]
  tallies agent := by simp [fresh, tally?, outcomesOf]
  coherences := by simp [fresh]

theorem record_kept (t : Tracker α) (o : Outcome) :
    (t.record o).settings = t.settings ∧
    (t.record o).outcomes = remember t.settings.outcomeWindow t.outcomes o.completed ∧
    (t.record o).tallies
      = t.tallies.insert o.agent.text ((t.tallies[o.agent.text]?.getD ⟨0, 0⟩).count o.completed) ∧
    (t.record o).coherences = t.coherences := by
  unfold Tracker.record
  dsimp only
  split <;> exact ⟨rfl, rfl, rfl, rfl⟩

private theorem tally?_concat_self (os : List Outcome) (o : Outcome) :
    tally? (os ++ [o]) o.agent.text
      = some (((tally? os o.agent.text).getD ⟨0, 0⟩).count o.completed) := by
  have hown : outcomesOf (os ++ [o]) o.agent.text = outcomesOf os o.agent.text ++ [o] := by
    simp [outcomesOf, List.filter_append]
  simp only [tally?, hown]
  by_cases hnil : outcomesOf os o.agent.text = []
  · cases hcompleted : o.completed <;> simp [hnil, Tally.count, hcompleted]
  · cases hcompleted : o.completed <;> simp [hnil, Tally.count, hcompleted, List.countP_append]

private theorem tally?_concat_of_ne (os : List Outcome) {o : Outcome} {agent : String}
    (h : o.agent.text ≠ agent) : tally? (os ++ [o]) agent = tally? os agent := by
  have hown : outcomesOf (os ++ [o]) agent = outcomesOf os agent := by
    simp [outcomesOf, List.filter_append, h]
  simp only [tally?, hown]

theorem Tracks.record {t : Tracker α} {os : List Outcome} {cs : List α} (h : t.Tracks os cs)
    (o : Outcome) : (t.record o).Tracks (os ++ [o]) cs := by
  obtain ⟨hsettings, houtcomes, htallies, hcoherences⟩ := record_kept t o
  refine ⟨?_, ?_, ?_⟩
  · rw [houtcomes, hsettings, h.outcomes, remember_rtake, List.map_append]
    rfl
  · intro agent
    rw [htallies, ExtTreeMap.getElem?_insert]
    simp only [Std.compare_eq_iff_eq]
    split
    · rename_i hagent
      subst hagent
      rw [h.tallies, tally?_concat_self]
    · rename_i hagent
      rw [h.tallies, tally?_concat_of_ne os hagent]
  · rw [hcoherences, hsettings, h.coherences]

theorem Tracks.fold {t : Tracker α} {os : List Outcome} {cs : List α} (h : t.Tracks os cs)
    (s : Snapshot α) : (t.fold s).1.Tracks os (cs ++ s.meanCoherence?.toList) where
  outcomes := h.outcomes
  tallies := h.tallies
  coherences := by
    have hsettings : (t.fold s).1.settings = t.settings := rfl
    rw [hsettings]
    cases hcoherence : s.meanCoherence? with
    | none =>
      have hkept : (t.fold s).1.coherences = t.coherences := by
        simp [Tracker.fold, publish, hcoherence]
      rw [hkept, h.coherences]
      simp
    | some c =>
      have hkept : (t.fold s).1.coherences
          = remember t.settings.introspectionHistory t.coherences c := by
        simp [Tracker.fold, publish, hcoherence]
      rw [hkept, h.coherences, remember_rtake]
      rfl

/-! ### What is derived from it -/

theorem Tracks.outcomeRatio?_eq {t : Tracker α} {os : List Outcome} {cs : List α} (h : t.Tracks os cs) :
    t.outcomeRatio? = completedShare? (os.rtake (max 1 t.settings.outcomeWindow)) := by
  have houtcomes : t.outcomes = (os.rtake (max 1 t.settings.outcomeWindow)).map (·.completed) := by
    rw [h.outcomes, List.rtake, List.rtake, List.map_drop, List.length_map]
  have hcount : ∀ os : List Outcome, (os.map (·.completed)).count true = os.countP (·.completed) := by
    intro os
    simp [List.count, List.countP_map, Function.comp_def]
  simp only [outcomeRatio?, houtcomes, completedShare?, hcount, List.isEmpty_iff, List.map_eq_nil_iff,
    List.length_map]

theorem Tracks.introspectionCoherence?_eq {t : Tracker α} {os : List Outcome} {cs : List α}
    (h : t.Tracks os cs) :
    t.introspectionCoherence? = mean? (cs.rtake (max 1 t.settings.introspectionHistory)) := by
  rw [introspectionCoherence?, h.coherences]
  generalize cs.rtake _ = kept
  cases kept <;> rfl

private theorem mem_agentsOf {os : List Outcome} {agent : String} :
    agent ∈ agentsOf os ↔ outcomesOf os agent ≠ [] := by
  rw [agentsOf, ExtTreeSet.mem_toList, ExtTreeSet.mem_ofList, List.contains_iff_mem, List.mem_map, ne_eq,
    outcomesOf, List.filter_eq_nil_iff]
  simp

/-- The agents of the tallies are those with an outcome, in the same order. -/
private theorem keys_tallies {tallies : ExtTreeMap String Tally} {os : List Outcome}
    (h : ∀ agent, tallies[agent]? = tally? os agent) : tallies.keys = agentsOf os := by
  have hasymm : Std.Asymm fun a b : String => compare a b = .lt := by
    refine ⟨fun a b hab hba => ?_⟩
    rw [Std.OrientedOrd.eq_swap, hba] at hab
    contradiction
  refine List.Pairwise.eq_of_mem_iff ExtTreeMap.ordered_keys ExtTreeSet.ordered_toList ?_
  intro agent
  rw [ExtTreeMap.mem_keys, ExtTreeMap.mem_iff_isSome_getElem?, h, mem_agentsOf, tally?]
  by_cases hnil : outcomesOf os agent = []
  · simp [hnil]
  · simp [hnil]

private theorem values_tallies {tallies : ExtTreeMap String Tally} {os : List Outcome}
    (h : ∀ agent, tallies[agent]? = tally? os agent) :
    tallies.toList.map Prod.snd = (agentsOf os).filterMap (tally? os) := by
  rw [← keys_tallies h, ← ExtTreeMap.map_fst_toList_eq_keys, List.filterMap_map]
  symm
  rw [← List.filterMap_eq_map]
  apply List.filterMap_congr
  rintro ⟨agent, tally⟩ hmem
  rw [ExtTreeMap.mem_toList_iff_getElem?_eq_some] at hmem
  exact (h agent).symm.trans hmem

private theorem ratio_tally? (os : List Outcome) (agent : String) :
    ((tally? os agent).filter fun tally => 0 < tally.total).map Tally.ratio
      = (completedShare? (outcomesOf os agent) : Option α) := by
  have htotal : ∀ os : List Outcome, os.countP (·.completed) + os.countP (!·.completed) = os.length := by
    intro os
    rw [List.length_eq_countP_add_countP (·.completed)]
    simp
  by_cases hnil : outcomesOf os agent = []
  · simp [tally?, completedShare?, hnil]
  · have hpos : 0 < (outcomesOf os agent).length := List.length_pos_iff.2 hnil
    simp only [tally?, completedShare?, if_neg hnil, Option.filter_some, Tally.total, Tally.ratio, htotal,
      hpos, decide_true, if_true, Option.map_some]

theorem Tracks.memoryConsistency_eq {t : Tracker α} {os : List Outcome} {cs : List α}
    (h : t.Tracks os cs) : t.memoryConsistency = (consistency? os).getD 1.0 := by
  have hratios : ((t.tallies.toList.map Prod.snd).filter fun tally => 0 < tally.total).map Tally.ratio
      = (agentsOf os).filterMap fun agent => (completedShare? (outcomesOf os agent) : Option α) := by
    rw [values_tallies h.tallies, List.filter_filterMap, List.map_filterMap]
    simp only [ratio_tally?]
  rw [memoryConsistency, hratios, consistency?]
  generalize (agentsOf os).filterMap _ = ratios
  cases ratios with
  | nil => rfl
  | cons ratio ratios => rfl

theorem Tracks.coherence {t : Tracker α} {os : List Outcome} {cs : List α} (h : t.Tracks os cs) :
    t.coherence.Reflects t.settings os cs where
  stability := congrArg (·.getD 1.0) h.outcomeRatio?_eq
  memory := h.memoryConsistency_eq
  introspection := h.introspectionCoherence?_eq

/-! ### Events one after another -/

/-- A tracker keeps and shows what a history says. -/
private structure Follows (t : Tracker α) (settings : CognitionSettings) (graph : GraphSettings)
    (es : List (TrackerEvent α)) : Prop where
  settings_eq : t.settings = settings
  graph_eq : t.graph = MemoryGraph.replay graph (memoriesIn es)
  tracks : t.Tracks (outcomesIn (era es)) (coherencesIn (era es))
  reflects : t.state.Reflects settings graph es

private theorem follows_new (settings : CognitionSettings) (graph : GraphSettings) :
    (new settings graph : Tracker α).Follows settings graph [] := by
  have hinitial : (Coherence.initial : Coherence α).Reflects settings [] [] := by
    have hagents : agentsOf [] = [] := by simp [agentsOf]
    constructor
    case stability => simp [Coherence.initial, completedShare?]
    case memory =>
      rw [consistency?, hagents]
      rfl
    case introspection => simp [Coherence.initial, mean?]
  exact ⟨rfl, rfl, tracks_fresh settings _, ⟨rfl, rfl, rfl, hinitial⟩⟩

variable {t : Tracker α} {settings : CognitionSettings} {graph : GraphSettings}
  {es : List (TrackerEvent α)}

private theorem Follows.start (h : t.Follows settings graph es) (probes : List Probe) (now : Timestamp) :
    (t.start probes now).Follows settings graph (es ++ [.start probes now]) := by
  have hera : era (es ++ [.start probes now]) = [] := era_concat es _
  have hsettled : settled (es ++ [.start probes now]) = [] := (settled_concat es _).trans hera
  have hmemories : memoriesIn (es ++ [.start probes now]) = memoriesIn es :=
    (memoriesIn_concat es _).trans (List.append_nil _)
  have htracks : (t.start probes now).Tracks [] [] :=
    have hfresh := tracks_fresh t.settings t.graph
    ⟨hfresh.outcomes, hfresh.tallies, hfresh.coherences⟩
  have hgraph : (t.start probes now).graph = MemoryGraph.replay graph (memoriesIn es) := h.graph_eq
  refine ⟨h.settings_eq, ?_, ?_, ⟨?_, ?_, ?_, ?_⟩⟩
  · rw [hmemories, hgraph]
  · rw [hera]
    exact htracks
  · rw [hera]
    rfl
  · rw [hera]
    rfl
  · rw [hmemories, ← hgraph]
    rfl
  · rw [hsettled, ← h.settings_eq]
    exact htracks.coherence

private theorem Follows.refresh (h : t.Follows settings graph es) (probes : List Probe)
    (now : Timestamp) : (t.refresh probes now).Follows settings graph (es ++ [.refresh probes now]) := by
  have hera : era (es ++ [.refresh probes now]) = era es ++ [.refresh probes now] := era_concat es _
  have hsettled : settled (es ++ [.refresh probes now]) = era es ++ [.refresh probes now] :=
    (settled_concat es _).trans hera
  have hmemories : memoriesIn (es ++ [.refresh probes now]) = memoriesIn es :=
    (memoriesIn_concat es _).trans (List.append_nil _)
  have houtcomes : outcomesIn (era es ++ [.refresh probes now]) = outcomesIn (era es) :=
    (outcomesIn_concat _ _).trans (List.append_nil _)
  have hdepths : depthsIn (era es ++ [.refresh probes now]) = depthsIn (era es) :=
    (depthsIn_concat _ _).trans (List.append_nil _)
  have hcoherences : coherencesIn (era es ++ [.refresh probes now]) = coherencesIn (era es) :=
    (coherencesIn_concat _ _).trans (List.append_nil _)
  have htracks : (t.refresh probes now).Tracks (outcomesIn (era es)) (coherencesIn (era es)) :=
    ⟨h.tracks.outcomes, h.tracks.tallies, h.tracks.coherences⟩
  refine ⟨h.settings_eq, ?_, ?_, ⟨?_, ?_, ?_, ?_⟩⟩
  · rw [hmemories]
    exact h.graph_eq
  · rw [hera, houtcomes, hcoherences]
    exact htracks
  · rw [hera, houtcomes]
    exact h.reflects.thoughts
  · rw [hera, hdepths]
    exact h.reflects.depth
  · rw [hmemories, ← h.graph_eq]
    rfl
  · rw [hsettled, houtcomes, hcoherences, ← h.settings_eq]
    exact htracks.coherence

private theorem graph_record (t : Tracker α) (o : Outcome) : (t.record o).graph
    = if o.completed then (t.graph.record o.agent o.task o.summary).graph else t.graph := by
  unfold Tracker.record
  dsimp only
  split <;> rfl

/-- A thought is a cognitive task that completes. -/
theorem thoughts_record (t : Tracker α) (o : Outcome) : (t.record o).state.thoughts
    = t.state.thoughts + if o.completed && o.type.isCognitive then 1 else 0 := by
  unfold Tracker.record
  dsimp only
  split
  · rename_i hcompleted
    rw [hcompleted]
    rfl
  · rename_i hcompleted
    simp [hcompleted]

/-- What recording an outcome shows at once. -/
private theorem state_record (o : Outcome) (h : t.state.resonance = resonance t.graph) :
    (t.record o).state.thoughts
      = t.state.thoughts + (if o.completed && o.type.isCognitive then 1 else 0) ∧
    (t.record o).state.depth = t.state.depth ∧ (t.record o).state.coherence = t.state.coherence ∧
    (t.record o).state.resonance = resonance (t.record o).graph := by
  refine ⟨thoughts_record t o, ?_⟩
  unfold Tracker.record
  dsimp only
  split
  · exact ⟨rfl, rfl, rfl⟩
  · exact ⟨rfl, rfl, h⟩

private theorem Follows.record (h : t.Follows settings graph es) (o : Outcome) :
    (t.record o).Follows settings graph (es ++ [.record o]) := by
  have hera : era (es ++ [.record o]) = era es ++ [.record o] := era_concat es _
  have hsettled : settled (es ++ [.record o]) = settled es := settled_concat es _
  have houtcomes : outcomesIn (era es ++ [.record o]) = outcomesIn (era es) ++ [o] :=
    outcomesIn_concat _ _
  have hdepths : depthsIn (era es ++ [.record o]) = depthsIn (era es) :=
    (depthsIn_concat _ _).trans (List.append_nil _)
  have hcoherences : coherencesIn (era es ++ [.record o]) = coherencesIn (era es) :=
    (coherencesIn_concat _ _).trans (List.append_nil _)
  have hgraph : (t.record o).graph = MemoryGraph.replay graph (memoriesIn (es ++ [.record o])) := by
    rw [graph_record, memoriesIn_concat, memory?, h.graph_eq]
    split
    · exact (MemoryGraph.replay_concat graph (memoriesIn es) (.record o.agent o.task o.summary)).symm
    · exact congrArg (MemoryGraph.replay graph) (List.append_nil _).symm
  have hresonance : t.state.resonance = resonance t.graph := by
    rw [h.reflects.resonance, h.graph_eq]
    rfl
  obtain ⟨hthoughts, hdepth, hcoherence, hshown⟩ := state_record o hresonance
  refine ⟨?_, hgraph, ?_, ⟨?_, ?_, ?_, ?_⟩⟩
  · rw [(record_kept t o).1, h.settings_eq]
  · rw [hera, houtcomes, hcoherences]
    exact h.tracks.record o
  · rw [hera, houtcomes, hthoughts, h.reflects.thoughts, List.countP_append, List.countP_singleton]
    simp [isCognitive_iff]
  · rw [hera, hdepths, hdepth, h.reflects.depth]
  · rw [hshown, hgraph]
    rfl
  · rw [hsettled, hcoherence]
    exact h.reflects.coherence

private theorem Follows.fold (h : t.Follows settings graph es) (s : Snapshot α) :
    (t.fold s).1.Follows settings graph (es ++ [.fold s]) := by
  have hera : era (es ++ [.fold s]) = era es ++ [.fold s] := era_concat es _
  have hsettled : settled (es ++ [.fold s]) = settled es := settled_concat es _
  have houtcomes : outcomesIn (era es ++ [.fold s]) = outcomesIn (era es) :=
    (outcomesIn_concat _ _).trans (List.append_nil _)
  have hdepths : depthsIn (era es ++ [.fold s]) = depthsIn (era es) ++ s.salient.map (·.depth) :=
    (depthsIn_concat _ _).trans (congrArg (depthsIn (era es) ++ ·) (List.flatMap_singleton _ _))
  have hcoherences : coherencesIn (era es ++ [.fold s])
      = coherencesIn (era es) ++ s.meanCoherence?.toList := coherencesIn_concat _ _
  have hgraph : (t.fold s).1.graph = MemoryGraph.replay graph (memoriesIn (es ++ [.fold s])) := by
    rw [memoriesIn_concat]
    change (t.graph.fold (.ofSnapshot s)).graph = MemoryGraph.replay graph (memoriesIn es ++ [.fold s])
    rw [MemoryGraph.replay_concat, h.graph_eq]
    rfl
  refine ⟨h.settings_eq, hgraph, ?_, ⟨?_, ?_, ?_, ?_⟩⟩
  · rw [hera, houtcomes, hcoherences]
    exact h.tracks.fold s
  · rw [hera, houtcomes]
    exact h.reflects.thoughts
  · rw [hera, hdepths, max?_append, ← h.reflects.depth]
    rfl
  · rw [← hgraph]
    rfl
  · rw [hsettled]
    exact h.reflects.coherence

private theorem Follows.step (h : t.Follows settings graph es) (e : TrackerEvent α) :
    (t.step e).Follows settings graph (es ++ [e]) := by
  cases e with
  | start probes now => exact h.start probes now
  | refresh probes now => exact h.refresh probes now
  | record o => exact h.record o
  | fold s => exact h.fold s

/-- The state of a tracker is what its history says. -/
theorem reflects_run (settings : CognitionSettings) (graph : GraphSettings) (es : List (TrackerEvent α)) :
    (run settings graph es).state.Reflects settings graph es := by
  have hfollows : (run settings graph es).Follows settings graph es := by
    induction es using List.reverseRecOn with
    | nil => exact follows_new settings graph
    | append_singleton es e ih =>
      have hrun : run settings graph (es ++ [e]) = (run settings graph es).step e := by
        simp [run]
      rw [hrun]
      exact ih.step e
  exact hfollows.reflects

/-- A restart behind an outcome and a tree, then one task of each end, another tree, a refresh, and a thought of
another agent. -/
def sampleLife : List (TrackerEvent Float) :=
  [.start [] ⟨0, 0⟩, .record ⟨⟨"agent-1"⟩, "task-1", .reflect, true, "parse the tree"⟩,
    .fold (MemoryGraph.sampleTree [("src/parse_tree.rs", 0.5)]), .start [] ⟨60, 0⟩,
    .record ⟨⟨"agent-1"⟩, "task-2", .analyze, true, "print the tree"⟩,
    .record ⟨⟨"agent-1"⟩, "task-3", .toolCall, false, ""⟩,
    .fold (MemoryGraph.sampleTree [("src/print_tree.rs", 0.5)]), .refresh [] ⟨120, 0⟩,
    .record ⟨⟨"agent-2"⟩, "task-4", .reflect, true, "count nodes"⟩]

/-- Thoughts count from the restart, memory from the beginning, and the last outcome is not settled yet. -/
theorem reflects_run_sampleLife :
    (run .standard .standard sampleLife).state.thoughts = 2 ∧
    (run .standard .standard sampleLife).state.depth = 1 ∧
    (run .standard .standard sampleLife).state.resonance = ⟨9, 7, 1⟩ ∧
    (run .standard .standard sampleLife).state.coherence.stability = 0.5 ∧
    (run .standard .standard sampleLife).state.coherence.memory = 0.5 ∧
    (run .standard .standard sampleLife).state.coherence.introspection = some 0.5 := by
  have hreflects := reflects_run .standard .standard sampleLife
  refine ⟨hreflects.thoughts.trans ?_, hreflects.depth.trans ?_, hreflects.resonance.trans ?_,
    hreflects.coherence.stability.trans ?_, hreflects.coherence.memory.trans ?_,
    hreflects.coherence.introspection.trans ?_⟩
  all_goals decide +kernel

/-- Outcomes and introspections change nothing else in the state than what is kept up to date with every event. -/
theorem state_step_of_not_settles (t : Tracker α) {e : TrackerEvent α} (he : e.settles = false) :
    ∃ thoughts depth resonance, (t.step e).state = { t.state with thoughts, depth, resonance } := by
  cases e with
  | start probes now => cases he
  | refresh probes now => cases he
  | record o =>
    unfold step Tracker.record
    dsimp only
    split <;> exact ⟨_, _, _, rfl⟩
  | fold s => exact ⟨_, _, _, rfl⟩

theorem graph_step (t : Tracker α) (e : TrackerEvent α) :
    (t.step e).graph = t.graph.applyAll e.memory?.toList := by
  cases e with
  | start probes now => rfl
  | refresh probes now => rfl
  | record o =>
    rw [step, graph_record, memory?]
    split <;> rfl
  | fold s => rfl

/-- The graph of a tracker is the one that its folds and completed outcomes lead to. -/
theorem graph_run (settings : CognitionSettings) (graph : GraphSettings) (es : List (TrackerEvent α)) :
    (run settings graph es).graph = MemoryGraph.replay graph (memoriesIn es) := by
  induction es using List.reverseRecOn with
  | nil => rfl
  | append_singleton es e ih =>
    rw [run_concat, graph_step, ih, memoriesIn_concat]
    simp [MemoryGraph.replay, MemoryGraph.applyAll]

end Tracker

end EchoEngine
