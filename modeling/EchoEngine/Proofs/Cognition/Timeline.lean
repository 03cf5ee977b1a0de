import EchoEngine.Proofs.Cognition.History
import Mathlib.Order.Bounds.Basic

/-!
# The timeline of stages

The stage that a tracker earns may fall, since coherence does, and it may rise by several stages at once.  The
timeline only ever moves on (`Timeline.current_advance`): its milestones ascend and end with the current stage
(`Timeline.Ordered`), and the current stage is the greatest one that any refresh of the latest era has earned
(`evolves_run`).

What a refresh earns is read off the history: the completed tasks and the introspections of the era so far, and
the coherence that the refresh leaves in the state.
-/

namespace EchoEngine

/-! ### The order of stages -/

namespace Stage

theorem level_injective : Function.Injective level := by
  intro a b h
  cases a <;> cases b <;> first | rfl | cases h

instance : LinearOrder Stage :=
  .lift' level level_injective

theorem lt_iff {a b : Stage} : a < b ↔ a.level < b.level :=
  Iff.rfl

theorem nascent_le (s : Stage) : nascent ≤ s :=
  Nat.zero_le s.level

/-- Who has done nothing has earned nothing, however coherent. -/
theorem earned_zero {α : Type} [Scalar α] (coherence : α) : earned 0 0 coherence = nascent := by
  simp [earned]

end Stage

/-! ### Moving on -/

namespace Timeline

variable {t : Timeline} {stage : Stage} {now : Timestamp}

theorem advance_of_lt (h : t.current < stage) :
    t.advance stage now = ⟨stage, t.milestones ++ [⟨stage, now, stage.description⟩]⟩ := by
  have hahead : t.isAhead stage = true := decide_eq_true (Stage.lt_iff.1 h)
  rw [advance, if_pos hahead]
  rfl

theorem advance_of_le (h : stage ≤ t.current) : t.advance stage now = t := by
  have hahead : ¬t.isAhead stage = true := fun hahead => h.not_gt (Stage.lt_iff.2 (of_decide_eq_true hahead))
  rw [advance, if_neg hahead]

theorem current_advance (t : Timeline) (stage : Stage) (now : Timestamp) :
    (t.advance stage now).current = max t.current stage := by
  rcases lt_or_ge t.current stage with h | h
  · rw [advance_of_lt h, max_eq_right h.le]
  · rw [advance_of_le h, max_eq_left h]

theorem milestones_prefix_advance (t : Timeline) (stage : Stage) (now : Timestamp) :
    t.milestones <+: (t.advance stage now).milestones := by
  rcases lt_or_ge t.current stage with h | h
  · rw [advance_of_lt h]
    exact List.prefix_append _ _
  · rw [advance_of_le h]

/-- The milestones ascend to the current stage, each under its own description. -/
structure Ordered (t : Timeline) : Prop where
  increasing : (t.milestones.map (·.stage)).Pairwise (· < ·)
  last : ∀ m, t.milestones.getLast? = some m → m.stage = t.current
  described : ∀ m ∈ t.milestones, m.description = m.stage.description

theorem ordered_empty : empty.Ordered :=
  ⟨.nil, nofun, nofun⟩

theorem ordered_opened (now : Timestamp) : (opened now).Ordered where
  increasing := List.pairwise_singleton _ _
  last m hm := by
    cases hm
    rfl
  described m hm := by
    obtain rfl := List.mem_singleton.1 hm
    rfl

theorem Ordered.le_current (h : t.Ordered) {m : Milestone} (hm : m ∈ t.milestones) :
    m.stage ≤ t.current := by
  obtain ⟨before, last, hsplit⟩ :=
    (List.eq_nil_or_concat' t.milestones).resolve_left (List.ne_nil_of_mem hm)
  have hlast : last.stage = t.current := h.last last (by rw [hsplit, List.getLast?_concat])
  have hincreasing := h.increasing
  rw [hsplit, List.map_append, List.pairwise_append] at hincreasing
  rw [hsplit, List.mem_append, List.mem_singleton] at hm
  rcases hm with hm | rfl
  · rw [← hlast]
    exact (hincreasing.2.2 _ (List.mem_map_of_mem hm) _ (by simp)).le
  · exact hlast.le

theorem Ordered.advance (h : t.Ordered) (stage : Stage) (now : Timestamp) : (t.advance stage now).Ordered := by
  rcases lt_or_ge t.current stage with hahead | hahead
  · rw [advance_of_lt hahead]
    refine ⟨?increasing, ?last, ?described⟩
    case increasing =>
      rw [List.map_append, List.pairwise_append]
      refine ⟨h.increasing, List.pairwise_singleton _ _, ?_⟩
      intro earlier hearlier later hlater
      obtain ⟨m, hm, rfl⟩ := List.mem_map.1 hearlier
      obtain rfl := List.mem_singleton.1 hlater
      exact (h.le_current hm).trans_lt hahead
    case last =>
      intro m hm
      rw [List.getLast?_concat] at hm
      cases hm
      rfl
    case described =>
      intro m hm
      rcases List.mem_append.1 hm with hm | hm
      · exact h.described m hm
      · obtain rfl := List.mem_singleton.1 hm
        rfl
  · rwa [advance_of_le hahead]

end Timeline

/-! ### What a history has earned -/

open TrackerEvent

variable {α : Type} [Scalar α]

/-- The stage that the latest era of a history has earned, at some coherence. -/
def TrackerEvent.stageEarned (es : List (TrackerEvent α)) (coherence : α) : Stage :=
  .earned ((outcomesIn (era es)).countP (·.completed)) (snapshotsIn (era es)).length coherence

namespace Tracker

/-- The stages earned at the refreshes since the latest start, or since creation, each at the coherence that the
refresh has left in the state. -/
def earnedStages (settings : CognitionSettings) (graph : GraphSettings) (es : List (TrackerEvent α)) :
    Set Stage :=
  {stage | ∃ before probes now after, es = before ++ .refresh probes now :: after ∧
    (∀ e ∈ after, e.isStart = false) ∧ stage = stageEarned before
      (run settings graph (before ++ [.refresh probes now])).state.coherence.overall}

variable {settings : CognitionSettings} {graph : GraphSettings} {es : List (TrackerEvent α)}

theorem earnedStages_nil : earnedStages settings graph ([] : List (TrackerEvent α)) = ∅ := by
  rw [Set.eq_empty_iff_forall_notMem]
  rintro stage ⟨before, probes, now, after, hes, -⟩
  simp at hes

/-- A start forgets what has been earned. -/
theorem earnedStages_start (probes : List Probe) (now : Timestamp) :
    earnedStages settings graph (es ++ [.start probes now]) = ∅ := by
  rw [Set.eq_empty_iff_forall_notMem]
  rintro stage ⟨before, probes', now', after, hes, hafter, -⟩
  rcases List.eq_nil_or_concat' after with rfl | ⟨after, last, rfl⟩
  · simp at hes
  · rw [← List.cons_append, ← List.append_assoc] at hes
    obtain ⟨-, hlast⟩ := List.append_inj' hes rfl
    have hstart := hafter last (List.mem_append_right after List.mem_cons_self)
    rw [← List.singleton_inj.1 hlast] at hstart
    cases hstart

/-- Any other event forgets nothing, and a refresh earns what it computes. -/
theorem earnedStages_concat {e : TrackerEvent α} (he : e.isStart = false) :
    earnedStages settings graph (es ++ [e]) = earnedStages settings graph es ∪
      {stage | e.settles ∧
        stage = stageEarned es (run settings graph (es ++ [e])).state.coherence.overall} := by
  ext stage
  constructor
  · rintro ⟨before, probes, now, after, hes, hafter, hstage⟩
    rcases List.eq_nil_or_concat' after with rfl | ⟨after, last, rfl⟩
    · obtain ⟨rfl, hlast⟩ := List.append_inj' hes rfl
      cases hlast
      exact .inr ⟨rfl, hstage⟩
    · rw [← List.cons_append, ← List.append_assoc] at hes
      obtain ⟨rfl, -⟩ := List.append_inj' hes rfl
      exact .inl ⟨before, probes, now, after, rfl, fun e he => hafter e (by simp [he]), hstage⟩
  · rintro (⟨before, probes, now, after, rfl, hafter, hstage⟩ | ⟨hsettles, hstage⟩)
    · refine ⟨before, probes, now, after ++ [e], by simp, ?_, hstage⟩
      intro e' he'
      rcases List.mem_append.1 he' with he' | he'
      · exact hafter e' he'
      · rwa [List.mem_singleton.1 he']
    · cases e with
      | start probes now => cases he
      | refresh probes now => exact ⟨es, probes, now, [], rfl, nofun, hstage⟩
      | record o => cases hsettles
      | fold s => cases hsettles

/-! ### What the tracker counts -/

/-- A tracker counts the completed tasks and the introspections of the latest era. -/
structure Counts (t : Tracker α) (es : List (TrackerEvent α)) : Prop where
  completed : t.completed = (outcomesIn (era es)).countP (·.completed)
  introspections : t.introspections = (snapshotsIn (era es)).length

theorem counts_new : (new settings graph : Tracker α).Counts [] :=
  ⟨rfl, rfl⟩

private theorem counted_step (t : Tracker α) {e : TrackerEvent α} (he : e.isStart = false) :
    (t.step e).completed = t.completed + e.outcome?.toList.countP (·.completed) ∧
      (t.step e).introspections = t.introspections + e.snapshot?.toList.length := by
  cases e with
  | start probes now => cases he
  | refresh probes now => exact ⟨rfl, rfl⟩
  | record o =>
    unfold step Tracker.record
    dsimp only
    split
    · rename_i hcompleted
      simp [publish, outcome?, snapshot?, hcompleted]
    · rename_i hfailed
      simp [outcome?, snapshot?, hfailed]
  | fold s => exact ⟨rfl, rfl⟩

theorem Counts.step {t : Tracker α} (h : t.Counts es) (e : TrackerEvent α) :
    (t.step e).Counts (es ++ [e]) := by
  cases hstart : e.isStart with
  | true =>
    have hera : era (es ++ [e]) = [] := by rw [era_concat, if_pos hstart]
    cases e with
    | start probes now => exact ⟨by rw [hera]; rfl, by rw [hera]; rfl⟩
    | _ => cases hstart
  | false =>
    have hera : era (es ++ [e]) = era es ++ [e] := by rw [era_concat, hstart, if_neg Bool.false_ne_true]
    obtain ⟨hcompleted, hintrospections⟩ := counted_step t hstart
    refine ⟨?_, ?_⟩
    · rw [hera, outcomesIn_concat, List.countP_append, hcompleted, h.completed]
    · rw [hera, snapshotsIn_concat, List.length_append, hintrospections, h.introspections]

/-! ### The timeline through a run -/

/-- A timeline that has just begun is not moved on by the start that has opened it. -/
theorem timeline_start (t : Tracker α) (probes : List Probe) (now : Timestamp) :
    (t.start probes now).state.timeline = .opened now := by
  have hearned : ∀ coherence : α,
      (Timeline.opened now).advance (.earned 0 0 coherence) now = .opened now := by
    intro coherence
    rw [Stage.earned_zero]
    exact Timeline.advance_of_le (Stage.nascent_le _)
  exact hearned (t.start probes now).state.coherence.overall

theorem timeline_refresh (t : Tracker α) (probes : List Probe) (now : Timestamp) :
    (t.refresh probes now).state.timeline = t.state.timeline.advance
      (.earned t.completed t.introspections (t.refresh probes now).state.coherence.overall) now :=
  rfl

/-- Outcomes and introspections are not looked at before the next refresh. -/
theorem timeline_step_of_not_settles (t : Tracker α) {e : TrackerEvent α} (he : e.settles = false) :
    (t.step e).state.timeline = t.state.timeline := by
  obtain ⟨thoughts, depth, resonance, hstate⟩ := state_step_of_not_settles t he
  rw [hstate]

theorem initialized_step (t : Tracker α) (e : TrackerEvent α) :
    (t.step e).state.initialized = (t.state.initialized || e.isStart) := by
  cases e with
  | start probes now => exact (Bool.or_true _).symm
  | refresh probes now => exact (Bool.or_false _).symm
  | record o =>
    unfold step Tracker.record
    dsimp only
    split <;> exact (Bool.or_false _).symm
  | fold s => exact (Bool.or_false _).symm

/-- Only a start takes anything back. -/
theorem timeline_grows (t : Tracker α) {e : TrackerEvent α} (he : e.isStart = false) :
    t.state.timeline.milestones <+: (t.step e).state.timeline.milestones ∧
      t.state.timeline.current ≤ (t.step e).state.timeline.current := by
  cases hsettles : e.settles with
  | true =>
    cases e with
    | start probes now => cases he
    | refresh probes now =>
      rw [step, timeline_refresh, Timeline.current_advance]
      exact ⟨Timeline.milestones_prefix_advance _ _ _, le_max_left _ _⟩
    | record o => cases hsettles
    | fold s => cases hsettles
  | false =>
    rw [timeline_step_of_not_settles t hsettles]
    exact ⟨List.prefix_refl _, le_refl _⟩

/-- The timeline of a state is what a history has earned. -/
structure Evolves (settings : CognitionSettings) (graph : GraphSettings) (es : List (TrackerEvent α))
    (s : State α) : Prop where
  ordered : s.timeline.Ordered
  initialized : s.initialized = es.any (·.isStart)
  opened : s.initialized → s.timeline.milestones.head?.map (·.stage) = some .nascent
  current : IsGreatest (insert .nascent (earnedStages settings graph es)) s.timeline.current

theorem evolves_new : Evolves settings graph [] (new settings graph : Tracker α).state where
  ordered := Timeline.ordered_empty
  initialized := rfl
  opened := nofun
  current := by
    rw [earnedStages_nil, insert_empty_eq]
    exact isGreatest_singleton

theorem counts_run (settings : CognitionSettings) (graph : GraphSettings) (es : List (TrackerEvent α)) :
    (run settings graph es).Counts es := by
  induction es using List.reverseRecOn with
  | nil => exact counts_new
  | append_singleton es e ih =>
    rw [run_concat]
    exact ih.step e

private theorem ordered_step {t : Tracker α} (h : t.state.timeline.Ordered) (e : TrackerEvent α) :
    (t.step e).state.timeline.Ordered := by
  cases e with
  | start probes now =>
    rw [step, timeline_start]
    exact Timeline.ordered_opened now
  | refresh probes now => exact h.advance _ now
  | record o => rwa [timeline_step_of_not_settles t rfl]
  | fold s => rwa [timeline_step_of_not_settles t rfl]

private theorem opened_step {t : Tracker α}
    (h : t.state.initialized → t.state.timeline.milestones.head?.map (·.stage) = some .nascent)
    (e : TrackerEvent α) (hinitialized : (t.step e).state.initialized) :
    (t.step e).state.timeline.milestones.head?.map (·.stage) = some .nascent := by
  cases hstart : e.isStart with
  | true =>
    cases e with
    | start probes now =>
      rw [step, timeline_start]
      rfl
    | _ => cases hstart
  | false =>
    rw [initialized_step, hstart, Bool.or_false] at hinitialized
    obtain ⟨later, hlater⟩ := (timeline_grows t hstart).1
    obtain ⟨first, hfirst, hnascent⟩ := Option.map_eq_some_iff.1 (h hinitialized)
    rw [← hlater, List.head?_append, hfirst]
    exact congrArg some hnascent

/-- The current stage keeps up with what the refreshes of the era have earned. -/
private theorem isGreatest_concat
    (h : IsGreatest (insert .nascent (earnedStages settings graph es))
      (run settings graph es).state.timeline.current) (e : TrackerEvent α) :
    IsGreatest (insert .nascent (earnedStages settings graph (es ++ [e])))
      (run settings graph (es ++ [e])).state.timeline.current := by
  cases hsettles : e.settles with
  | false =>
    have hstart : e.isStart = false := by
      cases e with
      | start probes now => cases hsettles
      | _ => rfl
    rw [earnedStages_concat hstart, hsettles, run_concat, timeline_step_of_not_settles _ hsettles]
    simpa using h
  | true =>
    cases e with
    | start probes now =>
      rw [earnedStages_start, insert_empty_eq, run_concat, step, timeline_start]
      exact isGreatest_singleton
    | refresh probes now =>
      have hcounts := counts_run settings graph es
      have hcurrent : (run settings graph (es ++ [.refresh probes now])).state.timeline.current =
          max (run settings graph es).state.timeline.current (stageEarned es
            (run settings graph (es ++ [.refresh probes now])).state.coherence.overall) := by
        rw [run_concat, step, timeline_refresh, Timeline.current_advance, hcounts.completed,
          hcounts.introspections]
        rfl
      rw [earnedStages_concat rfl, ← Set.insert_union, hcurrent]
      refine h.union ?_
      simp [settles]
    | _ => cases hsettles

theorem Evolves.concat (h : Evolves settings graph es (run settings graph es).state) (e : TrackerEvent α) :
    Evolves settings graph (es ++ [e]) (run settings graph (es ++ [e])).state where
  ordered := by
    rw [run_concat]
    exact ordered_step h.ordered e
  initialized := by
    rw [run_concat, initialized_step, h.initialized]
    simp
  opened := by
    rw [run_concat]
    exact opened_step h.opened e
  current := isGreatest_concat h.current e

/-- Until the next start, milestones are only added and the current stage never goes back. -/
theorem grows_run (settings : CognitionSettings) (graph : GraphSettings) (es : List (TrackerEvent α))
    {later : List (TrackerEvent α)} (hlater : ∀ e ∈ later, e.isStart = false) :
    (run settings graph es).state.timeline.milestones <+:
        (run settings graph (es ++ later)).state.timeline.milestones ∧
      (run settings graph es).state.timeline.current ≤
        (run settings graph (es ++ later)).state.timeline.current := by
  induction later using List.reverseRecOn with
  | nil =>
    rw [List.append_nil]
    exact ⟨List.prefix_refl _, le_refl _⟩
  | append_singleton later e ih =>
    obtain ⟨hmilestones, hcurrent⟩ := ih fun e he => hlater e (List.mem_append_left _ he)
    obtain ⟨hmilestones', hcurrent'⟩ :=
      timeline_grows (run settings graph (es ++ later)) (hlater e (by simp))
    rw [← List.append_assoc, run_concat]
    exact ⟨hmilestones.trans hmilestones', hcurrent.trans hcurrent'⟩

/-- Whatever a tracker has lived through, its milestones ascend to the current stage, the greatest one that the
latest era has earned; until the next start milestones are only added and the current stage never goes back. -/
theorem evolves_run (settings : CognitionSettings) (graph : GraphSettings) (es : List (TrackerEvent α)) :
    Evolves settings graph es (run settings graph es).state ∧
      ∀ later, (∀ e ∈ later, e.isStart = false) →
        (run settings graph es).state.timeline.milestones <+:
            (run settings graph (es ++ later)).state.timeline.milestones ∧
          (run settings graph es).state.timeline.current ≤
            (run settings graph (es ++ later)).state.timeline.current := by
  refine ⟨?_, fun later hlater => grows_run settings graph es hlater⟩
  induction es using List.reverseRecOn with
  | nil => exact evolves_new
  | append_singleton es e ih => exact ih.concat e

/-- Five tasks between two looks take a tracker two stages on at once. -/
example :
    (run .standard ⟨true, true, 1, 8, 1⟩ ([.start [] ⟨0, 0⟩] ++
      List.replicate 5 (.record ⟨⟨"agent-1"⟩, "task-1", .analyze, true, "parse the tree"⟩) ++
      [.refresh [] ⟨60, 0⟩] : List (TrackerEvent Float))).state.timeline.milestones.map (·.stage)
      = [.nascent, .developing] := by
  decide +kernel

end Tracker

end EchoEngine
