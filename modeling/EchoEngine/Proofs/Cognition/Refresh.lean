import EchoEngine.Proofs.Cognition.Status
import EchoEngine.Proofs.Cognition.Timeline

/-!
# Refreshing

What probes leave known of an integration is what the probes of its name say, one after another
(`getElem?_applyAll`).  So the order of probes of different names does not matter (`applyAll_eq`), and the same
probes say nothing new the second time (`applyAll_applyAll`): of what was known before, a probe keeps only whether
the integration was required.

Nothing that a refresh derives is among what it is derived from.  So deriving it once more changes nothing
(`recompute_recompute`); in particular the stage that has been earned is not ahead of the timeline any more, and no
second milestone is set.
-/

namespace EchoEngine

open Std (ExtTreeMap)

/-! ### Probing by name -/

/-- The same probes in another order, in which those of one name stand as before. -/
structure Probe.Reordered (ps qs : List Probe) : Prop where
  perm : qs.Perm ps
  filter_eq : ∀ name, qs.filter (·.name = name) = ps.filter (·.name = name)

namespace Integrations

/-- What is known of an integration after some probes of it. -/
def settle (before : Option Integration) (ps : List Probe) : Option Integration :=
  ps.foldl (fun before p => some (probed before p)) before

theorem settle_concat (before : Option Integration) (ps : List Probe) (p : Probe) :
    settle before (ps ++ [p]) = some (probed (settle before ps) p) :=
  List.foldl_concat ..

/-- Of what was known before it, a probe keeps only the requirement. -/
theorem probed_congr {before before' : Option Integration} {p : Probe}
    (h : (before.any (·.required) || p.required) = (before'.any (·.required) || p.required)) :
    probed before p = probed before' p := by
  rw [probed, probed, h]

theorem required_settle (before : Option Integration) (ps : List Probe) :
    (settle before ps).any (·.required) = (before.any (·.required) || ps.any (·.required)) := by
  induction ps using List.reverseRecOn with
  | nil => simp [settle]
  | append_singleton ps p ih =>
    rw [settle_concat, Option.any_some, required_probed, ih, List.any_append]
    simp [Bool.or_assoc]

theorem settle_settle (before : Option Integration) (ps : List Probe) :
    settle (settle before ps) ps = settle before ps := by
  rcases List.eq_nil_or_concat' ps with rfl | ⟨earlier, p, rfl⟩
  · rfl
  · -- both times the last probe decides, and what it does not say has been required by then
    rw [settle_concat _ earlier, settle_concat before earlier]
    refine congrArg some (probed_congr ?_)
    rw [required_settle, Option.any_some, required_probed, required_settle]
    cases before.any (·.required) <;> cases earlier.any (·.required) <;> cases p.required <;> rfl

theorem getElem?_applyAll (is : Integrations) (ps : List Probe) (name : String) :
    (is.applyAll ps)[name]? = settle is[name]? (ps.filter (·.name = name)) := by
  induction ps using List.reverseRecOn with
  | nil => rfl
  | append_singleton ps p ih =>
    rw [applyAll, List.foldl_concat, ← applyAll, getElem?_apply, List.filter_append]
    by_cases h : p.name = name
    · have hsingle : [p].filter (·.name = name) = [p] := by simp [h]
      rw [if_pos h, h, ih, hsingle, settle_concat]
    · have hnone : [p].filter (·.name = name) = [] := by simp [h]
      rw [if_neg h, ih, hnone, List.append_nil]

theorem applyAll_eq (is : Integrations) {ps qs : List Probe} (h : Probe.Reordered ps qs) :
    is.applyAll qs = is.applyAll ps := by
  refine ExtTreeMap.ext_getElem? fun name => ?_
  rw [getElem?_applyAll, getElem?_applyAll, h.filter_eq name]

theorem applyAll_applyAll (is : Integrations) (ps : List Probe) :
    (is.applyAll ps).applyAll ps = is.applyAll ps := by
  refine ExtTreeMap.ext_getElem? fun name => ?_
  rw [getElem?_applyAll, getElem?_applyAll, settle_settle]

end Integrations

/-! ### Deriving once more -/

theorem Timeline.advance_advance (t : Timeline) (stage : Stage) (now later : Timestamp) :
    (t.advance stage now).advance stage later = t.advance stage now := by
  refine advance_of_le ?_
  rw [current_advance]
  exact le_max_right t.current stage

namespace Tracker

variable {α : Type} [Scalar α]

theorem recompute_recompute (t : Tracker α) (now later : Timestamp) :
    (t.recompute now).recompute later = t.recompute now := by
  -- health, coherence and stage are what they were, as none of them is derived from another one of the state
  have hhealth : (t.recompute now).health = t.health := rfl
  have hearned : (t.recompute now).earned = t.earned := rfl
  have htimeline : (t.recompute now).state.timeline.advance t.earned later =
      t.state.timeline.advance t.earned now :=
    Timeline.advance_advance t.state.timeline t.earned now later
  rw [recompute, hhealth, hearned, htimeline]
  rfl

theorem probe_recompute_probe (t : Tracker α) (ps : List Probe) (now : Timestamp) :
    ((t.probe ps).recompute now).probe ps = (t.probe ps).recompute now := by
  have hknown : ((t.probe ps).recompute now).state.integrations.applyAll ps =
      ((t.probe ps).recompute now).state.integrations :=
    t.state.integrations.applyAll_applyAll ps
  rw [probe, hknown]

/-- From whatever state, and whenever it is done, refreshing with the same probes once more changes nothing, and
neither does it matter in which order different names are probed: the whole tracker and what is reported stay the
same. -/
theorem refresh_stable (t : Tracker α) (ps : List Probe) (now : Timestamp) :
    (∀ later, (t.refresh ps now).refresh ps later = t.refresh ps now ∧
      ((t.refresh ps now).refresh ps later).availability = (t.refresh ps now).availability) ∧
    ∀ qs, Probe.Reordered ps qs → t.refresh qs now = t.refresh ps now ∧
      (t.refresh qs now).availability = (t.refresh ps now).availability := by
  constructor
  · intro later
    have hrefresh : (t.refresh ps now).refresh ps later = t.refresh ps now := by
      rw [refresh, refresh, probe_recompute_probe, recompute_recompute]
    exact ⟨hrefresh, congrArg availability hrefresh⟩
  · intro qs hqs
    have hprobe : t.probe qs = t.probe ps := by
      rw [probe, probe, t.state.integrations.applyAll_eq hqs]
    have hrefresh : t.refresh qs now = t.refresh ps now := by
      rw [refresh, refresh, hprobe]
    exact ⟨hrefresh, congrArg availability hrefresh⟩

def sampleProbes : List Probe :=
  [⟨"store", false, true⟩, ⟨"cognitive_backend", true, true⟩, ⟨"store", true, false⟩]

def reorderedProbes : List Probe :=
  [⟨"store", false, true⟩, ⟨"store", true, false⟩, ⟨"cognitive_backend", true, true⟩]

theorem reordered_sampleProbes : Probe.Reordered sampleProbes reorderedProbes where
  perm := by decide
  filter_eq name := by
    by_cases hstore : "store" = name
    · simp [sampleProbes, reorderedProbes, ← hstore]
    · simp [sampleProbes, reorderedProbes, List.filter_cons, hstore]

theorem refresh_stable_sampleProbes :
    (∀ later, ((new .standard .standard : Tracker Float).refresh sampleProbes ⟨0, 0⟩).refresh sampleProbes later =
      (new .standard .standard).refresh sampleProbes ⟨0, 0⟩) ∧
    Probe.Reordered sampleProbes reorderedProbes ∧
    (new .standard .standard : Tracker Float).refresh reorderedProbes ⟨0, 0⟩ =
      (new .standard .standard).refresh sampleProbes ⟨0, 0⟩ := by
  obtain ⟨htwice, horder⟩ := refresh_stable (new .standard .standard : Tracker Float) sampleProbes ⟨0, 0⟩
  exact ⟨fun later => (htwice later).1, reordered_sampleProbes, (horder _ reordered_sampleProbes).1⟩

end Tracker

end EchoEngine
