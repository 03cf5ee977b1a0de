import EchoEngine.Proofs.Cognition.Checks
import EchoEngine.Proofs.Cognition.History
import Mathlib.Data.String.Basic

/-!
# The status of a state

Health and core status are derived when a tracker starts or is refreshed, right after its integrations have been
probed, and nothing else changes any of them: so they agree in every state (`State.Coherent`), and no check passes
the core while another one finds a required integration down.

What is known of the integrations is what the probes since the latest start have found (`integrations_run`): a name
is required if the system or one of the probes requires it, and down if the latest probe of it has failed.  The
names that a start or a refresh reports are those that are both (`coherent_run`).
-/

namespace EchoEngine

open Std (ExtTreeMap)

/-! ### Probing -/

/-- The latest of the probes of a name. -/
def Probe.latest? (ps : List Probe) (name : String) : Option Probe :=
  ps.reverse.find? (·.name = name)

theorem Probe.latest?_concat (ps : List Probe) (p : Probe) (name : String) :
    latest? (ps ++ [p]) name = if p.name = name then some p else latest? ps name := by
  rw [latest?, List.reverse_concat, List.find?_cons]
  by_cases h : p.name = name <;> simp [h, latest?]

namespace Integrations

variable {is : Integrations} {name : String}

/-- An integration is required. -/
def Requires (is : Integrations) (name : String) : Prop :=
  ∃ i, is[name]? = some i ∧ i.required = true

/-- An integration is disconnected. -/
def Misses (is : Integrations) (name : String) : Prop :=
  ∃ i, is[name]? = some i ∧ i.status = .disconnected

theorem getElem?_apply (is : Integrations) (p : Probe) (name : String) :
    (is.apply p)[name]? = if p.name = name then some (probed is[p.name]? p) else is[name]? := by
  rw [apply, ExtTreeMap.getElem?_insert]
  simp only [Std.compare_eq_iff_eq]

theorem required_probed (before : Option Integration) (p : Probe) :
    (probed before p).required = (before.any (·.required) || p.required) := by
  unfold probed
  split <;> rfl

theorem status_probed (before : Option Integration) (p : Probe) :
    (probed before p).status = .disconnected ↔ p.available = false := by
  unfold probed
  split <;> simp [*]

/-- A probe may require what it probes, and takes no requirement back. -/
theorem requires_apply {p : Probe} :
    (is.apply p).Requires name ↔ is.Requires name ∨ (p.name = name ∧ p.required = true) := by
  unfold Requires
  rw [getElem?_apply]
  by_cases h : p.name = name
  · subst h
    cases is[p.name]? <;> simp [required_probed]
  · simp [h]

theorem misses_apply {p : Probe} :
    (is.apply p).Misses name ↔ if p.name = name then p.available = false else is.Misses name := by
  unfold Misses
  rw [getElem?_apply]
  by_cases h : p.name = name <;> simp [h, status_probed]

theorem requires_applyAll {ps : List Probe} :
    (is.applyAll ps).Requires name ↔ is.Requires name ∨ ∃ p ∈ ps, p.name = name ∧ p.required = true := by
  induction ps using List.reverseRecOn with
  | nil => simp [applyAll]
  | append_singleton ps p ih =>
    rw [applyAll, List.foldl_concat, requires_apply, ← applyAll, ih]
    simp [or_and_right, exists_or, or_assoc]

/-- What has been probed is as the latest probe has found it. -/
theorem misses_applyAll {ps : List Probe} :
    (is.applyAll ps).Misses name ↔
      (∃ p, Probe.latest? ps name = some p ∧ p.available = false) ∨
        (Probe.latest? ps name = none ∧ is.Misses name) := by
  induction ps using List.reverseRecOn with
  | nil => simp [applyAll, Probe.latest?]
  | append_singleton ps p ih =>
    rw [applyAll, List.foldl_concat, misses_apply, ← applyAll, ih, Probe.latest?_concat]
    by_cases h : p.name = name <;> simp [h]

theorem getElem?_initial (name : String) : initial[name]? =
    if name = toolRegistry ∨ name = pluginRegistry then some (.pending false)
    else if name = cognitiveBackend then some (.pending true) else none := by
  have hinsert : initial = (((∅ : Integrations).insert toolRegistry (.pending false)).insert pluginRegistry
      (.pending false)).insert cognitiveBackend (.pending true) := rfl
  rw [hinsert]
  simp only [ExtTreeMap.getElem?_insert, Std.compare_eq_iff_eq, ExtTreeMap.getElem?_empty, eq_comm (b := name)]
  by_cases hbackend : name = cognitiveBackend
  · subst hbackend
    decide
  · grind

theorem requires_initial : initial.Requires name ↔ name = cognitiveBackend := by
  unfold Requires
  rw [getElem?_initial]
  by_cases hbackend : name = cognitiveBackend
  · subst hbackend
    decide
  · by_cases hregistry : name = toolRegistry ∨ name = pluginRegistry <;>
      simp [hbackend, hregistry, Integration.pending]

/-- What has never been probed is not known to be down. -/
theorem not_misses_initial : ¬initial.Misses name := by
  rintro ⟨i, hi, hstatus⟩
  rw [getElem?_initial] at hi
  split at hi
  · cases hi
    cases hstatus
  · split at hi
    · cases hi
      cases hstatus
    · cases hi

/-! ### What is required and down -/

theorem mem_requiredDown : name ∈ is.requiredDown ↔ is.Requires name ∧ is.Misses name := by
  have hmem : ∀ i, (name, i) ∈ is.toList ↔ is[name]? = some i := fun _ =>
    ExtTreeMap.mem_toList_iff_getElem?_eq_some
  simp only [requiredDown, List.mem_map, List.mem_filter, Prod.exists, exists_and_right, exists_eq_right, hmem,
    Integration.isDown, Bool.and_eq_true, decide_eq_true_eq]
  cases h : is[name]? <;> simp [Requires, Misses, h]

theorem pairwise_requiredDown (is : Integrations) : is.requiredDown.Pairwise (· < ·) := by
  have hsub : is.requiredDown.Sublist is.keys := by
    rw [requiredDown, ← ExtTreeMap.map_fst_toList_eq_keys]
    exact List.filter_sublist.map _
  refine List.Pairwise.sublist hsub (ExtTreeMap.ordered_keys.imp ?_)
  intro a b hab
  exact compare_lt_iff_lt.1 hab

end Integrations

/-! ### Coherent states -/

theorem SystemHealth.worse_degraded_ne (h : SystemHealth) : h.worse .degraded ≠ .healthy := by
  cases h <;> decide

variable {α : Type}

/-- What a state shows of its health agrees with its integrations. -/
structure State.Coherent (s : State α) : Prop where
  dormant_iff : s.core = .dormant ↔ s.initialized = false
  active_iff : s.core = .active ↔ s.initialized = true ∧ s.health = .healthy
  not_healthy : ∀ name, s.integrations.Requires name → s.integrations.Misses name → s.health ≠ .healthy

theorem State.Coherent.requiredDown_eq_nil {s : State α} (h : s.Coherent) (hactive : s.core = .active) :
    s.integrations.requiredDown = [] := by
  rw [List.eq_nil_iff_forall_not_mem]
  intro name hname
  obtain ⟨hrequires, hmisses⟩ := Integrations.mem_requiredDown.1 hname
  exact h.not_healthy name hrequires hmisses (h.active_iff.1 hactive).2

/-- A core that passes its check has all integrations that it requires. -/
theorem State.Coherent.not_pass_of_fail {s : State α} (h : s.Coherent) :
    ¬((Diagnostics.cognitiveCore s).status = .pass ∧ (Diagnostics.integrations s).status = .fail) := by
  rintro ⟨hpass, hfail⟩
  have hactive := (Diagnostics.status_cognitiveCore_eq_pass_iff.1 hpass).1
  exact Diagnostics.status_integrations_eq_fail_iff.1 hfail (h.requiredDown_eq_nil hactive)

namespace TrackerEvent

def probes : TrackerEvent α → List Probe
  | start probes _ | refresh probes _ => probes
  | _ => []

/-- All that has been probed since the latest start and by it, or since creation. -/
def probed (es : List (TrackerEvent α)) : List Probe :=
  es.foldl (fun ps e => if e.isStart then e.probes else ps ++ e.probes) []

theorem probed_concat (es : List (TrackerEvent α)) (e : TrackerEvent α) :
    probed (es ++ [e]) = if e.isStart then e.probes else probed es ++ e.probes :=
  List.foldl_concat ..

end TrackerEvent

open TrackerEvent

namespace Tracker

variable [Scalar α]

theorem integrations_step (t : Tracker α) (e : TrackerEvent α) :
    (t.step e).state.integrations = if e.isStart then Integrations.initial.applyAll e.probes
      else t.state.integrations.applyAll e.probes := by
  cases hsettles : e.settles with
  | true =>
    cases e with
    | start probes now => rfl
    | refresh probes now => rfl
    | _ => cases hsettles
  | false =>
    obtain ⟨thoughts, depth, resonance, hstate⟩ := state_step_of_not_settles t hsettles
    rw [hstate]
    cases e with
    | record o => rfl
    | fold s => rfl
    | _ => cases hsettles

/-- The integrations are what the probes since the latest start have found. -/
theorem integrations_run (settings : CognitionSettings) (graph : GraphSettings) (es : List (TrackerEvent α)) :
    (run settings graph es).state.integrations = Integrations.initial.applyAll (probed es) := by
  induction es using List.reverseRecOn with
  | nil => rfl
  | append_singleton es e ih =>
    rw [run_concat, integrations_step, ih, probed_concat]
    split
    · rfl
    · exact (List.foldl_append ..).symm

/-- Whatever has been kept, what is derived from it is coherent. -/
theorem coherent_recompute (t : Tracker α) (now : Timestamp) : (t.recompute now).state.Coherent where
  dormant_iff := by
    change CoreStatus.ofHealth t.state.initialized t.health = .dormant ↔ t.state.initialized = false
    cases t.state.initialized <;> cases t.health <;> decide
  active_iff := by
    change CoreStatus.ofHealth t.state.initialized t.health = .active ↔
      t.state.initialized = true ∧ t.health = .healthy
    cases t.state.initialized <;> cases t.health <;> decide
  not_healthy name hrequires hmisses := by
    change t.health ≠ .healthy
    have hdown : t.state.integrations.requiredDown.isEmpty = false := by
      rw [List.isEmpty_eq_false_iff]
      exact List.ne_nil_of_mem (Integrations.mem_requiredDown.2 ⟨hrequires, hmisses⟩)
    rw [health, hdown, if_neg Bool.false_ne_true]
    exact SystemHealth.worse_degraded_ne _

theorem coherent_new (settings : CognitionSettings) (graph : GraphSettings) :
    (new settings graph : Tracker α).state.Coherent where
  dormant_iff := iff_of_true rfl rfl
  active_iff := iff_of_false nofun nofun
  not_healthy _ _ hmisses := absurd hmisses Integrations.not_misses_initial

theorem coherent_step {t : Tracker α} (h : t.state.Coherent) (e : TrackerEvent α) :
    (t.step e).state.Coherent := by
  cases hsettles : e.settles with
  | false =>
    -- neither the status nor what it is derived from has changed
    obtain ⟨thoughts, depth, resonance, hstate⟩ := state_step_of_not_settles t hsettles
    rw [hstate]
    exact ⟨h.dormant_iff, h.active_iff, h.not_healthy⟩
  | true =>
    cases e with
    | start probes now => exact coherent_recompute _ now
    | refresh probes now => exact coherent_recompute _ now
    | record o => cases hsettles
    | fold s => cases hsettles

theorem coherent_state_run (settings : CognitionSettings) (graph : GraphSettings)
    (es : List (TrackerEvent α)) : (run settings graph es).state.Coherent :=
  List.foldlRecOn (motive := fun t : Tracker α => t.state.Coherent) _ _ (coherent_new settings graph)
    fun _ ht e _ => coherent_step ht e

/-- A requirement is forgotten only by the next start. -/
theorem requires_run_append (settings : CognitionSettings) (graph : GraphSettings) (es : List (TrackerEvent α))
    {later : List (TrackerEvent α)} (hlater : ∀ e ∈ later, e.isStart = false) {name : String}
    (h : (run settings graph es).state.integrations.Requires name) :
    (run settings graph (es ++ later)).state.integrations.Requires name := by
  induction later using List.reverseRecOn with
  | nil => rwa [List.append_nil]
  | append_singleton later e ih =>
    rw [← List.append_assoc, run_concat, integrations_step, hlater e (by simp), if_neg Bool.false_ne_true,
      Integrations.requires_applyAll]
    exact .inl (ih fun e he => hlater e (List.mem_append_left _ he))

/-! ### What is reported -/

/-- A tracker that has just started or been refreshed reports names: those that are required and down, as it shows
itself and as the probes since the latest start say, in ascending order. -/
structure Reports (t : Tracker α) (ps : List Probe) (names : List String) : Prop where
  ascending : names.Pairwise (· < ·)
  mem_iff : ∀ name, name ∈ names ↔ t.state.integrations.Requires name ∧ t.state.integrations.Misses name
  probed_iff : ∀ name, name ∈ names ↔
    (name = Integrations.cognitiveBackend ∨ ∃ p ∈ ps, p.name = name ∧ p.required = true) ∧
      ∃ p, Probe.latest? ps name = some p ∧ p.available = false
  availability : t.availability =
    if names = [] then .ok () else .error (.capabilityUnavailable (", ".intercalate names))

theorem reports_run (settings : CognitionSettings) (graph : GraphSettings) (es : List (TrackerEvent α)) :
    (run settings graph es).Reports (probed es) (run settings graph es).state.integrations.requiredDown where
  ascending := Integrations.pairwise_requiredDown _
  mem_iff _ := Integrations.mem_requiredDown
  probed_iff name := by
    rw [Integrations.mem_requiredDown, integrations_run, Integrations.requires_applyAll,
      Integrations.misses_applyAll, Integrations.requires_initial]
    exact and_congr_right' (or_iff_left fun h => Integrations.not_misses_initial h.2)
  availability := by
    unfold Tracker.availability
    cases (run settings graph es).state.integrations.requiredDown <;> rfl

/-- Whatever a tracker has lived through, its status agrees with its integrations: the core is dormant until a start
and active while the system is healthy, which it is not while a required integration is down.  What is required
stays so until the next start, and a start or refresh reports what is required and down then.  So no diagnosis
passes the core while the integrations fail. -/
theorem coherent_run (settings : CognitionSettings) (graph : GraphSettings) (es : List (TrackerEvent Float)) :
    (run settings graph es).state.Coherent ∧
    (∀ later, (∀ e ∈ later, e.isStart = false) → ∀ name,
      (run settings graph es).state.integrations.Requires name →
        (run settings graph (es ++ later)).state.integrations.Requires name) ∧
    (∀ e : TrackerEvent Float, e.settles →
      ∃ names, ((run settings graph es).step e).Reports (probed (es ++ [e])) names) ∧
    ∀ i now, ∃ core integrations,
      (Diagnostics.run (run settings graph es).state i now).check? "cognitive_core" = some core ∧
      (Diagnostics.run (run settings graph es).state i now).check? "integrations" = some integrations ∧
      ¬(core.status = .pass ∧ integrations.status = .fail) := by
  have hcoherent := coherent_state_run settings graph es
  refine ⟨hcoherent, fun later hlater name => requires_run_append settings graph es hlater, fun e _ => ?_,
    fun i now => ?_⟩
  · rw [← run_concat]
    exact ⟨_, reports_run settings graph (es ++ [e])⟩
  · exact ⟨_, _, Diagnostics.check?_cognitiveCore _ i now, Diagnostics.check?_integrations _ i now,
      hcoherent.not_pass_of_fail⟩

end Tracker

end EchoEngine
