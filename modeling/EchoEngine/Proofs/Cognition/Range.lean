import EchoEngine.Cognition.Diagnostics
import EchoEngine.Proofs.Cognition.History
import EchoEngine.Proofs.Exact
import EchoEngine.Proofs.Introspection.Scan

/-!
# The range of coherence

Without rounding, everything that coherence is made of is a number from zero to one: the coherence of a scanned
file by its kind and depth (`within_coherence`), means of such numbers, and shares of outcomes.  A number is what no
division by zero has gone into, so each mean is taken of something; and the mean of the factors needs no clamp
(`ranged_run`).
-/

namespace EchoEngine

open Exact

/-! ### Files and snapshots -/

theorem FileCategory.within_weight (category : FileCategory) :
    (category.weight : Exact).Within (Set.Icc 0 1) := by
  cases category <;> norm_num [weight]

/-- However deep a file lies, and of whatever kind it is, it has some coherence. -/
theorem Salience.within_coherence (category : FileCategory) (depth : Nat) :
    (coherence category depth : Exact).Within (Set.Ioc 0 1) := by
  obtain ⟨w, ⟨hlow, hhigh⟩, hw⟩ := category.within_weight
  have hdepth : (1 : ℝ) ≤ 1 + depth := le_add_of_nonneg_right depth.cast_nonneg
  have hnear : (0.3 : Exact) / ofReal (1 + depth) = ofReal (0.3 / (1 + depth)) :=
    ofReal_div_eq_ofReal_iff.2 ⟨by positivity, rfl⟩
  have heq : (coherence category depth : Exact) = ofReal (0.7 * w + 0.3 / (1 + depth)) := by
    have hone : (1.0 : Exact) + Scalar.ofNat depth = ofReal (1 + depth) := by norm_num
    rw [coherence, hone, hnear, hw, ofScientific_eq, ofReal_mul, ofReal_add]
  have hpos : (0 : ℝ) < 0.3 / (1 + depth) := by positivity
  have hle : (0.3 : ℝ) / (1 + depth) ≤ 0.3 := div_le_self (by norm_num) hdepth
  rw [heq, within_ofReal]
  constructor
  · exact add_pos_of_nonneg_of_pos (mul_nonneg (by norm_num) hlow) hpos
  · calc 0.7 * w + 0.3 / (1 + depth) ≤ 0.7 * 1 + 0.3 :=
          add_le_add (mul_le_mul_of_nonneg_left hhigh (by norm_num)) hle
      _ = 1 := by norm_num

/-- What a scan reports of a file's coherence is what the path and the depth say. -/
theorem Scanner.coherence_eq_of_mem_salient {α : Type} [Scalar α] {s : Scanner} {world : Files.World}
    {root : String} {w : Weights α} {snapshot : Snapshot α} (h : s.scan world root w = .ok snapshot)
    {f : SalientFile α} (hf : f ∈ snapshot.salient) :
    f.coherence = Salience.coherence (.ofPath f.path) f.depth := by
  unfold scan at h
  split at h
  · cases h
  · split at h
    · cases h
      obtain ⟨v, -, rfl⟩ := List.mem_map.1 (List.mem_filter.1 (List.mem_mergeSort.1 hf)).1
      rfl
    · cases h

namespace Snapshot

/-- A snapshot that some scanner has made of some tree. -/
def Scanned (s : Snapshot Exact) : Prop :=
  ∃ (scanner : Scanner) (world : Files.World) (root : String) (w : Weights Exact),
    scanner.scan world root w = .ok s

/-- Each salient file has some coherence, at most one, and the mean over them is in range. -/
structure Ranged (s : Snapshot Exact) : Prop where
  file : ∀ f ∈ s.salient, f.coherence.Within (Set.Ioc 0 1)
  mean : ∀ c, s.meanCoherence? = some c → c.Within (Set.Icc 0 1)

theorem Scanned.ranged {s : Snapshot Exact} (h : s.Scanned) : s.Ranged := by
  obtain ⟨scanner, world, root, w, hscan⟩ := h
  have hfile : ∀ f ∈ s.salient, f.coherence.Within (Set.Ioc 0 1) := by
    intro f hf
    rw [Scanner.coherence_eq_of_mem_salient hscan hf]
    exact Salience.within_coherence _ _
  refine ⟨hfile, fun c hc => ?_⟩
  unfold meanCoherence? at hc
  split at hc
  · cases hc
  · rename_i hsalient
    cases hc
    refine within_mean (by simpa using hsalient) ?_
    intro c hc
    obtain ⟨f, hf, rfl⟩ := List.mem_map.1 hc
    exact (hfile f hf).mono Set.Ioc_subset_Icc_self

end Snapshot

/-! ### The factors -/

namespace Coherence

/-- Everything is a number from zero to one, and clamping the mean of the factors has left it as it is: two or three
times the overall value is the sum of the factors that are there. -/
structure Ranged (c : Coherence Exact) : Prop where
  overall : c.overall.Within (Set.Icc 0 1)
  memory : c.memory.Within (Set.Icc 0 1)
  introspection : ∀ x, c.introspection = some x → x.Within (Set.Icc 0 1)
  stability : c.stability.Within (Set.Icc 0 1)
  unclamped : c.overall = Scalar.mean (factors c.memory c.introspection c.stability)
  overall_mul_two : c.introspection = none → c.overall * 2.0 = c.memory + c.stability
  overall_mul_three : ∀ x, c.introspection = some x → c.overall * 3.0 = c.memory + c.stability + x

theorem ranged_derive {memory : Exact} {introspection : Option Exact} {stability : Exact}
    (hmemory : memory.Within (Set.Icc 0 1)) (hintrospection : ∀ x, introspection = some x → x.Within (Set.Icc 0 1))
    (hstability : stability.Within (Set.Icc 0 1)) : (derive memory introspection stability).Ranged := by
  have hfactors : ∀ x ∈ factors memory introspection stability, x.Within (Set.Icc 0 1) := by
    cases introspection with
    | none => simp [factors, hmemory, hstability]
    | some x => simp [factors, hmemory, hstability, hintrospection x rfl]
  have hmean : (Scalar.mean (factors memory introspection stability)).Within (Set.Icc 0 1) :=
    within_mean (List.cons_ne_nil memory _) hfactors
  -- the mean lies between the bounds already
  have hclamp := clamp_eq hmean
  have hsum := mean_mul_length (List.cons_ne_nil memory _) hfactors
  refine ⟨?overall, hmemory, hintrospection, hstability, hclamp, ?two, ?three⟩
  case overall =>
    rw [derive, hclamp]
    exact hmean
  case two =>
    rintro rfl
    have htwo : (2.0 : Exact) = Scalar.ofNat 2 := by norm_num
    rw [derive, hclamp, htwo]
    exact hsum
  case three =>
    rintro x rfl
    have hthree : (3.0 : Exact) = Scalar.ofNat 3 := by norm_num
    rw [derive, hclamp, hthree]
    exact hsum

theorem ranged_initial : (initial : Coherence Exact).Ranged := by
  have hmean : (1.0 : Exact) = Scalar.mean [1.0, 1.0] := by
    have heq := mean_map_ofReal (List.cons_ne_nil (1 : ℝ) [1])
    norm_num at heq ⊢
    exact heq.symm
  refine ⟨within_one, within_one, nofun, within_one, hmean, fun _ => ?_, nofun⟩
  norm_num [initial]

/-- Coherence that is in range passes for it. -/
theorem Ranged.isInRange {c : Coherence Exact} (h : c.Ranged) : c.isInRange = true := by
  simp only [Coherence.isInRange, Bool.and_eq_true, inUnit_iff, Option.all_eq_true]
  exact ⟨⟨⟨h.overall, h.memory⟩, h.stability⟩, h.introspection⟩

end Coherence

namespace Tracker

theorem mem_of_mem_remember {β : Type} {limit : Nat} {xs : List β} {x y : β} (h : y ∈ remember limit xs x) :
    y ∈ xs ∨ y = x := by
  rw [remember, List.mem_append, List.mem_singleton] at h
  refine h.imp_left fun hy => ?_
  split at hy
  · exact List.mem_of_mem_drop hy
  · exact hy

variable (t : Tracker Exact)

theorem within_outcomeRatio? {ratio : Exact} (h : t.outcomeRatio? = some ratio) :
    ratio.Within (Set.Icc 0 1) := by
  unfold outcomeRatio? at h
  split at h
  · cases h
  · rename_i houtcomes
    cases h
    exact within_share List.count_le_length (List.length_pos_iff.2 (by simpa using houtcomes))

/-- Only agents with an outcome have a share, so none is a share of nothing. -/
theorem within_memoryConsistency : t.memoryConsistency.Within (Set.Icc 0 1) := by
  have hratios : ∀ ratio ∈ ((t.tallies.toList.map Prod.snd).filter fun tally => 0 < tally.total).map Tally.ratio,
      Within (Set.Icc 0 1) ratio := by
    intro ratio hratio
    obtain ⟨tally, htally, rfl⟩ := List.mem_map.1 hratio
    have htotal : 0 < tally.total := by simpa using (List.mem_filter.1 htally).2
    exact within_share (Nat.le_add_right _ _) htotal
  unfold memoryConsistency
  split
  · exact within_one
  · rename_i hne
    exact within_mean hne hratios

/-- What has been kept of introspections, and the coherence that the state shows, are in range. -/
structure Ranged : Prop where
  coherences : ∀ c ∈ t.coherences, c.Within (Set.Icc 0 1)
  shown : t.state.coherence.Ranged

variable {t}

/-- What is derived from a tracker in range is in range. -/
theorem ranged_coherence (h : ∀ c ∈ t.coherences, c.Within (Set.Icc 0 1)) : t.coherence.Ranged := by
  refine Coherence.ranged_derive t.within_memoryConsistency ?introspection ?stability
  case introspection =>
    intro c hc
    unfold introspectionCoherence? at hc
    split at hc
    · cases hc
    · rename_i hcoherences
      cases hc
      exact within_mean (by simpa using hcoherences) h
  case stability =>
    cases hratio : t.outcomeRatio? with
    | none => exact within_one
    | some ratio => exact t.within_outcomeRatio? hratio

end Tracker

/-- The event folds no other snapshot than one of a scan. -/
def TrackerEvent.Scanned : TrackerEvent Exact → Prop
  | fold s => s.Scanned
  | _ => True

namespace Tracker

theorem ranged_new (settings : CognitionSettings) (graph : GraphSettings) :
    (new settings graph : Tracker Exact).Ranged :=
  ⟨nofun, Coherence.ranged_initial⟩

theorem Ranged.step {t : Tracker Exact} (h : t.Ranged) {e : TrackerEvent Exact} (he : e.Scanned) :
    (t.step e).Ranged := by
  cases e with
  -- a start forgets the coherence of introspections, a fold adds one, and only starts and refreshes derive anew
  | start probes now => exact ⟨nofun, ranged_coherence nofun⟩
  | refresh probes now => exact ⟨h.coherences, ranged_coherence h.coherences⟩
  | record o =>
    unfold Tracker.step Tracker.record
    dsimp only
    split <;> exact ⟨h.coherences, h.shown⟩
  | fold s =>
    refine ⟨?_, h.shown⟩
    change ∀ c ∈ (t.fold s).1.coherences, c.Within (Set.Icc 0 1)
    unfold Tracker.fold
    dsimp only
    split
    · rename_i mean hmean
      intro c hc
      rcases mem_of_mem_remember hc with hc | rfl
      · exact h.coherences c hc
      · exact he.ranged.mean c hmean
    · exact h.coherences

/-- Whatever a tracker has lived through, all coherence in exact numbers is in range, and no mean divides by zero:
that of each scanned file, what the tracker would derive now, and what its state shows.  So the check of ranges
passes. -/
theorem ranged_run (settings : CognitionSettings) (graph : GraphSettings) {es : List (TrackerEvent Exact)}
    (hes : ∀ e ∈ es, e.Scanned) :
    (∀ s, .fold s ∈ es → s.Ranged) ∧
    (run settings graph es).coherence.Ranged ∧ (run settings graph es).state.coherence.Ranged ∧
    Diagnostics.rangesStatus (run settings graph es).state = .pass := by
  have hranged : (run settings graph es).Ranged :=
    List.foldlRecOn (motive := Ranged) es step (ranged_new settings graph) fun t ht e he => ht.step (hes e he)
  refine ⟨fun s hs => (hes _ hs).ranged, ranged_coherence hranged.coherences, hranged.shown, ?_⟩
  rw [Diagnostics.rangesStatus, if_pos hranged.shown.isInRange]

/-! ### A tracker that has been shown a small tree -/

noncomputable def sampleSnapshot : Snapshot Exact :=
  Scanner.sampleScanner.snapshot ⟨0.6, 0.4⟩ "/tree" (Scanner.sampleScanner.visits (.dir Scanner.sampleEntries))

noncomputable def sampleEvents : List (TrackerEvent Exact) :=
  [.start [] ⟨0, 0⟩, .record ⟨⟨"agent-1"⟩, "task-1", .analyze, false, "parse the tree"⟩, .fold sampleSnapshot,
    .refresh [] ⟨60, 0⟩]

theorem scanned_sampleSnapshot : sampleSnapshot.Scanned := by
  refine ⟨Scanner.sampleScanner, Scanner.sampleWorld, "/tree", ⟨0.6, 0.4⟩, ?_⟩
  rw [Scanner.scan, Files.World.resolve?_eq_some_iff.2 Scanner.reaches_sampleWorld]
  rfl

theorem ranged_run_sampleEvents :
    (∀ e ∈ sampleEvents, e.Scanned) ∧ (∀ s, .fold s ∈ sampleEvents → s.Ranged) ∧
    (run .standard ⟨true, true, 1, 8, 1⟩ sampleEvents).coherence.Ranged ∧
    (run .standard ⟨true, true, 1, 8, 1⟩ sampleEvents).state.coherence.Ranged ∧
    Diagnostics.rangesStatus (run .standard ⟨true, true, 1, 8, 1⟩ sampleEvents).state = .pass := by
  have hscanned : ∀ e ∈ sampleEvents, e.Scanned := by
    simp [sampleEvents, TrackerEvent.Scanned, scanned_sampleSnapshot]
  exact ⟨hscanned, ranged_run .standard ⟨true, true, 1, 8, 1⟩ hscanned⟩

end Tracker

end EchoEngine
