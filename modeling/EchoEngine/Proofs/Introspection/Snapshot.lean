import EchoEngine.Introspection.Scan
import EchoEngine.Proofs.Introspection.Threshold
import EchoEngine.Proofs.Ranking
import EchoEngine.Proofs.Text.ByteOrder

/-!
# What a snapshot is made of

A snapshot splits files at the threshold: those that score at least as much are listed, each once, higher scores
first and equal ones by the bytes of their paths, and the others, which score less than any that is listed, are counted
(`assembles_ofFiles`).  Files are listed by the total order of doubles and split by comparison, and both zeros are on
one side of the split.

The listing is the only one in this order, the threshold is that of the scores in any order, and the newest file is
the newest one in any order.  So a snapshot does not depend on the order in which files are visited
(`assembles_snapshot`).
-/

namespace EchoEngine

open Files

theorem Salience.threshold_perm {xs ys : List Float} (h : ys.Perm xs) (hxs : ∀ x ∈ xs, x.isNaN = false)
    (percentile : Float) : threshold order ys percentile = threshold order xs percentile := by
  have hys : Ascending (sorted order ys) := ascending_sorted fun y hy => hxs y (h.mem_iff.1 hy)
  rw [threshold, threshold, sorted_eq hxs hys ((perm_sorted order ys).trans h), h.length_eq]

namespace Snapshot

/-! ### The order of the listing -/

/-- A file is listed before another one: it scores higher in the total order, or the same and the bytes of its path
are less. -/
def Precedes (a b : SalientFile Float) : Prop :=
  Decimal.rank b.salience < Decimal.rank a.salience ∨ a.salience = b.salience ∧ Text.utf8 a.path < Text.utf8 b.path

theorem ranksBy_ranksBefore :
    RanksBy ranksBefore (fun f : SalientFile Float => Decimal.rank f.salience) (·.path) := by
  intro a b
  beta_reduce
  have horder : Scalar.order b.salience a.salience =
      compare (Decimal.rank b.salience) (Decimal.rank a.salience) := rfl
  rw [ranksBefore, horder]
  rcases lt_trichotomy (Decimal.rank b.salience) (Decimal.rank a.salience) with h | h | h
  · rw [compare_lt_iff_lt.2 h]
    exact iff_of_true rfl (.inl h)
  · have hpath : (compare a.path b.path).isLE ↔ a.path ≤ b.path :=
      Ordering.isLE_iff_ne_gt.trans compare_le_iff_le
    rw [compare_eq_iff_eq.2 h, Ordering.then, hpath]
    simp [h]
  · rw [compare_gt_iff_gt.2 h]
    exact iff_of_false nofun (by omega)

/-! ### The split -/

/-- A snapshot lists, once each and in order, those of some files that score at least the threshold, which is that of
their scores at a percentile.  It counts the others, and whatever is listed scores more than they do. -/
structure Assembles (snapshot : Snapshot Float) (percentile : Float) (files : List (SalientFile Float)) : Prop where
  threshold_eq : snapshot.threshold = Salience.threshold Salience.order (files.map (·.salience)) percentile
  processed : snapshot.processed = files.length
  partition : snapshot.filtered + snapshot.salient.length = snapshot.processed
  mem_iff : ∀ f, f ∈ snapshot.salient ↔ f ∈ files ∧ snapshot.threshold ≤ f.salience
  nodup : (snapshot.salient.map (·.path)).Nodup
  ordered : snapshot.salient.Pairwise Precedes
  below : ∀ f ∈ files, f ∉ snapshot.salient → ∀ g ∈ snapshot.salient, f.salience < g.salience

section

variable (root : String) (percentile : Float) {files files' : List (SalientFile Float)}

theorem mem_salient_iff (f : SalientFile Float) : f ∈ (ofFiles root percentile files).salient ↔
    f ∈ files ∧ (ofFiles root percentile files).threshold ≤ f.salience := by
  rw [ofFiles, List.mem_mergeSort, List.mem_filter, decide_eq_true_eq]

theorem assembles_ofFiles (hpaths : (files.map (·.path)).Nodup) (hfiles : ∀ f ∈ files, f.salience.isNaN = false) :
    (ofFiles root percentile files).Assembles percentile files := by
  have hperm := List.mergeSort_perm (files.filter fun f =>
    Salience.threshold Salience.order (files.map (·.salience)) percentile ≤ f.salience) ranksBefore
  have hnodup : ((ofFiles root percentile files).salient.map (·.path)).Nodup :=
    (hperm.map _).nodup_iff.2 (hpaths.sublist (List.filter_sublist.map _))
  refine ⟨rfl, rfl, ?partition, mem_salient_iff root percentile, hnodup, ?ordered, ?below⟩
  case partition =>
    have hlength := hperm.length_eq.trans_le (List.length_filter_le _ files)
    exact Nat.sub_add_cancel hlength
  case ordered =>
    refine (ranksBy_ranksBefore.pairwise_mergeSort (hpaths.sublist (List.filter_sublist.map _))).imp_of_mem ?_
    intro a b ha hb hab
    have hnumber : ∀ f ∈ (ofFiles root percentile files).salient, f.salience.isNaN = false := fun f hf =>
      hfiles f ((mem_salient_iff root percentile f).1 hf).1
    refine hab.imp_right fun ⟨hrank, hpath⟩ => ?_
    exact ⟨Decimal.eq_of_rank_eq (hnumber a ha) (hnumber b hb) hrank, Text.lt_iff_utf8_lt.1 hpath⟩
  case below =>
    intro f hf hfiltered g hg
    have hscores : ∀ x ∈ files.map (·.salience), x.isNaN = false := List.forall_mem_map.2 hfiles
    have hthreshold : (ofFiles root percentile files).threshold.isNaN = false :=
      hscores _ (Salience.atRank_threshold (List.ne_nil_of_mem (List.mem_map_of_mem hf)) hscores percentile).mem
    obtain ⟨hgfiles, hgthreshold⟩ := (mem_salient_iff root percentile g).1 hg
    have hless : ¬(ofFiles root percentile files).threshold ≤ f.salience := fun hle =>
      hfiltered ((mem_salient_iff root percentile f).2 ⟨hf, hle⟩)
    rw [Decimal.le_iff_height_le hthreshold (hfiles f hf)] at hless
    rw [Decimal.le_iff_height_le hthreshold (hfiles g hgfiles)] at hgthreshold
    exact (Decimal.lt_iff_height_lt (hfiles f hf) (hfiles g hgfiles)).2 (by omega)

/-- A file that scores as much as any is listed. -/
theorem Assembles.mem_of_forall_le {snapshot : Snapshot Float} {percentile : Float} {files : List (SalientFile Float)}
    (h : snapshot.Assembles percentile files) (hfiles : ∀ f ∈ files, f.salience.isNaN = false)
    {f : SalientFile Float} (hf : f ∈ files) (hle : ∀ g ∈ files, g.salience ≤ f.salience) : f ∈ snapshot.salient := by
  have hscores : ∀ x ∈ files.map (·.salience), x.isNaN = false := List.forall_mem_map.2 hfiles
  have hmem := (Salience.atRank_threshold (List.ne_nil_of_mem (List.mem_map_of_mem hf)) hscores percentile).mem
  -- the threshold is the score of some file
  obtain ⟨g, hg, hthreshold⟩ := List.mem_map.1 hmem
  rw [h.mem_iff, h.threshold_eq, ← hthreshold]
  exact ⟨hf, hle g hg⟩

theorem ofFiles_perm (h : files'.Perm files) (hpaths : (files.map (·.path)).Nodup)
    (hfiles : ∀ f ∈ files, f.salience.isNaN = false) :
    ofFiles root percentile files' = ofFiles root percentile files := by
  have hthreshold : Salience.threshold Salience.order (files'.map (·.salience)) percentile =
      Salience.threshold Salience.order (files.map (·.salience)) percentile :=
    Salience.threshold_perm (h.map _) (List.forall_mem_map.2 hfiles) percentile
  have hsalient := ranksBy_ranksBefore.mergeSort_eq_of_perm (h.filter fun f =>
    Salience.threshold Salience.order (files.map (·.salience)) percentile ≤ f.salience)
    (hpaths.sublist (List.filter_sublist.map _))
  rw [ofFiles, ofFiles]
  simp only [hthreshold, hsalient, h.length_eq]

end

end Snapshot

/-! ### Powers of one half

The logic does not say what the power of one half is that novelty is computed by, so it is left open here. -/

/-- Doubles with some power of one half. -/
@[reducible]
def Scalar.doubles (halfPow : Float → Float) : Scalar Float where
  ofNat := Scalar.ofNat
  halfPow
  order := Scalar.order
  isNumber := Scalar.isNumber
  decidableLT := Float.decLt
  decidableLE := Float.decLe

namespace Scanner

variable (s : Scanner) (halfPow : Float → Float) (w : Weights Float)

def scoredBy (newest : Int) (v : Visit) : SalientFile Float :=
  @scored Float (.doubles halfPow) s w newest v

def snapshotBy (root : String) (visits : List Visit) : Snapshot Float :=
  @snapshot Float (.doubles halfPow) s w root visits

/-- Scanning takes the power of the standard library. -/
theorem snapshotBy_pow : s.snapshotBy (Float.pow 0.5) = s.snapshot :=
  rfl

theorem snapshotBy_eq (root : String) (visits : List Visit) : s.snapshotBy halfPow w root visits =
    .ofFiles root s.settings.percentile (visits.map (s.scoredBy halfPow w (newest visits))) :=
  rfl

/-! ### Visits in any order -/

/-- The newest file has the greatest time. -/
theorem newest_eq_iff {visits : List Visit} (h : visits ≠ []) {t : Int} :
    newest visits = t ↔ t ∈ visits.map (·.modified) ∧ ∀ u ∈ visits.map (·.modified), u ≤ t := by
  have hmax : (visits.map (·.modified)).max? = some (newest visits) := by
    cases visits with
    | nil => exact absurd rfl h
    | cons v visits => rfl
  rw [← List.max?_eq_some_iff, hmax, Option.some_inj]

theorem newest_perm {visits visits' : List Visit} (h : visits'.Perm visits) : newest visits' = newest visits := by
  rcases eq_or_ne visits [] with rfl | hne
  · rw [h.eq_nil]
  · have hne' : visits' ≠ [] := fun hnil => hne (h.symm.trans (.of_eq hnil)).eq_nil
    obtain ⟨hmem, hle⟩ := (newest_eq_iff hne).1 rfl
    have hperm := h.map (·.modified)
    exact (newest_eq_iff hne').2 ⟨hperm.mem_iff.2 hmem, fun u hu => hle u (hperm.mem_iff.1 hu)⟩

/-- A snapshot of visited files that have paths of their own, and scores that are numbers, lists those that score at
least the threshold at the percentile of the settings, counts the others, and is the same in whichever order the files
are visited. -/
theorem assembles_snapshot (root : String) {visits : List Visit}
    (hpaths : (visits.map fun v => "/".intercalate v.names).Nodup)
    (hscores : ∀ v ∈ visits, (s.scoredBy halfPow w (newest visits) v).salience.isNaN = false) :
    (s.snapshotBy halfPow w root visits).Assembles s.settings.percentile
      (visits.map (s.scoredBy halfPow w (newest visits))) ∧
    (s.snapshotBy halfPow w root visits).processed = visits.length ∧
    ∀ visits', visits'.Perm visits →
      s.snapshotBy halfPow w root visits' = s.snapshotBy halfPow w root visits := by
  have hnodup : ((visits.map (s.scoredBy halfPow w (newest visits))).map (·.path)).Nodup := by
    rw [List.map_map]
    exact hpaths
  have hfiles : ∀ f ∈ visits.map (s.scoredBy halfPow w (newest visits)), f.salience.isNaN = false :=
    List.forall_mem_map.2 hscores
  simp only [snapshotBy_eq]
  refine ⟨Snapshot.assembles_ofFiles _ _ hnodup hfiles, List.length_map _, fun visits' h => ?_⟩
  rw [newest_perm h]
  exact Snapshot.ofFiles_perm _ _ (h.map _) hnodup hfiles

/-- Two of the files score the same, and the newest one is not the first. -/
def sampleVisits : List Visit :=
  [⟨["src", "main.rs"], 3600000000000⟩, ⟨["b.md"], 0⟩, ⟨["a.md"], 0⟩, ⟨["target", "main.o"], 7200000000000⟩]

/-- The powers of one half for the ages of these files. -/
def samplePow (x : Float) : Float :=
  if x ≤ 0.0 then 1.0 else if x ≤ 1.0 then 0.5 else 0.25

def openScanner : Scanner :=
  ⟨⟨0.6, 3600, 8, true, []⟩, []⟩

theorem assembles_snapshot_sampleVisits :
    (sampleVisits.map fun v => "/".intercalate v.names).Nodup ∧
    (∀ v ∈ sampleVisits,
      (openScanner.scoredBy samplePow .standard (newest sampleVisits) v).salience.isNaN = false) ∧
    (openScanner.snapshotBy samplePow .standard "/tree" sampleVisits).Assembles 0.6
      (sampleVisits.map (openScanner.scoredBy samplePow .standard (newest sampleVisits))) ∧
    (∃ f ∈ (openScanner.snapshotBy samplePow .standard "/tree" sampleVisits).salient, f.path = "src/main.rs") ∧
    openScanner.snapshotBy samplePow .standard "/tree" sampleVisits.reverse =
      openScanner.snapshotBy samplePow .standard "/tree" sampleVisits := by
  have hpaths : (sampleVisits.map fun v => "/".intercalate v.names).Nodup := by decide +kernel
  have hscores : ∀ v ∈ sampleVisits,
      (openScanner.scoredBy samplePow .standard (newest sampleVisits) v).salience.isNaN = false := by
    decide +kernel
  obtain ⟨hassembles, -, hperm⟩ := assembles_snapshot openScanner samplePow .standard "/tree" hpaths hscores
  -- no other file scores more than the first one that is visited
  have hmost : ∀ v ∈ sampleVisits, (openScanner.scoredBy samplePow .standard (newest sampleVisits) v).salience ≤
      (openScanner.scoredBy samplePow .standard (newest sampleVisits) ⟨["src", "main.rs"], 3600000000000⟩).salience := by
    decide +kernel
  have hlisted := hassembles.mem_of_forall_le (List.forall_mem_map.2 hscores)
    (List.mem_map_of_mem List.mem_cons_self) (List.forall_mem_map.2 hmost)
  exact ⟨hpaths, hscores, hassembles, ⟨_, hlisted, by decide +kernel⟩, hperm _ (List.reverse_perm _)⟩

end Scanner

end EchoEngine
