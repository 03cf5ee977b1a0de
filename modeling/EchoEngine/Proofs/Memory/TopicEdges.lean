import EchoEngine.Proofs.Memory.Replay

/-!
# Edges between partners

In every graph that is reached, partners are joined if topics are linked at all (`partnered_replay`).
A fold examines its own files when all of them carry their topics.  Two keys that it does not name had
at least as much in common before, because more carriers only make fewer topics distinctive, so they
were partners already; and a pair with a key that it names is found from that key, whichever of the
two that is, because the relation is symmetric.
-/

namespace EchoEngine

open Std (ExtTreeMap ExtTreeSet)

variable {α : Type}

namespace MemoryGraph

/-- Partners are joined, if topics are linked. -/
def Partnered (g : MemoryGraph α) : Prop :=
  g.settings.topicEdges → ∀ a b, g.Partners a b → g.adjacent a b

theorem indexed_empty (settings : GraphSettings) : (empty settings : MemoryGraph α).Indexed := by
  intro key t _
  simp [empty, node?]

theorem partnered_empty (settings : GraphSettings) : (empty settings : MemoryGraph α).Partnered := by
  rintro - a b ⟨-, ⟨t, ht⟩, -⟩
  simp [common, empty] at ht

theorem Indexed.of_rewired {g g' : MemoryGraph α} (h : g.Indexed) (hrewired : g.Rewired g') :
    g'.Indexed := by
  obtain ⟨_, _, rfl⟩ := hrewired
  exact h

theorem Partners.of_rewired {g g' : MemoryGraph α} (hrewired : g.Rewired g') {a b : String} :
    g'.Partners a b ↔ g.Partners a b := by
  obtain ⟨_, _, rfl⟩ := hrewired
  exact ⟨fun ⟨h, h', h''⟩ => ⟨h, h', h''⟩, fun ⟨h, h', h''⟩ => ⟨h, h', h''⟩⟩

theorem Indexed.of_sameOnPaths {g g' : MemoryGraph α} (h : g.Indexed) (hsame : g.SameOnPaths g') :
    g'.Indexed := by
  intro key t hkey
  rw [hsame.carriers, hsame.node key hkey]
  exact h key t hkey

/-! ### Files carry their topics -/

private theorem mem_topics_met {before : Option (MemoryNode α)} {n : MemoryNode α} {t : String} :
    t ∈ (MemoryNode.met before n).topics ↔ (∃ old, before = some old ∧ t ∈ old.topics) ∨ t ∈ n.topics := by
  cases before with
  | none => simp [MemoryNode.met]
  | some old => simp [MemoryNode.met, MemoryNode.revisit, ExtTreeSet.mem_union_iff]

theorem Indexed.addFile {w : Growing α} (h : w.graph.Indexed) (f : PlannedFile α) :
    (w.addFile f).graph.Indexed := by
  intro key t hkey
  rw [Growing.mem_carriers_addFile, Growing.node?_addFile, h key t hkey]
  by_cases hf : f.key = key
  · subst hf
    simp [mem_topics_met, MemoryNode.ofFile, or_comm]
  · simp [hf, Ne.symm hf]

theorem Indexed.addDirectory [Scalar α] {w : Growing α} (h : w.graph.Indexed)
    (d : String × Option String) : (w.addDirectory d).graph.Indexed := by
  intro key t hkey
  rw [Growing.carriers_addDirectory, Growing.node?_addDirectory, h key t hkey]
  by_cases hd : d.1 = key
  · subst hd
    simp [mem_topics_met, MemoryNode.ofDirectory]
  · simp [hd]

theorem mem_carriers_addFiles {w : Growing α} {files : List (PlannedFile α)} {topic x : String} :
    x ∈ (w.addFiles files).graph.carriers.members topic ↔
      (∃ f ∈ files, topic ∈ f.topics ∧ x = f.key) ∨ x ∈ w.graph.carriers.members topic := by
  induction files generalizing w with
  | nil => simp [Growing.addFiles]
  | cons f files ih =>
    have hrest : w.addFiles (f :: files) = (w.addFile f).addFiles files := rfl
    rw [hrest, ih, Growing.mem_carriers_addFile]
    simp only [List.mem_cons, exists_eq_or_imp]
    rw [← or_assoc]
    exact or_congr_left or_comm

theorem carriers_addDirectories [Scalar α] (w : Growing α)
    (directories : ExtTreeMap String (Option String)) :
    (w.addDirectories directories).graph.carriers = w.graph.carriers :=
  List.foldlRecOn (motive := fun w' : Growing α => w'.graph.carriers = w.graph.carriers) _ _ rfl
    fun w' hw d _ => (Growing.carriers_addDirectory w' d).trans hw

theorem mem_carriers_enter [Scalar α] {g : MemoryGraph α} {plan : FoldPlan α} {topic x : String} :
    x ∈ (g.enter plan).graph.carriers.members topic ↔
      (∃ f ∈ plan.files, topic ∈ f.topics ∧ x = f.key) ∨ x ∈ g.carriers.members topic := by
  rw [enter, mem_carriers_addFiles, carriers_addDirectories]

theorem Indexed.enter [Scalar α] {g : MemoryGraph α} (h : g.Indexed) (plan : FoldPlan α) :
    (g.enter plan).graph.Indexed :=
  enter_induction (P := fun w => w.graph.Indexed) h (fun _ d parent _ hw => hw.addDirectory (d, parent))
    (fun _ f _ hw => hw.addFile f)

/-! ### Partners are joined -/

theorem rewired_joinPartners (w : Growing α) (f : PlannedFile α) :
    w.graph.Rewired (w.joinPartners f).graph :=
  List.foldlRecOn (motive := fun w' : Growing α => w.graph.Rewired w'.graph) _ _ (.refl _)
    fun w' hw other _ => hw.trans (Growing.rewired_join w' f.key other)

theorem rewired_joinTopics (w : Growing α) (files : List (PlannedFile α)) :
    w.graph.Rewired (w.joinTopics files).graph :=
  Growing.joinTopics_induction (P := fun w' => w.graph.Rewired w'.graph) (.refl _)
    fun w' f _ hw => hw.trans (rewired_joinPartners w' f)

/-- Carriers of topics are paths. -/
def PathsCarry (g : MemoryGraph α) : Prop :=
  ∀ topic key, key ∈ g.carriers.members topic → IsPath key

private theorem adjacent_joinPartners {w : Growing α} (hcarry : w.graph.PathsCarry) {f : PlannedFile α}
    (hf : IsPath f.key) {other : String} (hother : other ∈ w.graph.partners f.key) (hne : f.key ≠ other) :
    (w.joinPartners f).graph.adjacent f.key other := by
  have hjoined : ∀ b ∈ w.graph.partners f.key, f.key = b ∨ (w.joinPartners f).graph.adjacent f.key b := by
    refine foldl_establishes (P := fun g b => f.key = b ∨ g.adjacent f.key b)
      (fun w' b => extends_join w' f.key b) (fun w' b => Growing.eq_or_adjacent_join w' f.key b) ?_ w
    intro b hb g g' hextends
    obtain ⟨topic, htopic⟩ := exists_carrier_of_mem_partners hb
    exact Or.imp_right (hextends.adjacent f.key b hf (hcarry topic b htopic))
  exact (hjoined other hother).resolve_left hne

private theorem adjacent_foldl_joinPartners {w : Growing α} (hindexed : w.graph.Indexed)
    (hcarry : w.graph.PathsCarry) {files : List (PlannedFile α)} (hpaths : ∀ f ∈ files, IsPath f.key)
    {f : PlannedFile α} (hf : f ∈ files) {b : String} (hb : w.graph.Partners f.key b) :
    (files.foldl Growing.joinPartners w).graph.adjacent f.key b := by
  induction files generalizing w with
  | nil => contradiction
  | cons x files ih =>
    rw [List.mem_cons] at hf
    rcases hf with rfl | hf
    · have hkey := hpaths f List.mem_cons_self
      have hmem := (mem_partners hindexed hkey).2 hb
      obtain ⟨topic, htopic⟩ := exists_carrier_of_mem_partners hmem
      exact (extends_foldl extends_joinPartners files _).adjacent f.key b hkey (hcarry topic b htopic)
        (adjacent_joinPartners hcarry hkey hmem hb.ne)
    · have hrewired := rewired_joinPartners w x
      refine ih (hindexed.of_rewired hrewired) ?_ (fun y hy => hpaths y (List.mem_cons_of_mem _ hy)) hf
        ((Partners.of_rewired hrewired).2 hb)
      unfold PathsCarry
      rw [hrewired.carriers]
      exact hcarry

theorem Partnered.of_sameOnPaths {g g' : MemoryGraph α} (hsound : g.Sound ∅) (h : g.Partnered)
    (hsame : g.SameOnPaths g') : g'.Partnered := by
  intro htopics a b hab
  have hsubset : g'.common a b ⊆ g.common a b := by
    intro t ht
    simp only [common, Distinctive, hsame.carriers, hsame.settings] at ht
    exact ht
  obtain ⟨t, ht⟩ := hab.nonempty
  rw [hsame.settings] at htopics
  exact (hsame.adjacent a b (hsound.carrier t a (hsubset ht).2.1).1
    (hsound.carrier t b (hsubset ht).2.2).1).2
    (h htopics a b (hab.of_common_subset hsame.settings.symm hsubset))

variable [Scalar α]

theorem Indexed.fold {g : MemoryGraph α} (h : g.Indexed) (plan : FoldPlan α) :
    (g.fold plan).graph.Indexed :=
  (h.enter plan).of_rewired (rewired_joinTopics _ _)

/-- Keys that a fold does not name have had as much in common before it. -/
private theorem common_subset {g : MemoryGraph α} {plan : FoldPlan α} {a b : String}
    (ha : ¬∃ f ∈ plan.files, a = f.key) (hb : ¬∃ f ∈ plan.files, b = f.key) :
    (g.enter plan).graph.common a b ⊆ g.common a b := by
  have hold : ∀ key t, (¬∃ f ∈ plan.files, key = f.key) →
      key ∈ (g.enter plan).graph.carriers.members t → key ∈ g.carriers.members t := by
    intro key t hkey hmem
    rw [mem_carriers_enter] at hmem
    rcases hmem with ⟨f, hf, -, rfl⟩ | hmem
    · exact absurd ⟨f, hf, rfl⟩ hkey
    · exact hmem
  rintro t ⟨hdistinctive, hta, htb⟩
  exact ⟨hdistinctive.anti (extends_enter g plan), hold a t ha hta, hold b t hb htb⟩

theorem Partnered.fold {g : MemoryGraph α} (hsound : g.Sound ∅) (hindexed : g.Indexed) (h : g.Partnered)
    {plan : FoldPlan α} (hplan : plan.Closed) : (g.fold plan).graph.Partnered := by
  intro htopics a b hab
  have hfold := hsound.fold hplan
  have hrewired : (g.enter plan).graph.Rewired (g.fold plan).graph := rewired_joinTopics _ _
  have hpartners : (g.enter plan).graph.Partners a b := (Partners.of_rewired hrewired).1 hab
  -- a pair that the fold examines from its first key
  have hexamined : ∀ f ∈ plan.files, ∀ other, (g.enter plan).graph.Partners f.key other →
      (g.fold plan).graph.adjacent f.key other := by
    intro f hf other hother
    have hcarry : (g.enter plan).graph.PathsCarry := by
      intro topic key hkey
      rw [← hrewired.carriers] at hkey
      exact (hfold.carrier topic key hkey).1
    have hsettings : (g.enter plan).graph.settings.topicEdges := by
      rwa [hrewired.settings] at htopics
    have hjoined := adjacent_foldl_joinPartners (hindexed.enter plan) hcarry hplan.file_path hf hother
    unfold MemoryGraph.fold Growing.joinTopics
    rw [if_pos hsettings]
    exact hjoined
  by_cases ha : ∃ f ∈ plan.files, a = f.key
  · obtain ⟨f, hf, rfl⟩ := ha
    exact hexamined f hf b hpartners
  · by_cases hb : ∃ f ∈ plan.files, b = f.key
    · obtain ⟨f, hf, rfl⟩ := hb
      exact hfold.symmetric _ _ (hexamined f hf a hpartners.symm)
    · -- neither is named, so they have been partners before
      have hextends := extends_fold g plan
      have hsubset := common_subset (g := g) ha hb
      have hold : g.Partners a b :=
        hpartners.of_common_subset (extends_enter g plan).settings.symm hsubset
      obtain ⟨t, ht⟩ := hpartners.nonempty
      rw [hextends.settings] at htopics
      exact hextends.adjacent a b (hsound.carrier t a (hsubset ht).2.1).1
        (hsound.carrier t b (hsubset ht).2.2).1 (h htopics a b hold)

/-! ### Runs -/

theorem Indexed.apply {g : MemoryGraph α} (hsound : g.Sound ∅) (h : g.Indexed) (e : MemoryEvent α) :
    (g.apply e).Indexed := by
  cases e with
  | fold s => exact h.fold _
  | record agent task summary => exact h.of_sameOnPaths (sameOnPaths_record hsound agent task summary)

theorem Partnered.apply {g : MemoryGraph α} (hsound : g.Sound ∅) (hindexed : g.Indexed) (h : g.Partnered)
    {e : MemoryEvent α} (he : e.Rooted) : (g.apply e).Partnered := by
  cases e with
  | fold s => exact h.fold hsound hindexed (FoldPlan.closed_ofSnapshot s he)
  | record agent task summary =>
    exact h.of_sameOnPaths hsound (sameOnPaths_record hsound agent task summary)

/-- In every graph that is reached, files carry their topics and partners are joined. -/
theorem partnered_replay (settings : GraphSettings) {es : List (MemoryEvent α)}
    (hes : ∀ e ∈ es, e.Rooted) :
    (replay settings es).Indexed ∧ (replay settings es).Partnered := by
  have hrun : (replay settings es).Sound ∅ ∧ (replay settings es).Indexed ∧
      (replay settings es).Partnered :=
    List.foldlRecOn (motive := fun g : MemoryGraph α => g.Sound ∅ ∧ g.Indexed ∧ g.Partnered) _ _
      ⟨sound_empty settings, indexed_empty settings, partnered_empty settings⟩
      fun _ hg e he => ⟨hg.1.apply (hes e he), hg.2.1.apply hg.1 e, hg.2.2.apply hg.1 hg.2.1 (hes e he)⟩
  exact hrun.2

end MemoryGraph

end EchoEngine
