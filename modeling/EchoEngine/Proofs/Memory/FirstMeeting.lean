import EchoEngine.Proofs.Memory.EdgeOrigins

/-!
# The first meeting of two files

Whether two files are joined is settled by the first fold after which both are in the graph: they are joined if
and only if they have enough topics in common then, among those that not too many files carry
(`adjacent_replay_iff`).  Before it there can be no edge between them.  Later folds examine the pair again, but
only find less in common: the topics of a file are those of its name, so they are all there from the first
meeting on, while the carriers of a topic only become more (`common_replay_append_subset`).
-/

namespace EchoEngine

open FoldPlan MemoryEvent

variable {α : Type}

namespace MemoryGraph

/-- Being partners is having as many topics in common as is asked for, and one if none is. -/
theorem partners_iff {g : MemoryGraph α} {a b : String} (hne : a ≠ b) :
    g.Partners a b ↔ ((max 1 g.settings.minSharedTopics : ℕ) : ℕ∞) ≤ (g.common a b).encard := by
  rw [(Nat.mono_cast (α := ℕ∞)).map_max, max_le_iff, Nat.cast_one, Set.one_le_encard_iff_nonempty]
  constructor
  · intro h
    exact ⟨h.nonempty, h.enough⟩
  · rintro ⟨hnonempty, henough⟩
    exact ⟨hne, hnonempty, henough⟩

variable [Scalar α] {settings : GraphSettings}

/-- Two keys are both in the graph after a fold, and at no time before it. -/
structure MeetAt (settings : GraphSettings) (before : List (MemoryEvent α)) (s : Snapshot α)
    (a b : String) : Prop where
  together : (replay settings (before ++ [.fold s])).contains a ∧
    (replay settings (before ++ [.fold s])).contains b
  not_before : ∀ es, es <+: before →
    ¬((replay settings es).contains a ∧ (replay settings es).contains b)

/-! ### There is a first meeting -/

/-- What holds after some part of a run and not at its start begins to hold with one of its events. -/
private theorem exists_first {β : Type} {P : List β → Prop} (hstart : ¬P []) (xs : List β)
    (h : ∃ p, p <+: xs ∧ P p) :
    ∃ before x after, xs = before ++ x :: after ∧ P (before ++ [x]) ∧ ∀ p, p <+: before → ¬P p := by
  induction xs using List.reverseRecOn with
  | nil =>
    obtain ⟨p, hp, hP⟩ := h
    rw [List.prefix_nil] at hp
    subst hp
    exact absurd hP hstart
  | append_singleton xs x ih =>
    by_cases hbefore : ∃ p, p <+: xs ∧ P p
    · obtain ⟨before, y, after, rfl, hy, hnot⟩ := ih hbefore
      exact ⟨before, y, after ++ [x], by simp, hy, hnot⟩
    · have hnot : ∀ p, p <+: xs → ¬P p := fun p hp hP => hbefore ⟨p, hp, hP⟩
      obtain ⟨p, hp, hP⟩ := h
      rcases List.prefix_concat_iff.1 hp with rfl | hp
      · exact ⟨xs, x, [], rfl, hP, hnot⟩
      · exact absurd hP (hnot p hp)

/-- Two paths that are in the graph have come together with a fold. -/
theorem exists_meetAt {es : List (MemoryEvent α)} (hes : ∀ e ∈ es, e.Rooted) {a b : String} (ha : IsPath a)
    (hb : IsPath b) (hcontains : (replay settings es).contains a ∧ (replay settings es).contains b) :
    ∃ before s after, es = before ++ .fold s :: after ∧ MeetAt settings before s a b := by
  have hstart : ¬((replay settings ([] : List (MemoryEvent α))).contains a ∧
      (replay settings ([] : List (MemoryEvent α))).contains b) := by
    simp [replay, applyAll, empty, contains]
  obtain ⟨before, e, after, rfl, htogether, hnot⟩ := exists_first
    (P := fun p => (replay settings p).contains a ∧ (replay settings p).contains b) hstart es
    ⟨es, List.prefix_refl es, hcontains⟩
  have hold : ∀ e ∈ before, e.Rooted := (List.forall_mem_append.1 hes).1
  cases e with
  | fold s => exact ⟨before, s, after, rfl, htogether, hnot⟩
  | record agent task summary =>
    -- a recording brings no path
    have hsame := sameOnPaths_record (sound_replay settings hold) agent task summary
    have hkey : ∀ key, IsPath key → (replay settings (before ++ [.record agent task summary])).contains key →
        (replay settings before).contains key := by
      intro key hpath hcontains
      rw [replay_concat, contains_iff] at hcontains
      rw [contains_iff, ← hsame.node key hpath]
      exact hcontains
    exact absurd ⟨hkey a ha htogether.1, hkey b hb htogether.2⟩ (hnot before (List.prefix_refl before))

/-! ### What is in common becomes less -/

theorem replay_append (settings : GraphSettings) (es es' : List (MemoryEvent α)) :
    replay settings (es ++ es') = (replay settings es).applyAll es' := by
  simp [replay, applyAll]

/-- Files that have been folded have no more in common later. -/
theorem common_replay_append_subset {es es' : List (MemoryEvent α)} (hes : ∀ e ∈ es ++ es', e.Rooted)
    {a b : String} (ha : a ∈ foldedFiles es) (hb : b ∈ foldedFiles es) :
    (replay settings (es ++ es')).common a b ⊆ (replay settings es).common a b := by
  have hold : ∀ e ∈ es, e.Rooted := (List.forall_mem_append.1 hes).1
  have hextends : (replay settings es).Extends (replay settings (es ++ es')) := by
    rw [replay_append]
    exact extends_applyAll (sound_replay settings hold) fun e he => hes e (List.mem_append_right _ he)
  have hcarries : ∀ key t, key ∈ foldedFiles es → key ∈ (replay settings (es ++ es')).carriers.members t →
      key ∈ (replay settings es).carriers.members t := fun key t hkey ht =>
    (mem_carriers_replay settings hold).2 ⟨hkey, ((mem_carriers_replay settings hes).1 ht).2⟩
  rintro t ⟨hdistinctive, hta, htb⟩
  exact ⟨hdistinctive.anti hextends, hcarries a t ha hta, hcarries b t hb htb⟩

/-- A path in the graph that is no folded directory is a folded file. -/
theorem mem_foldedFiles_of_contains {es : List (MemoryEvent α)} (hes : ∀ e ∈ es, e.Rooted)
    (hsep : Separate es) {key : String} (hpath : IsPath key) (hkey : key ∉ foldedDirectories es)
    (hcontains : (replay settings es).contains key) : key ∈ foldedFiles es := by
  have hsorted := sorted_replay settings hes hsep
  rcases hsorted.path_kind key hpath hcontains with hkind | hkind
  · exact absurd ((hsorted.directory_iff key).1 hkind) hkey
  · exact ((hsorted.file_iff key).1 hkind).1

/-! ### The edge between them -/

/-- What two files have in common at their first meeting settles whether they are ever joined. -/
private theorem adjacent_iff_partners (htopics : settings.topicEdges) {before after : List (MemoryEvent α)}
    {s : Snapshot α} (hes : ∀ e ∈ before ++ .fold s :: after, e.Rooted)
    (hsep : Separate (before ++ .fold s :: after)) {a b : String} (ha : IsPath a) (hb : IsPath b)
    (hna : a ∉ foldedDirectories (before ++ .fold s :: after))
    (hnb : b ∉ foldedDirectories (before ++ .fold s :: after)) (hmeet : MeetAt settings before s a b) :
    (replay settings (before ++ .fold s :: after)).adjacent a b ↔
      (replay settings (before ++ [.fold s])).Partners a b := by
  induction after using List.reverseRecOn with
  | nil =>
    have hold : ∀ e ∈ before, e.Rooted := (List.forall_mem_append.1 hes).1
    rw [adjacent_replay_fold htopics hes ha hb hna hnb]
    refine or_iff_right fun hadjacent => ?_
    exact hmeet.not_before before (List.prefix_refl before)
      ((sound_replay settings hold).wellFormed.edge_contains a b hadjacent)
  | append_singleton after e ih =>
    have hsplit : before ++ .fold s :: (after ++ [e]) = (before ++ .fold s :: after) ++ [e] := by simp
    rw [hsplit] at hes hsep hna hnb ⊢
    have hold : ∀ e ∈ before ++ .fold s :: after, e.Rooted := (List.forall_mem_append.1 hes).1
    have hna' := fun h => hna (foldedDirectories_subset_append _ [e] h)
    have hnb' := fun h => hnb (foldedDirectories_subset_append _ [e] h)
    have hrest := ih hold hsep.of_append hna' hnb'
    cases e with
    | fold s' =>
      rw [adjacent_replay_fold htopics hes ha hb hna hnb, hrest]
      refine or_iff_left_of_imp fun hpartners => ?_
      -- the pair has had all of that in common at the first meeting
      have hfirst : (before ++ .fold s :: after) ++ [.fold s']
          = (before ++ [.fold s]) ++ (after ++ [.fold s']) := by simp
      rw [hfirst] at hes hsep hna hnb hpartners
      have hfold : ∀ e ∈ before ++ [.fold s], e.Rooted := (List.forall_mem_append.1 hes).1
      have hfile : ∀ key, IsPath key →
          key ∉ foldedDirectories ((before ++ [.fold s]) ++ (after ++ [.fold s'])) →
          (replay settings (before ++ [.fold s])).contains key → key ∈ foldedFiles (before ++ [.fold s]) :=
        fun key hpath hkey => mem_foldedFiles_of_contains hfold hsep.of_append hpath
          fun h => hkey (foldedDirectories_subset_append _ _ h)
      refine hpartners.of_common_subset ?_ (common_replay_append_subset hes
        (hfile a ha hna hmeet.together.1) (hfile b hb hnb hmeet.together.2))
      rw [settings_replay settings hfold, settings_replay settings hes]
    | record agent task summary =>
      have hsame := sameOnPaths_record (sound_replay settings hold) agent task summary
      rw [replay_concat, ← hrest]
      exact hsame.adjacent a b ha hb

/-- Two files are joined if and only if, right after the first fold that has left both in the graph, they
have at least as many topics in common as are asked for, and one in any case, counting topics that not too many
files carry then. -/
theorem adjacent_replay_iff (settings : GraphSettings) (htopics : settings.topicEdges)
    (es : List (MemoryEvent α)) (hes : ∀ e ∈ es, e.Rooted) (hsep : Separate es) (a b : String) (hne : a ≠ b)
    (ha : (replay settings es).kind? a = some .file) (hb : (replay settings es).kind? b = some .file) :
    (∃ before s after, es = before ++ .fold s :: after ∧ MeetAt settings before s a b) ∧
    ∀ before s after, es = before ++ .fold s :: after → MeetAt settings before s a b →
      ((replay settings es).adjacent a b ↔ ((max 1 settings.minSharedTopics : ℕ) : ℕ∞)
        ≤ ((replay settings (before ++ [.fold s])).common a b).encard) := by
  have hsorted := sorted_replay settings hes hsep
  have hpatha := hsorted.isPath hes (.inr ha)
  have hpathb := hsorted.isPath hes (.inr hb)
  refine ⟨exists_meetAt hes hpatha hpathb ⟨contains_of_kind? ha, contains_of_kind? hb⟩, ?_⟩
  rintro before s after rfl hmeet
  have hfold : ∀ e ∈ before ++ [.fold s], e.Rooted := by
    intro e he
    rw [List.append_cons] at hes
    exact hes e (List.mem_append_left _ he)
  rw [adjacent_iff_partners htopics hes hsep hpatha hpathb ((hsorted.file_iff a).1 ha).2
    ((hsorted.file_iff b).1 hb).2 hmeet, partners_iff hne, settings_replay settings hfold]

/-! ### Two files that are met one after the other -/

/-- What comes before the second file. -/
def sampleBefore : List (MemoryEvent Float) :=
  sampleRun.take 2

def sampleMeeting : Snapshot Float :=
  sampleTree [("src/print_tree.rs", 0.25)]

private theorem meetAt_sampleMeeting {k : Nat} (hk : k ∈ [1, 2]) :
    MeetAt ⟨true, true, k, 8, 1⟩ sampleBefore sampleMeeting "/tree/src/parse_tree.rs" "/tree/src/print_tree.rs" where
  together := by
    have hboth : ∀ k ∈ [1, 2], (replay ⟨true, true, k, 8, 1⟩ (sampleBefore ++ [.fold sampleMeeting])).contains
          "/tree/src/parse_tree.rs" ∧
        (replay ⟨true, true, k, 8, 1⟩ (sampleBefore ++ [.fold sampleMeeting])).contains "/tree/src/print_tree.rs" := by
      decide +kernel
    exact hboth k hk
  not_before := by
    have hnone : ∀ k ∈ [1, 2], ∀ es ∈ sampleBefore.inits,
        ¬(replay ⟨true, true, k, 8, 1⟩ es).contains "/tree/src/print_tree.rs" := by
      decide +kernel
    exact fun es hes h => hnone k hk es ((List.mem_inits _ _).2 hes) h.2

/-- A topic without a set of carriers has none. -/
private theorem common_sampleMeeting {k : Nat} (hk : k ∈ [1, 2]) :
    (replay ⟨true, true, k, 8, 1⟩ (sampleBefore ++ [.fold sampleMeeting])).common "/tree/src/parse_tree.rs"
      "/tree/src/print_tree.rs" = {"tree"} := by
  have hcarried : ∀ k ∈ [1, 2],
      let carriers := (replay ⟨true, true, k, 8, 1⟩ (sampleBefore ++ [.fold sampleMeeting])).carriers
      "tree" ∈ carriers.keys ∧ ∀ t ∈ carriers.keys,
        ((carriers.members t).size ≤ 8 ∧ "/tree/src/parse_tree.rs" ∈ carriers.members t ∧
          "/tree/src/print_tree.rs" ∈ carriers.members t ↔ t = "tree") := by
    decide +kernel
  obtain ⟨htree, hiff⟩ := hcarried k hk
  have hfolded : ∀ e ∈ sampleBefore ++ [.fold sampleMeeting], e.Rooted := fun e he =>
    rooted_sampleRun e (List.mem_of_mem_take (i := 3) he)
  ext t
  simp only [common, Distinctive, Set.mem_ofPred_eq, Set.mem_singleton_iff, settings_replay _ hfolded]
  constructor
  · intro h
    refine (hiff t ?_).1 h
    by_contra hkey
    have hnone : (replay ⟨true, true, k, 8, 1⟩ (sampleBefore ++ [.fold sampleMeeting])).carriers[t]? = none :=
      Std.ExtTreeMap.getElem?_eq_none fun hmem => hkey (Std.ExtTreeMap.mem_keys.2 hmem)
    have hcarries := h.2.1
    rw [KeySets.members, hnone] at hcarries
    exact Std.ExtTreeSet.not_mem_empty hcarries
  · rintro rfl
    exact (hiff "tree" htree).2 rfl

/-- Both names speak of a tree, and of nothing else in common when the second file comes.  That is one topic, so the
files are joined where one is enough, and not where two are asked for. -/
theorem adjacent_replay_iff_sampleRun :
    (replay ⟨true, true, 1, 8, 1⟩ (sampleBefore ++ [.fold sampleMeeting])).common "/tree/src/parse_tree.rs"
        "/tree/src/print_tree.rs" = {"tree"} ∧
      (replay ⟨true, true, 1, 8, 1⟩ sampleRun).adjacent "/tree/src/parse_tree.rs" "/tree/src/print_tree.rs" ∧
      ¬(replay ⟨true, true, 2, 8, 1⟩ sampleRun).adjacent "/tree/src/parse_tree.rs" "/tree/src/print_tree.rs" := by
  have hsplit : sampleRun = sampleBefore ++ .fold sampleMeeting :: sampleRun.drop 3 := rfl
  have hmeets (k : Nat) (hk : k ∈ [1, 2]) :
      (replay ⟨true, true, k, 8, 1⟩ sampleRun).adjacent "/tree/src/parse_tree.rs" "/tree/src/print_tree.rs" ↔
        ((max 1 k : ℕ) : ℕ∞) ≤ 1 := by
    have hiff := (adjacent_replay_iff ⟨true, true, k, 8, 1⟩ rfl sampleRun rooted_sampleRun separate_sampleRun
      "/tree/src/parse_tree.rs" "/tree/src/print_tree.rs" (by decide) (kind?_replay_sampleRun _ (by simp))
      (kind?_replay_sampleRun _ (by simp))).2 _ _ _ hsplit (meetAt_sampleMeeting hk)
    rwa [common_sampleMeeting hk, Set.encard_singleton] at hiff
  refine ⟨common_sampleMeeting (by simp), (hmeets 1 (by simp)).2 (by simp), fun h => ?_⟩
  have htwo := (hmeets 2 (by simp)).1 h
  exact absurd htwo (by decide)

end MemoryGraph

end EchoEngine
