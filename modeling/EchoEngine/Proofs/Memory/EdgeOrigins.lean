import EchoEngine.Proofs.Memory.Kinds

/-!
# Where edges come from

An edge between paths hangs a key on the one above it, or it joins two files that carry a topic together
(`origin_replay`).  What a fold joins for their topics are partners of the graph that it leaves: joining keys
changes no topics, so whatever else has been joined before, the partners are those that the fold has started
with (`adjacent_fold`).  Between two keys that are no directories nothing else is added, so a fold joins exactly
the partners that it makes (`adjacent_replay_fold`).
-/

namespace EchoEngine

open FoldPlan

variable {α : Type}

namespace FoldPlan

/-- A plan has a directory or a file below another directory. -/
def Hangs (plan : FoldPlan α) (a b : String) : Prop :=
  plan.directories[a]? = some (some b) ∨ ∃ f ∈ plan.files, f.key = a ∧ f.directory = b

theorem Hangs.eq_parentKey {s : Snapshot α} {a b : String} (h : (ofSnapshot s).Hangs a b) :
    b = parentKey a := by
  rcases h with h | ⟨p, hp, rfl, rfl⟩
  · exact parent_eq_parentKey (isRoot_rootKey _) h
  · obtain ⟨f, -, rfl⟩ := List.mem_map.1 hp
    exact directory_plannedFile (isRoot_rootKey _) f

theorem Hangs.mem_directories {plan : FoldPlan α} (hplan : plan.Closed) {a b : String}
    (h : plan.Hangs a b) : b ∈ plan.directories := by
  rcases h with h | ⟨f, hf, rfl, rfl⟩
  · exact hplan.parent_mem a b h
  · exact hplan.file_directory_mem f hf

end FoldPlan

/-! ### Edges of a fold -/

namespace Growing

/-- Joining two keys adds no edge but the one between them. -/
theorem adjacent_of_join {w : Growing α} {a b x y : String} (h : (w.join a b).graph.adjacent x y) :
    w.graph.adjacent x y ∨ (x = a ∧ y = b) ∨ (x = b ∧ y = a) := by
  rw [graph_join] at h
  split at h
  · exact .inl h
  · simp only [MemoryGraph.adjacent_iff, KeySets.mem_members_enroll] at h ⊢
    tauto

theorem adjacent_of_joinAncestor {w : Growing α} {a b x y : String}
    (h : (w.joinAncestor a b).graph.adjacent x y) :
    w.graph.adjacent x y ∨ (x = a ∧ y = b) ∨ (x = b ∧ y = a) := by
  rcases joinAncestor_cases w a b with hjoin | hnone
  · rw [hjoin] at h
    exact adjacent_of_join h
  · rw [hnone] at h
    exact .inl h

theorem adjacent_meet (w : Growing α) (key : String) (n : MemoryNode α) (x y : String) :
    (w.meet key n).graph.adjacent x y = w.graph.adjacent x y := by
  rw [graph_meet]
  rfl

theorem adjacent_of_addFile {w : Growing α} {f : PlannedFile α} {x y : String}
    (h : (w.addFile f).graph.adjacent x y) :
    w.graph.adjacent x y ∨ (x = f.key ∧ y = f.directory) ∨ (x = f.directory ∧ y = f.key) := by
  have hjoined := adjacent_of_joinAncestor (w := (w.carry f.key f.topics).meet f.key (.ofFile f)) h
  rw [adjacent_meet] at hjoined
  exact hjoined

theorem adjacent_of_addDirectory [Scalar α] {w : Growing α} {d x y : String} {parent : Option String}
    (h : (w.addDirectory (d, parent)).graph.adjacent x y) :
    w.graph.adjacent x y ∨ ∃ p, parent = some p ∧ ((x = d ∧ y = p) ∨ (x = p ∧ y = d)) := by
  rcases addDirectory_cases w (d, parent) with ⟨-, heq⟩ | ⟨p, hp, heq⟩
  · rw [heq, adjacent_meet] at h
    exact .inl h
  · rw [heq] at h
    have hjoined := adjacent_of_joinAncestor h
    rw [adjacent_meet] at hjoined
    exact hjoined.imp_right fun hends => ⟨p, hp, hends⟩

end Growing

namespace MemoryGraph

theorem adjacent_enter [Scalar α] {g : MemoryGraph α} {plan : FoldPlan α} {a b : String}
    (h : (g.enter plan).graph.adjacent a b) : g.adjacent a b ∨ plan.Hangs a b ∨ plan.Hangs b a := by
  refine enter_induction (P := fun w => w.graph.adjacent a b → _) .inl ?_ ?_ h
  · intro w d parent hd hw hnew
    rcases Growing.adjacent_of_addDirectory hnew with hold | ⟨p, rfl, ⟨rfl, rfl⟩ | ⟨rfl, rfl⟩⟩
    · exact hw hold
    · exact .inr (.inl (.inl hd))
    · exact .inr (.inr (.inl hd))
  · intro w f hf hw hnew
    rcases Growing.adjacent_of_addFile hnew with hold | ⟨rfl, rfl⟩ | ⟨rfl, rfl⟩
    · exact hw hold
    · exact .inr (.inl (.inr ⟨f, hf, rfl, rfl⟩))
    · exact .inr (.inr (.inr ⟨f, hf, rfl, rfl⟩))

/-- Joining files for their topics joins partners. -/
theorem adjacent_joinTopics {w : Growing α} (hindexed : w.graph.Indexed) {files : List (PlannedFile α)}
    (hpaths : ∀ f ∈ files, IsPath f.key) {a b : String} (h : (w.joinTopics files).graph.adjacent a b) :
    w.graph.adjacent a b ∨ w.graph.Partners a b := by
  -- whatever is joined, the partners are those at the start
  have hpartners : ∀ v : Growing α, w.graph.Rewired v.graph → ∀ f ∈ files, ∀ other,
      other ∈ v.graph.partners f.key → w.graph.Partners f.key other := by
    intro v hv f hf other hother
    exact (Partners.of_rewired hv).1 ((mem_partners (hindexed.of_rewired hv) (hpaths f hf)).1 hother)
  have hjoined : w.graph.Rewired (w.joinTopics files).graph ∧
      ((w.joinTopics files).graph.adjacent a b → w.graph.adjacent a b ∨ w.graph.Partners a b) := by
    refine Growing.joinTopics_induction (P := fun v => w.graph.Rewired v.graph ∧ (v.graph.adjacent a b → _))
      ⟨.refl _, .inl⟩ fun v f hf hv => ⟨hv.1.trans (rewired_joinPartners v f), ?_⟩
    refine List.foldlRecOn (motive := fun u : Growing α => u.graph.adjacent a b → _) _ _ hv.2 ?_
    intro u hu other hother hnew
    have hpartner := hpartners v hv.1 f hf other hother
    rcases Growing.adjacent_of_join hnew with hold | ⟨rfl, rfl⟩ | ⟨rfl, rfl⟩
    · exact hu hold
    · exact .inr hpartner
    · exact .inr hpartner.symm
  exact hjoined.2 h

/-- An edge that a fold leaves has been there before, hangs a key on the one above it, or joins partners. -/
theorem adjacent_fold [Scalar α] {g : MemoryGraph α} (hindexed : g.Indexed) {plan : FoldPlan α}
    (hplan : plan.Closed) {a b : String} (h : (g.fold plan).graph.adjacent a b) :
    g.adjacent a b ∨ plan.Hangs a b ∨ plan.Hangs b a ∨ (g.fold plan).graph.Partners a b := by
  have hrewired : (g.enter plan).graph.Rewired (g.fold plan).graph := rewired_joinTopics _ _
  rw [Partners.of_rewired hrewired]
  rcases adjacent_joinTopics (hindexed.enter plan) hplan.file_path h with hentered | hpartners
  · rcases adjacent_enter hentered with hold | hhangs | hhangs
    · exact .inl hold
    · exact .inr (.inl hhangs)
    · exact .inr (.inr (.inl hhangs))
  · exact .inr (.inr (.inr hpartners))

/-! ### Edges of a run -/

open MemoryEvent

/-- What can have joined two keys: one hangs on the other, or they carry a topic together. -/
inductive Origin (es : List (MemoryEvent α)) (g : MemoryGraph α) (a b : String) : Prop where
  | below (hparent : b = parentKey a) (hdirectory : b ∈ foldedDirectories es)
  | above (hparent : a = parentKey b) (hdirectory : a ∈ foldedDirectories es)
  | topic (t : String) (ha : a ∈ g.carriers.members t) (hb : b ∈ g.carriers.members t)

variable [Scalar α] {settings : GraphSettings} {es : List (MemoryEvent α)}

theorem origin_replay (hes : ∀ e ∈ es, e.Rooted) {a b : String} (ha : IsPath a) (hb : IsPath b)
    (h : (replay settings es).adjacent a b) : Origin es (replay settings es) a b := by
  induction es using List.reverseRecOn with
  | nil => simp [replay, applyAll, empty, adjacent_iff] at h
  | append_singleton es e ih =>
    have hold : ∀ e ∈ es, e.Rooted := (List.forall_mem_append.1 hes).1
    rw [replay_concat] at h ⊢
    cases e with
    | fold s =>
      have hplan := closed_ofSnapshot s (hes (.fold s) (by simp))
      have hfolded : ∀ d ∈ (ofSnapshot s).directories, d ∈ foldedDirectories (es ++ [.fold s]) :=
        fun d hd => mem_foldedDirectories_concat_fold.2 (.inr hd)
      rcases adjacent_fold (partnered_replay settings hold).1 hplan h with hbefore | hhangs | hhangs | hpartners
      · have hextends := extends_fold (replay settings es) (ofSnapshot s)
        cases ih hold hbefore with
        | below hparent hdirectory =>
          exact .below hparent (mem_foldedDirectories_concat_fold.2 (.inl hdirectory))
        | above hparent hdirectory =>
          exact .above hparent (mem_foldedDirectories_concat_fold.2 (.inl hdirectory))
        | topic t hta htb => exact .topic t (hextends.carrier t a hta) (hextends.carrier t b htb)
      · exact .below hhangs.eq_parentKey (hfolded b (hhangs.mem_directories hplan))
      · exact .above hhangs.eq_parentKey (hfolded a (hhangs.mem_directories hplan))
      · obtain ⟨t, -, hta, htb⟩ := hpartners.nonempty
        exact .topic t hta htb
    | record agent task summary =>
      have hsame := sameOnPaths_record (sound_replay settings hold) agent task summary
      cases ih hold ((hsame.adjacent a b ha hb).1 h) with
      | below hparent hdirectory =>
        exact .below hparent (by rwa [foldedDirectories_concat_record])
      | above hparent hdirectory =>
        exact .above hparent (by rwa [foldedDirectories_concat_record])
      | topic t hta htb =>
        have hcarriers : ((replay settings es).apply (.record agent task summary)).carriers
            = (replay settings es).carriers := hsame.carriers
        exact .topic t (by rwa [hcarriers]) (by rwa [hcarriers])

section

variable {s : Snapshot α} {a b : String}

/-- Between keys that are no directories a fold adds nothing but edges between partners. -/
theorem adjacent_of_replay_fold (hes : ∀ e ∈ es ++ [.fold s], e.Rooted)
    (ha : a ∉ foldedDirectories (es ++ [.fold s])) (hb : b ∉ foldedDirectories (es ++ [.fold s]))
    (h : (replay settings (es ++ [.fold s])).adjacent a b) :
    (replay settings es).adjacent a b ∨ (replay settings (es ++ [.fold s])).Partners a b := by
  have hold : ∀ e ∈ es, e.Rooted := (List.forall_mem_append.1 hes).1
  have hplan := closed_ofSnapshot s (hes (.fold s) (by simp))
  rw [replay_concat] at h ⊢
  rcases adjacent_fold (partnered_replay settings hold).1 hplan h with hbefore | hhangs | hhangs | hpartners
  · exact .inl hbefore
  · exact absurd (mem_foldedDirectories_concat_fold.2 (.inr (hhangs.mem_directories hplan))) hb
  · exact absurd (mem_foldedDirectories_concat_fold.2 (.inr (hhangs.mem_directories hplan))) ha
  · exact .inr hpartners

/-- If topics are linked, it adds all of them. -/
theorem adjacent_replay_fold (htopics : settings.topicEdges) (hes : ∀ e ∈ es ++ [.fold s], e.Rooted)
    (ha : IsPath a) (hb : IsPath b) (hna : a ∉ foldedDirectories (es ++ [.fold s]))
    (hnb : b ∉ foldedDirectories (es ++ [.fold s])) :
    (replay settings (es ++ [.fold s])).adjacent a b ↔
      (replay settings es).adjacent a b ∨ (replay settings (es ++ [.fold s])).Partners a b := by
  refine ⟨adjacent_of_replay_fold hes hna hnb, ?_⟩
  rintro (hbefore | hpartners)
  · rw [replay_concat]
    exact (extends_fold (replay settings es) (ofSnapshot s)).adjacent a b ha hb hbefore
  · have hsettings := settings_replay settings hes
    exact (partnered_replay settings hes).2 (by rwa [hsettings]) a b hpartners

end

end MemoryGraph

end EchoEngine
