import EchoEngine.Proofs.Memory.FoldPlan
import EchoEngine.Proofs.Memory.Lookup

/-!
# What a fold leaves

A graph extends another one if it holds all that the other one holds about paths: their nodes and
topics, the edges between them, the files of every directory and the carriers of every topic.  Every
step of a fold extends the graph that it starts from, so what one step establishes about a path is
still there at the end: after a fold the graph remembers the whole plan (`remembers_fold`).
-/

namespace EchoEngine

open Std (ExtTreeMap ExtTreeSet)

variable {α : Type}

namespace MemoryGraph

/-- What `g` holds about paths `g'` holds too. -/
structure Extends (g g' : MemoryGraph α) : Prop where
  settings : g'.settings = g.settings
  node : ∀ key n, IsPath key → g.node? key = some n →
    ∃ n', g'.node? key = some n' ∧ ∀ t ∈ n.topics, t ∈ n'.topics
  adjacent : ∀ a b, IsPath a → IsPath b → g.adjacent a b → g'.adjacent a b
  hyperedge : ∀ d key, key ∈ g.hyperedges.members d → key ∈ g'.hyperedges.members d
  carrier : ∀ topic key, key ∈ g.carriers.members topic → key ∈ g'.carriers.members topic

theorem Extends.refl (g : MemoryGraph α) : g.Extends g where
  settings := rfl
  node _ n _ hn := ⟨n, hn, fun _ ht => ht⟩
  adjacent _ _ _ _ h := h
  hyperedge _ _ h := h
  carrier _ _ h := h

theorem Extends.trans {g g' g'' : MemoryGraph α} (h : g.Extends g') (h' : g'.Extends g'') :
    g.Extends g'' where
  settings := h'.settings.trans h.settings
  node key n hkey hn := by
    obtain ⟨n', hn', ht⟩ := h.node key n hkey hn
    obtain ⟨n'', hn'', ht'⟩ := h'.node key n' hkey hn'
    exact ⟨n'', hn'', fun t hmem => ht' t (ht t hmem)⟩
  adjacent a b ha hb hab := h'.adjacent a b ha hb (h.adjacent a b ha hb hab)
  hyperedge d key hkey := h'.hyperedge d key (h.hyperedge d key hkey)
  carrier topic key hkey := h'.carrier topic key (h.carrier topic key hkey)

theorem Extends.contains {g g' : MemoryGraph α} (h : g.Extends g') {key : String} (hpath : IsPath key)
    (hkey : g.contains key) : g'.contains key := by
  obtain ⟨n, hn⟩ := contains_iff.1 hkey
  obtain ⟨n', hn', -⟩ := h.node key n hpath hn
  exact contains_iff.2 ⟨n', hn'⟩

/-! ### Remembering a plan -/

/-- Two keys are linked by ancestry, unless it is not asked for. -/
def Linked (g : MemoryGraph α) (a b : String) : Prop :=
  g.settings.ancestryEdges → a = b ∨ g.adjacent a b

structure RemembersDirectory (g : MemoryGraph α) (d : String × Option String) : Prop where
  contains : g.contains d.1
  linked : ∀ parent, d.2 = some parent → g.Linked d.1 parent

structure RemembersFile (g : MemoryGraph α) (f : PlannedFile α) : Prop where
  node : ∃ n, g.node? f.key = some n ∧ ∀ t ∈ f.topics, t ∈ n.topics
  carrier : ∀ t ∈ f.topics, f.key ∈ g.carriers.members t
  hyperedge : f.key ∈ g.hyperedges.members f.directory
  linked : g.Linked f.key f.directory

/-- All that a plan adds, the edges between files apart, is there. -/
structure Remembers (g : MemoryGraph α) (plan : FoldPlan α) : Prop where
  directory : ∀ d parent, plan.directories[d]? = some parent → g.RemembersDirectory (d, parent)
  file : ∀ f ∈ plan.files, g.RemembersFile f

theorem Linked.mono {g g' : MemoryGraph α} (h : g.Extends g') {a b : String} (ha : IsPath a) (hb : IsPath b)
    (hab : g.Linked a b) : g'.Linked a b := by
  intro hsettings
  rw [h.settings] at hsettings
  exact (hab hsettings).imp_right (h.adjacent a b ha hb)

theorem RemembersDirectory.mono {g g' : MemoryGraph α} (h : g.Extends g') {d : String × Option String}
    (hd : IsPath d.1) (hparent : ∀ parent, d.2 = some parent → IsPath parent)
    (hg : g.RemembersDirectory d) : g'.RemembersDirectory d where
  contains := h.contains hd hg.contains
  linked parent hp := (hg.linked parent hp).mono h hd (hparent parent hp)

theorem RemembersFile.mono {g g' : MemoryGraph α} (h : g.Extends g') {f : PlannedFile α}
    (hf : IsPath f.key) (hd : IsPath f.directory) (hg : g.RemembersFile f) : g'.RemembersFile f where
  node := by
    obtain ⟨n, hn, ht⟩ := hg.node
    obtain ⟨n', hn', ht'⟩ := h.node f.key n hf hn
    exact ⟨n', hn', fun t hmem => ht' t (ht t hmem)⟩
  carrier t ht := h.carrier t _ (hg.carrier t ht)
  hyperedge := h.hyperedge _ _ hg.hyperedge
  linked := hg.linked.mono h hf hd

theorem Remembers.mono {g g' : MemoryGraph α} {plan : FoldPlan α} (hplan : plan.Closed)
    (h : g.Extends g') (hg : g.Remembers plan) : g'.Remembers plan where
  directory d parent hd :=
    (hg.directory d parent hd).mono h (hplan.directory_path hd) (fun p hp => by
      subst hp
      exact hplan.parent_path hd)
  file f hf := (hg.file f hf).mono h (hplan.file_path f hf) (hplan.file_directory_path hf)

/-! ### The steps of a fold -/

theorem extends_meet (w : Growing α) (key : String) (n : MemoryNode α) :
    w.graph.Extends (w.meet key n).graph where
  settings := by rw [Growing.graph_meet]
  node k m _ hm := by
    rw [Growing.node?_meet]
    split
    · rename_i hk
      subst hk
      rw [hm]
      exact ⟨m.revisit n, rfl, fun t ht => ExtTreeSet.mem_union_of_left ht⟩
    · exact ⟨m, hm, fun _ ht => ht⟩
  adjacent a b _ _ hab := by
    rw [Growing.graph_meet]
    exact hab
  hyperedge d k hk := by
    rw [Growing.graph_meet]
    exact hk
  carrier topic k hk := by
    rw [Growing.graph_meet]
    exact hk

theorem extends_join (w : Growing α) (a b : String) : w.graph.Extends (w.join a b).graph where
  settings := Growing.settings_join w a b
  node k n _ hn := ⟨n, (Growing.node?_join w a b k).trans hn, fun _ ht => ht⟩
  adjacent x y _ _ hxy := Growing.adjacent_join_of_adjacent hxy
  hyperedge d k hk := by rwa [Growing.hyperedges_join]
  carrier topic k hk := by rwa [Growing.carriers_join]

theorem extends_joinAncestor (w : Growing α) (key parent : String) :
    w.graph.Extends (w.joinAncestor key parent).graph := by
  unfold Growing.joinAncestor
  split
  · exact extends_join w key parent
  · exact .refl _

theorem extends_carry (w : Growing α) (key : String) (topics : ExtTreeSet String) :
    w.graph.Extends (w.carry key topics).graph where
  settings := rfl
  node _ n _ hn := ⟨n, hn, fun _ ht => ht⟩
  adjacent _ _ _ _ h := h
  hyperedge _ _ h := h
  carrier _ _ h := Growing.mem_carriers_carry.2 (.inr h)

theorem extends_gather (w : Growing α) (directory key : String) :
    w.graph.Extends (w.gather directory key).graph where
  settings := rfl
  node _ n _ hn := ⟨n, hn, fun _ ht => ht⟩
  adjacent _ _ _ _ h := h
  hyperedge _ _ h := KeySets.mem_members_enroll.2 (.inr h)
  carrier _ _ h := h

theorem extends_addFile (w : Growing α) (f : PlannedFile α) : w.graph.Extends (w.addFile f).graph :=
  (extends_carry w f.key f.topics).trans <| (extends_meet _ _ _).trans <|
    (extends_joinAncestor _ _ _).trans (extends_gather _ _ _)

/-- What every step of a run extends the run extends. -/
theorem extends_foldl {β : Type} {step : Growing α → β → Growing α}
    (hstep : ∀ (w : Growing α) x, w.graph.Extends (step w x).graph) (xs : List β) (w : Growing α) :
    w.graph.Extends (xs.foldl step w).graph := by
  induction xs generalizing w with
  | nil => exact .refl _
  | cons x xs ih => exact (hstep w x).trans (ih _)

theorem extends_addFiles (w : Growing α) (files : List (PlannedFile α)) :
    w.graph.Extends (w.addFiles files).graph :=
  extends_foldl extends_addFile files w

theorem extends_joinPartners (w : Growing α) (f : PlannedFile α) :
    w.graph.Extends (w.joinPartners f).graph :=
  extends_foldl (fun w other => extends_join w f.key other) _ w

theorem extends_joinTopics (w : Growing α) (files : List (PlannedFile α)) :
    w.graph.Extends (w.joinTopics files).graph :=
  Growing.joinTopics_induction (P := fun w' => w.graph.Extends w'.graph) (.refl _)
    fun w' f _ hw => hw.trans (extends_joinPartners w' f)

private theorem linked_joinAncestor (w : Growing α) (key parent : String) :
    (w.joinAncestor key parent).graph.Linked key parent := by
  unfold Growing.joinAncestor
  split
  · exact fun _ => Growing.eq_or_adjacent_join w key parent
  · intro h
    contradiction

private theorem remembersFile_addFile (w : Growing α) (f : PlannedFile α) :
    (w.addFile f).graph.RemembersFile f where
  node := by
    rw [Growing.node?_addFile, if_pos rfl]
    refine ⟨_, rfl, fun t ht => ?_⟩
    cases w.graph.node? f.key with
    | none => exact ht
    | some old => exact ExtTreeSet.mem_union_of_right ht
  carrier t ht := Growing.mem_carriers_addFile.2 (.inl ⟨ht, rfl⟩)
  hyperedge := Growing.mem_hyperedges_addFile.2 (.inl ⟨rfl, rfl⟩)
  linked := linked_joinAncestor _ _ _

/-- What every step establishes for its own item and later steps keep holds at the end for all items. -/
theorem foldl_establishes {β : Type} {step : Growing α → β → Growing α}
    {P : MemoryGraph α → β → Prop} (hextends : ∀ (w : Growing α) x, w.graph.Extends (step w x).graph)
    (hnew : ∀ (w : Growing α) x, P (step w x).graph x) {xs : List β}
    (hkeep : ∀ x ∈ xs, ∀ g g' : MemoryGraph α, g.Extends g' → P g x → P g' x) (w : Growing α) :
    ∀ x ∈ xs, P (xs.foldl step w).graph x := by
  induction xs generalizing w with
  | nil => simp
  | cons x xs ih =>
    intro y hy
    rw [List.mem_cons] at hy
    rcases hy with rfl | hy
    · -- the rest of the run extends what the first step has established
      exact hkeep y List.mem_cons_self _ _ (extends_foldl hextends xs _) (hnew w y)
    · exact ih (fun z hz => hkeep z (List.mem_cons_of_mem _ hz)) _ y hy

variable [Scalar α]

theorem extends_addDirectory (w : Growing α) (d : String × Option String) :
    w.graph.Extends (w.addDirectory d).graph := by
  unfold Growing.addDirectory
  dsimp only
  split
  · exact (extends_meet w _ _).trans (extends_joinAncestor _ _ _)
  · exact extends_meet w _ _

theorem extends_enter (g : MemoryGraph α) (plan : FoldPlan α) : g.Extends (g.enter plan).graph :=
  enter_induction (P := fun w => g.Extends w.graph) (.refl g)
    (fun w d parent _ hw => hw.trans (extends_addDirectory w (d, parent)))
    (fun w f _ hw => hw.trans (extends_addFile w f))

theorem extends_fold (g : MemoryGraph α) (plan : FoldPlan α) : g.Extends (g.fold plan).graph :=
  (extends_enter g plan).trans (extends_joinTopics _ plan.files)

private theorem remembersDirectory_addDirectory (w : Growing α) (d : String × Option String) :
    (w.addDirectory d).graph.RemembersDirectory d where
  contains := by
    rw [contains_iff, Growing.node?_addDirectory, if_pos rfl]
    exact ⟨_, rfl⟩
  linked parent hp := by
    rcases Growing.addDirectory_cases w d with ⟨hnone, -⟩ | ⟨p, hp', h⟩
    · rw [hp] at hnone
      contradiction
    · rw [h]
      rw [hp] at hp'
      cases hp'
      exact linked_joinAncestor _ _ _

/-- After a fold the graph remembers the plan. -/
theorem remembers_fold (g : MemoryGraph α) {plan : FoldPlan α} (hplan : plan.Closed) :
    (g.fold plan).graph.Remembers plan := by
  have hfiles : ∀ w : Growing α, ∀ f ∈ plan.files, (w.addFiles plan.files).graph.RemembersFile f :=
    foldl_establishes extends_addFile remembersFile_addFile fun f hf _ _ h =>
      RemembersFile.mono h (hplan.file_path f hf) (hplan.file_directory_path hf)
  have hdirectories : ∀ w : Growing α, ∀ d ∈ plan.directories.toList,
      (w.addDirectories plan.directories).graph.RemembersDirectory d :=
    foldl_establishes extends_addDirectory remembersDirectory_addDirectory fun d hd _ _ h =>
      have hget := ExtTreeMap.mem_toList_iff_getElem?_eq_some.1 hd
      RemembersDirectory.mono h (hplan.directory_path hget) fun parent hp =>
        hplan.parent_path (hget.trans (congrArg some hp))
  have htopics := extends_joinTopics (g.enter plan) plan.files
  constructor
  · intro d parent hd
    refine (hdirectories ⟨g, .none⟩ (d, parent) (ExtTreeMap.mem_toList_iff_getElem?_eq_some.2 hd)).mono
      ((extends_addFiles _ _).trans htopics) (hplan.directory_path hd) ?_
    rintro p rfl
    exact hplan.parent_path hd
  · intro f hf
    exact (hfiles _ f hf).mono htopics (hplan.file_path f hf) (hplan.file_directory_path hf)

end MemoryGraph

end EchoEngine
