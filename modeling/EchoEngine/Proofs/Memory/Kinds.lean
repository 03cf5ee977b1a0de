import EchoEngine.Proofs.Memory.Lasting
import EchoEngine.Proofs.Memory.Lineage

/-!
# Kinds of nodes

A node keeps the kind it has been created with.  So as long as no file of a run has the key of a directory
above another one (`Separate`), the kinds of nodes can be read off the events: directories are the keys of
folded directories, and files the other keys of folded files (`sorted_replay`).  One key may be both, that of
a file without a name below the slash: it stays a directory and carries no topics.

The carriers of a topic can be read off the events as well: they are the folded files with the topic in the
last piece of their keys (`mem_carriers_replay`).
-/

namespace EchoEngine

open Std (ExtTreeMap)
open FoldPlan

variable {α : Type}

namespace MemoryGraph

def kind? (g : MemoryGraph α) (key : String) : Option NodeKind :=
  (g.node? key).map (·.kind)

theorem contains_of_kind? {g : MemoryGraph α} {key : String} {k : NodeKind} (h : g.kind? key = some k) :
    g.contains key := by
  obtain ⟨n, hn, -⟩ := Option.map_eq_some_iff.1 h
  exact contains_iff.2 ⟨n, hn⟩

theorem exists_kind? {g : MemoryGraph α} {key : String} (h : g.contains key) :
    ∃ k, g.kind? key = some k := by
  obtain ⟨n, hn⟩ := contains_iff.1 h
  exact ⟨n.kind, by simp [kind?, hn]⟩

end MemoryGraph

/-! ### Steps -/

theorem Growing.kind?_meet (w : Growing α) (key : String) (n : MemoryNode α) (k : String) :
    (w.meet key n).graph.kind? k
      = if key = k then some ((w.graph.kind? k).getD n.kind) else w.graph.kind? k :=
  map_node?_meet MemoryNode.lasting_kind w key n k

namespace MemoryGraph

theorem kind?_of_rewired {g g' : MemoryGraph α} (h : g.Rewired g') (key : String) :
    g'.kind? key = g.kind? key := by
  rw [kind?, kind?, h.node?]

/-- A fold gives new keys their kinds, directories first. -/
theorem kind?_fold [Scalar α] (g : MemoryGraph α) (plan : FoldPlan α) (key : String) :
    (g.fold plan).graph.kind? key
      = ((g.kind? key).or (if key ∈ plan.directories then some .directory else none)).or
          (if key ∈ plan.files.map (·.key) then some .file else none) :=
  map_node?_fold MemoryNode.lasting_kind (fun _ => .directory) (fun _ => .file)
    (fun _ _ _ => rfl) (fun _ _ => rfl) g key

private theorem kind?_remove {g : MemoryGraph α} {key k : String} {kind : NodeKind}
    (h : (g.remove key).kind? k = some kind) : g.kind? k = some kind := by
  rw [kind?, node?_remove] at h
  split at h
  · contradiction
  · exact h

private theorem kind?_dropOldest {g : MemoryGraph α} {k : String} {kind : NodeKind}
    (h : g.dropOldest.kind? k = some kind) : g.kind? k = some kind := by
  unfold dropOldest at h
  split at h
  · exact h
  · rename_i oldest rest _
    exact kind?_remove (g := { g with memories := rest }) h

private theorem kind?_repeat_dropOldest {g : MemoryGraph α} {k : String} {kind : NodeKind} (n : Nat)
    (h : (Nat.repeat dropOldest n g).kind? k = some kind) : g.kind? k = some kind := by
  induction n with
  | zero => exact h
  | succ n ih => exact ih (kind?_dropOldest h)

/-- Recording creates no nodes but hubs and memories. -/
theorem kind?_record [Scalar α] {g : MemoryGraph α} {agent : AgentId} {task summary key : String}
    {kind : NodeKind} (h : (g.record agent task summary).graph.kind? key = some kind) :
    g.kind? key = some kind ∨ kind = .agent ∨ kind = .memory := by
  have hmeet : ∀ (w : Growing α) (k : String) (n : MemoryNode α),
      (w.meet k n).graph.kind? key = some kind → w.graph.kind? key = some kind ∨ kind = n.kind := by
    intro w k n hw
    rw [Growing.kind?_meet] at hw
    split at hw
    · cases hold : w.graph.kind? key with
      | none =>
        rw [hold] at hw
        exact .inr (Option.some.inj hw).symm
      | some old =>
        rw [hold] at hw
        exact .inl hw
    · exact .inl hw
  have hremembered : (g.remember agent task summary).graph.kind? key = some kind :=
    kind?_repeat_dropOldest _ h
  rw [remember, kind?_of_rewired (Growing.rewired_join _ _ _)] at hremembered
  rcases hmeet _ _ _ hremembered with hhub | hkind
  · exact (hmeet _ _ _ hhub).imp_right .inl
  · exact .inr (.inr hkind)

end MemoryGraph

/-! ### Folded keys -/

namespace FoldPlan

/-- The directories of a plan are the keys above its files. -/
theorem mem_directories_iff {root : String} {files : List (SalientFile α)} {d : String} :
    d ∈ (ofFiles root files).directories ↔ ∃ f ∈ files, d ∈ (lineage root f.path).tail := by
  have htail : ∀ path, (lineage root path).tail = (directoryPieces path).tails.map (directoryKey root) := by
    intro path
    obtain ⟨name, hway⟩ := fileWay_eq_cons path
    rw [lineage_eq_map_tails, hway]
    rfl
  simp only [htail, List.mem_map, List.mem_tails]
  constructor
  · intro hd
    obtain ⟨parent, hparent⟩ := Option.isSome_iff_exists.1 (ExtTreeMap.mem_iff_isSome_getElem?.1 hd)
    have hfiles : files ≠ [] := by
      rintro rfl
      simp [ofFiles] at hd
    rcases (getElem?_directories hfiles d parent).1 hparent with
      ⟨rfl, -⟩ | ⟨-, piece, above, ⟨f, hf, hway⟩, rfl, -⟩
    · obtain ⟨f, hf⟩ := List.exists_mem_of_ne_nil _ hfiles
      exact ⟨f, hf, [], List.nil_suffix, rfl⟩
    · exact ⟨f, hf, piece :: above, hway, rfl⟩
  · rintro ⟨f, hf, way, hway, rfl⟩
    exact directoryKey_mem_directories hf hway

/-- Only below a slash alone, and without a name, is a file its own directory. -/
theorem eq_slash_of_mem_tail_lineage {root path : String} (hroot : IsRoot root)
    (h : keyBelow root path ∈ (lineage root path).tail) : keyBelow root path = "/" := by
  obtain ⟨name, hway⟩ := fileWay_eq_cons path
  rw [lineage_eq_map_tails, hway] at h
  obtain ⟨way, hsuffix, hkey⟩ := List.mem_map.1 h
  rw [← directoryKey_fileWay, hway] at hkey ⊢
  have hpieces := pieces_fileWay path
  rw [hway] at hpieces
  replace hsuffix := (List.mem_tails _ _).1 hsuffix
  cases way with
  | nil =>
    obtain rfl | ⟨-, hlast⟩ := hroot
    · exact hkey.symm
    · have habove := eq_nil_of_directoryKey_eq_root hkey.symm
      rw [habove] at hkey
      have hlength := congrArg String.length hkey
      have hslash : "/".length = 1 := rfl
      simp only [directoryKey, keyBelow, if_neg hlast, String.length_append] at hlength
      omega
  | cons piece above =>
    have hsame := directoryKey_inj (fun p hp => hpieces p (List.mem_cons_of_mem _ (hsuffix.subset hp)))
      hpieces hkey
    rw [hsame] at hsuffix
    exact absurd hsuffix.length_le (by simp)

theorem root_eq_slash {root path : String} (h : keyBelow root path = "/") (hroot : IsRoot root) :
    root = "/" := by
  obtain rfl | ⟨hempty, hlast⟩ := hroot
  · rfl
  · have hlength := congrArg String.length h
    have hpos : 0 < root.length := by
      rw [Nat.pos_iff_ne_zero]
      simpa using hempty
    have hslash : "/".length = 1 := rfl
    simp only [keyBelow, if_neg hlast, String.length_append] at hlength
    omega

end FoldPlan

namespace MemoryEvent

/-- The keys of the files that events fold. -/
def foldedFiles (es : List (MemoryEvent α)) : Set String :=
  {key | ∃ s, .fold s ∈ es ∧ key ∈ (ofSnapshot s).files.map (·.key)}

/-- The keys of the directories above the files that events fold. -/
def foldedDirectories (es : List (MemoryEvent α)) : Set String :=
  {key | ∃ s, .fold s ∈ es ∧ key ∈ (ofSnapshot s).directories}

/-- No file has the key of a directory above another one. -/
def Separate (es : List (MemoryEvent α)) : Prop :=
  ∀ s s', .fold s ∈ es → .fold s' ∈ es → ∀ f ∈ s.salient, ∀ f' ∈ s'.salient,
    keyBelow (rootKey s.root) f.path ≠ keyBelow (rootKey s'.root) f'.path →
      keyBelow (rootKey s.root) f.path ∉ (lineage (rootKey s'.root) f'.path).tail

theorem Separate.of_append {es es' : List (MemoryEvent α)} (h : Separate (es ++ es')) : Separate es :=
  fun s s' hs hs' => h s s' (List.mem_append_left _ hs) (List.mem_append_left _ hs')

theorem mem_foldedFiles_concat_fold {es : List (MemoryEvent α)} {s : Snapshot α} {key : String} :
    key ∈ foldedFiles (es ++ [.fold s]) ↔ key ∈ foldedFiles es ∨ key ∈ (ofSnapshot s).files.map (·.key) := by
  simp [foldedFiles, or_and_right, exists_or]

theorem mem_foldedDirectories_concat_fold {es : List (MemoryEvent α)} {s : Snapshot α} {key : String} :
    key ∈ foldedDirectories (es ++ [.fold s]) ↔
      key ∈ foldedDirectories es ∨ key ∈ (ofSnapshot s).directories := by
  simp [foldedDirectories, or_and_right, exists_or]

theorem foldedFiles_concat_record (es : List (MemoryEvent α)) (agent : AgentId) (task summary : String) :
    foldedFiles (es ++ [.record agent task summary]) = foldedFiles es := by
  simp [foldedFiles]

theorem foldedDirectories_concat_record (es : List (MemoryEvent α)) (agent : AgentId) (task summary : String) :
    foldedDirectories (es ++ [.record agent task summary]) = foldedDirectories es := by
  simp [foldedDirectories]

theorem foldedDirectories_subset_append (es es' : List (MemoryEvent α)) :
    foldedDirectories es ⊆ foldedDirectories (es ++ es') := by
  rintro key ⟨s, hs, hkey⟩
  exact ⟨s, List.mem_append_left _ hs, hkey⟩

section

variable {es : List (MemoryEvent α)}

theorem isPath_of_mem_foldedFiles (hes : ∀ e ∈ es, e.Rooted) {key : String} (h : key ∈ foldedFiles es) :
    IsPath key := by
  obtain ⟨s, hs, hkey⟩ := h
  obtain ⟨f, hf, rfl⟩ := List.mem_map.1 hkey
  exact (closed_ofSnapshot s (hes _ hs)).file_path f hf

theorem isPath_of_mem_foldedDirectories (hes : ∀ e ∈ es, e.Rooted) {key : String}
    (h : key ∈ foldedDirectories es) : IsPath key := by
  obtain ⟨s, hs, hkey⟩ := h
  exact (closed_ofSnapshot s (hes _ hs)).path_of_mem key hkey

/-- A file that is also a directory above files is the slash. -/
theorem Separate.eq_slash (h : Separate es) {key : String} (hfile : key ∈ foldedFiles es)
    (hdirectory : key ∈ foldedDirectories es) : key = "/" := by
  obtain ⟨s, hs, hkey⟩ := hfile
  obtain ⟨p, hp, rfl⟩ := List.mem_map.1 hkey
  obtain ⟨f, hf, rfl⟩ := List.mem_map.1 hp
  obtain ⟨s', hs', hd⟩ := hdirectory
  obtain ⟨f', hf', htail⟩ := mem_directories_iff.1 hd
  simp only [plannedFile] at htail ⊢
  by_cases hsame : keyBelow (rootKey s.root) f.path = keyBelow (rootKey s'.root) f'.path
  · rw [hsame] at htail ⊢
    exact eq_slash_of_mem_tail_lineage (isRoot_rootKey _) htail
  · exact absurd htail (h s s' hs hs' f hf f' hf' hsame)

/-- The slash is folded as a file only together with itself as the directory. -/
theorem slash_mem_foldedDirectories (h : "/" ∈ foldedFiles es) : "/" ∈ foldedDirectories es := by
  obtain ⟨s, hs, hkey⟩ := h
  obtain ⟨p, hp, hslash⟩ := List.mem_map.1 hkey
  obtain ⟨f, hf, rfl⟩ := List.mem_map.1 hp
  refine ⟨s, hs, ?_⟩
  have hroot := root_eq_slash hslash (isRoot_rootKey s.root)
  have hmem : rootKey s.root ∈ (ofFiles (rootKey s.root) s.salient).directories :=
    root_mem_directories (List.ne_nil_of_mem hf)
  rw [hroot] at hmem
  rw [ofSnapshot, hroot]
  exact hmem

end

end MemoryEvent

/-! ### Runs -/

namespace MemoryGraph

open MemoryEvent

/-- The nodes of a graph are of the kinds that events have given them. -/
structure Sorted (es : List (MemoryEvent α)) (g : MemoryGraph α) : Prop where
  directory_iff : ∀ key, g.kind? key = some .directory ↔ key ∈ foldedDirectories es
  file_iff : ∀ key, g.kind? key = some .file ↔ key ∈ foldedFiles es ∧ key ∉ foldedDirectories es
  path_kind : ∀ key, IsPath key → g.contains key →
    g.kind? key = some .directory ∨ g.kind? key = some .file

theorem Sorted.isPath {es : List (MemoryEvent α)} {g : MemoryGraph α} (h : Sorted es g)
    (hes : ∀ e ∈ es, e.Rooted) {key : String}
    (hkey : g.kind? key = some .directory ∨ g.kind? key = some .file) : IsPath key := by
  rcases hkey with hkey | hkey
  · exact isPath_of_mem_foldedDirectories hes ((h.directory_iff key).1 hkey)
  · exact isPath_of_mem_foldedFiles hes ((h.file_iff key).1 hkey).1

theorem sorted_empty (settings : GraphSettings) : Sorted [] (empty settings : MemoryGraph α) := by
  constructor <;> simp [kind?, node?, contains, empty, foldedFiles, foldedDirectories]

variable [Scalar α]

theorem Sorted.fold {es : List (MemoryEvent α)} {g : MemoryGraph α} (h : Sorted es g) {s : Snapshot α}
    (hes : ∀ e ∈ es ++ [.fold s], e.Rooted) (hsep : Separate (es ++ [.fold s])) :
    Sorted (es ++ [.fold s]) (g.fold (.ofSnapshot s)).graph := by
  have hold : ∀ e ∈ es, e.Rooted := (List.forall_mem_append.1 hes).1
  -- what has been a file is no directory of the plan
  have hfile : ∀ key, g.kind? key = some .file → key ∉ (ofSnapshot s).directories := by
    intro key hkey hd
    obtain ⟨hmem, hnot⟩ := (h.file_iff key).1 hkey
    have hslash := hsep.eq_slash (mem_foldedFiles_concat_fold.2 (.inl hmem))
      (mem_foldedDirectories_concat_fold.2 (.inr hd))
    subst hslash
    exact hnot (slash_mem_foldedDirectories hmem)
  -- what has another kind is no path
  have hother : ∀ key k, g.kind? key = some k → k ≠ .directory → k ≠ .file → ¬IsPath key := by
    intro key k hkey hdirectory hfile hpath
    rcases h.path_kind key hpath (contains_of_kind? hkey) with hk | hk
    · rw [hkey] at hk
      exact hdirectory (Option.some.inj hk)
    · rw [hkey] at hk
      exact hfile (Option.some.inj hk)
  have hfiles : ∀ key, key ∈ (ofSnapshot s).files.map (·.key) → IsPath key := fun key hkey =>
    isPath_of_mem_foldedFiles hes (mem_foldedFiles_concat_fold.2 (.inr hkey))
  have hdirectories : ∀ key, key ∈ (ofSnapshot s).directories → IsPath key := fun key hkey =>
    isPath_of_mem_foldedDirectories hes (mem_foldedDirectories_concat_fold.2 (.inr hkey))
  refine ⟨?_, ?_, ?_⟩
  · intro key
    rw [kind?_fold, mem_foldedDirectories_concat_fold, ← h.directory_iff]
    have hfile := hfile key
    have hother := hother key
    have hdirectories := hdirectories key
    rcases hkind : g.kind? key with _ | (_ | _ | _ | _) <;> grind
  · intro key
    rw [kind?_fold, mem_foldedFiles_concat_fold, mem_foldedDirectories_concat_fold]
    have hfile := hfile key
    have hother := hother key
    have hfiles := hfiles key
    have hdirectories := hdirectories key
    have hdirectory_iff := h.directory_iff key
    have hfile_iff := h.file_iff key
    rcases hkind : g.kind? key with _ | (_ | _ | _ | _) <;> grind
  · intro key hpath hcontains
    obtain ⟨k, hk⟩ := exists_kind? hcontains
    rw [kind?_fold] at hk ⊢
    have hother := hother key
    rcases hkind : g.kind? key with _ | (_ | _ | _ | _) <;> grind

theorem Sorted.record {es : List (MemoryEvent α)} {g : MemoryGraph α} (h : Sorted es g) (hsound : g.Sound ∅)
    (hes : ∀ e ∈ es, e.Rooted) (agent : AgentId) (task summary : String) :
    Sorted (es ++ [.record agent task summary]) (g.record agent task summary).graph := by
  have hsame := sameOnPaths_record hsound agent task summary
  -- a path has the kind that it has had, and nothing else becomes a file or a directory
  have hkind : ∀ key kind, kind = .directory ∨ kind = .file →
      ((g.record agent task summary).graph.kind? key = some kind ↔ g.kind? key = some kind) := by
    intro key kind hk
    constructor
    · intro hnew
      rcases kind?_record hnew with hold | rfl | rfl
      · exact hold
      · simp at hk
      · simp at hk
    · intro hold
      have hpath : IsPath key := by
        refine h.isPath hes ?_
        rcases hk with rfl | rfl
        · exact .inl hold
        · exact .inr hold
      rwa [kind?, hsame.node key hpath]
  refine ⟨?_, ?_, ?_⟩
  · intro key
    rw [hkind key _ (.inl rfl), foldedDirectories_concat_record]
    exact h.directory_iff key
  · intro key
    rw [hkind key _ (.inr rfl), foldedDirectories_concat_record, foldedFiles_concat_record]
    exact h.file_iff key
  · intro key hpath hcontains
    rw [hkind key _ (.inl rfl), hkind key _ (.inr rfl)]
    refine h.path_kind key hpath ?_
    rw [contains_iff] at hcontains ⊢
    rwa [hsame.node key hpath] at hcontains

/-- In a run that keeps files and directories apart, nodes have the kinds that its events give them. -/
theorem sorted_replay (settings : GraphSettings) {es : List (MemoryEvent α)} (hes : ∀ e ∈ es, e.Rooted)
    (hsep : Separate es) : Sorted es (replay settings es) := by
  induction es using List.reverseRecOn with
  | nil => exact sorted_empty settings
  | append_singleton es e ih =>
    have hold : ∀ e ∈ es, e.Rooted := (List.forall_mem_append.1 hes).1
    have hrest := ih hold hsep.of_append
    rw [replay_concat]
    cases e with
    | fold s => exact hrest.fold hes hsep
    | record agent task summary => exact hrest.record (sound_replay settings hold) hold agent task summary

/-- The carriers of a topic are the folded files with the topic in the last piece of their keys. -/
theorem mem_carriers_replay (settings : GraphSettings) {es : List (MemoryEvent α)}
    (hes : ∀ e ∈ es, e.Rooted) {topic key : String} :
    key ∈ (replay settings es).carriers.members topic ↔
      key ∈ foldedFiles es ∧ topic ∈ Text.identifierTopics (stem key) := by
  induction es using List.reverseRecOn with
  | nil => simp [replay, applyAll, empty, foldedFiles]
  | append_singleton es e ih =>
    have hold : ∀ e ∈ es, e.Rooted := (List.forall_mem_append.1 hes).1
    rw [replay_concat]
    cases e with
    | fold s =>
      have hrewired : ((replay settings es).enter (.ofSnapshot s)).graph.Rewired
          ((replay settings es).apply (.fold s)) := rewired_joinTopics _ _
      have hplanned : (∃ f ∈ (ofSnapshot s).files, topic ∈ f.topics ∧ key = f.key) ↔
          key ∈ (ofSnapshot s).files.map (·.key) ∧ topic ∈ Text.identifierTopics (stem key) := by
        have htopics : ∀ f ∈ (ofSnapshot s).files, f.topics = Text.identifierTopics (stem f.key) := by
          intro p hp
          obtain ⟨f, -, rfl⟩ := List.mem_map.1 hp
          exact topics_plannedFile (isRoot_rootKey s.root) f
        rw [List.mem_map]
        constructor
        · rintro ⟨f, hf, ht, rfl⟩
          rw [htopics f hf] at ht
          exact ⟨⟨f, hf, rfl⟩, ht⟩
        · rintro ⟨⟨f, hf, rfl⟩, ht⟩
          rw [← htopics f hf] at ht
          exact ⟨f, hf, ht, rfl⟩
      rw [hrewired.carriers, mem_carriers_enter, hplanned, ih hold, mem_foldedFiles_concat_fold, ← or_and_right,
        or_comm]
    | record agent task summary =>
      rw [foldedFiles_concat_record, ← ih hold, apply,
        (sameOnPaths_record (sound_replay settings hold) agent task summary).carriers]

/-- A folded file is a file, unless it is the slash. -/
theorem kind?_of_mem_foldedFiles (settings : GraphSettings) {es : List (MemoryEvent α)}
    (hes : ∀ e ∈ es, e.Rooted) (hsep : Separate es) {key : String} (hfile : key ∈ foldedFiles es)
    (hslash : key ≠ "/") : (replay settings es).kind? key = some .file :=
  ((sorted_replay settings hes hsep).file_iff key).2
    ⟨hfile, fun hdirectory => hslash (hsep.eq_slash hfile hdirectory)⟩

/-- What carries a topic is a file. -/
theorem kind?_of_carrier (settings : GraphSettings) {es : List (MemoryEvent α)} (hes : ∀ e ∈ es, e.Rooted)
    (hsep : Separate es) {topic key : String}
    (h : key ∈ (replay settings es).carriers.members topic) :
    (replay settings es).kind? key = some .file := by
  obtain ⟨hfile, htopic⟩ := (mem_carriers_replay settings hes).1 h
  refine kind?_of_mem_foldedFiles settings hes hsep hfile ?_
  rintro rfl
  have hnone : Text.identifierTopics (stem "/") = ∅ := by decide
  simp [hnone] at htopic

/-! ### The run of two trees -/

theorem separate_sampleRun : Separate sampleRun := by
  intro s s' hs hs' f hf f' hf' _
  simp only [sampleRun, List.mem_cons, MemoryEvent.fold.injEq, reduceCtorEq, false_or, or_false,
    List.not_mem_nil] at hs hs'
  rcases hs with rfl | rfl <;> rcases hs' with rfl | rfl <;>
    simp only [sampleTree, List.map_cons, List.map_nil, List.mem_singleton] at hf hf' <;>
    subst hf hf' <;> decide

theorem kind?_replay_sampleRun (settings : GraphSettings) {key : String}
    (hkey : key ∈ ["/tree/src/parse_tree.rs", "/tree/src/print_tree.rs"]) :
    (replay settings sampleRun).kind? key = some .file := by
  have hfolded : ∀ files, .fold (sampleTree files) ∈ sampleRun →
      key ∈ (ofSnapshot (sampleTree files)).files.map (·.key) → key ∈ foldedFiles sampleRun :=
    fun files hfold hfile => ⟨sampleTree files, hfold, hfile⟩
  rw [List.mem_pair] at hkey
  rcases hkey with rfl | rfl
  · exact kind?_of_mem_foldedFiles settings rooted_sampleRun separate_sampleRun
      (hfolded [("src/parse_tree.rs", 0.5)] (by simp [sampleRun]) (by decide)) (by decide)
  · exact kind?_of_mem_foldedFiles settings rooted_sampleRun separate_sampleRun
      (hfolded [("src/print_tree.rs", 0.25)] (by simp [sampleRun]) (by decide)) (by decide)

end MemoryGraph

end EchoEngine
