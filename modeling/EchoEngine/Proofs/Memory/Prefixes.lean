import EchoEngine.Proofs.Introspection.Relative
import EchoEngine.Proofs.Memory.Parents
import EchoEngine.Proofs.Memory.Replay

/-!
# Plans by prefixes

A plan goes up from every file only as far as it has not been before.  Nothing is missed by that, as what is known
comes with all above it: the directories are those that are found by going up to the root from every file
(`directories_eq_everyDirectory`).  They can be told from the paths alone, as the root and all proper prefixes of
paths, each below the prefix that is one piece shorter, and whoever climbs from one of them comes to the root
(`enumerates_ofSnapshot`).

All of this needs names: below the root `/`, a directory without a name has the key of the root itself.
-/

namespace EchoEngine.FoldPlan

open Std (ExtTreeMap)

variable {α : Type}

/-! ### Going up to the root -/

/-- The directories with every one on a way, whether it is known or not. -/
def registerEvery (root : String) (known : ExtTreeMap String (Option String)) :
    List String → ExtTreeMap String (Option String)
  | [] => known
  | piece :: above =>
    registerEvery root
      (known.insert (directoryKey root (piece :: above)) (some (directoryKey root above))) above

/-- The directories of files below a root, found by going up to the root from every file. -/
def everyDirectory (root : String) (files : List (SalientFile α)) : ExtTreeMap String (Option String) :=
  files.foldl (fun known f => registerEvery root known (directoryPieces f.path))
    (if files.isEmpty then ∅ else (∅ : ExtTreeMap String (Option String)).insert root none)

theorem directoryKey_ne_root (root : String) {piece : String} (hpiece : piece ≠ "") (above : List String) :
    directoryKey root (piece :: above) ≠ root := by
  intro hroot
  obtain rfl := eq_nil_of_directoryKey_eq_root hroot
  have hlt := length_directoryKey_lt root hpiece []
  rw [hroot] at hlt
  exact Nat.lt_irrefl _ hlt

/-- Known directories are all that there is to say of them. -/
theorem Holds.unique {root : String} {known known' : ExtTreeMap String (Option String)} {ways : List String → Prop}
    (h : Holds root known ways) (h' : Holds root known' ways) : known = known' := by
  apply ExtTreeMap.ext_getElem?
  intro d
  apply Option.ext
  intro parent
  exact (h d parent).trans (h' d parent).symm

theorem Holds.registerEvery {root : String} {known : ExtTreeMap String (Option String)}
    {ways : List String → Prop} {pieces : List String} (h : Holds root known ways) (hpieces : Pieces pieces)
    (hnames : "" ∉ pieces) (hways : ∀ way, ways way → Pieces way) :
    Holds root (FoldPlan.registerEvery root known pieces) (fun way => ways way ∨ way <:+ pieces) := by
  induction pieces generalizing known ways with
  | nil =>
    refine h.congr ?_
    intro piece above _
    simp
  | cons piece above ih =>
    rw [List.mem_cons, not_or] at hnames
    have hroot := directoryKey_ne_root root (Ne.symm hnames.1) above
    -- a way that leads to the same directory is the same way, so what is put there is what was there
    have hput := h.insert hroot fun q as hw hkey => directoryKey_inj (hways _ hw) hpieces hkey
    have hrest := ih hput (fun p hp => hpieces p (List.mem_cons_of_mem _ hp)) hnames.2
      (by
        rintro way (hw | rfl)
        · exact hways way hw
        · exact hpieces)
    refine hrest.congr ?_
    intro q as _
    rw [List.suffix_cons_iff, or_assoc]

theorem Holds.foldl_registerEvery {root : String} {known : ExtTreeMap String (Option String)}
    {ways : List String → Prop} {files : List (SalientFile α)} (h : Holds root known ways)
    (hnames : ∀ f ∈ files, "" ∉ directoryPieces f.path) (hways : ∀ way, ways way → Pieces way) :
    Holds root (files.foldl (fun known f => FoldPlan.registerEvery root known (directoryPieces f.path)) known)
      (fun way => ways way ∨ ∃ f ∈ files, way <:+ directoryPieces f.path) := by
  induction files generalizing known ways with
  | nil =>
    refine h.congr ?_
    intro piece above _
    simp
  | cons f files ih =>
    rw [List.forall_mem_cons] at hnames
    have hf := h.registerEvery (pieces_directoryPieces f.path) hnames.1 hways
    have hrest := ih hf hnames.2
      (by
        rintro way (hw | hw)
        · exact hways way hw
        · exact fun p hp => pieces_directoryPieces f.path p (hw.subset hp))
    refine hrest.congr ?_
    intro q as _
    simp [or_assoc]

/-- To stop at what is known makes no difference. -/
theorem directories_eq_everyDirectory {root : String} {files : List (SalientFile α)}
    (hnames : ∀ f ∈ files, "" ∉ directoryPieces f.path) :
    (ofFiles root files).directories = everyDirectory root files := by
  by_cases hfiles : files = []
  · subst hfiles
    rfl
  · have hevery := (holds_root root).foldl_registerEvery hnames (fun _ h => h.elim)
    have heq : everyDirectory root files
        = files.foldl (fun known f => FoldPlan.registerEvery root known (directoryPieces f.path))
            ((∅ : ExtTreeMap String (Option String)).insert root none) := by
      simp [everyDirectory, hfiles]
    rw [heq]
    refine (holds_directories hfiles).unique (hevery.congr ?_)
    intro piece above _
    simp

/-- Below a slash, a directory without a name has the key of the root: it is known, and would be put there. -/
example : (ofFiles "/" (MemoryGraph.sampleTree [("/main.rs", 0.5)]).salient).directories["/"]? = some none ∧
    (everyDirectory "/" (MemoryGraph.sampleTree [("/main.rs", 0.5)]).salient)["/"]? = some (some "/") := by
  decide

/-! ### Climbing -/

/-- Where so many steps up lead, each from a directory to its parent. -/
def climb (directories : ExtTreeMap String (Option String)) : Nat → String → Option String
  | 0, d => some d
  | steps + 1, d => directories[d]?.join.bind (climb directories steps)

/-- From a directory on the way to a file there are as many steps up to the root as there are pieces left. -/
theorem climb_directoryKey {root : String} {files : List (SalientFile α)} {f : SalientFile α} (hf : f ∈ files)
    (hnames : "" ∉ directoryPieces f.path) {way : List String} (hway : way <:+ directoryPieces f.path) :
    climb (ofFiles root files).directories way.length (directoryKey root way) = some root := by
  induction way with
  | nil => rfl
  | cons piece above ih =>
    have hpiece := ne_empty_of_suffix hway hnames
    have hparent := (getElem?_directories (List.ne_nil_of_mem hf) _ _).2
      (.inr ⟨directoryKey_ne_root root hpiece above, piece, above, ⟨f, hf, hway⟩, rfl, rfl⟩)
    rw [List.length_cons, climb, hparent]
    exact ih ((List.suffix_cons _ _).trans hway)

/-! ### Prefixes -/

/-- Some of the first pieces of a path, at least one and not all. -/
structure ProperPrefix (path : String) (pieces : List String) : Prop where
  ne_nil : pieces ≠ []
  isPrefix : pieces <+: Text.splitBy (· == '/') path
  ne_all : pieces ≠ Text.splitBy (· == '/') path

/-- The key of the first pieces of a path; it is that of the root if there are none. -/
def prefixKey (root : String) (pieces : List String) : String :=
  if pieces = [] then root else keyBelow root ("/".intercalate pieces)

theorem prefixKey_reverse (root : String) (way : List String) : prefixKey root way.reverse = directoryKey root way := by
  cases way with
  | nil => rfl
  | cons piece above => exact if_neg (by simp)

theorem directoryPieces_eq (path : String) :
    directoryPieces path = (Text.splitBy (· == '/') path).dropLast.reverse := by
  rw [directoryPieces, List.drop_one, List.tail_reverse]

/-- Proper prefixes are what is left of the way to a file above it. -/
theorem properPrefix_reverse_iff {path : String} {way : List String} :
    ProperPrefix path way.reverse ↔ way ≠ [] ∧ way <:+ directoryPieces path := by
  have hne := Text.splitBy_ne_nil '/' path
  have hproper : way <:+ directoryPieces path ↔ way.reverse <+: Text.splitBy (· == '/') path ∧
      way.reverse ≠ Text.splitBy (· == '/') path := by
    rw [directoryPieces_eq, ← List.reverse_prefix, List.reverse_reverse]
    constructor
    · intro h
      refine ⟨h.trans (List.dropLast_prefix _), fun heq => ?_⟩
      have hlength := h.length_le
      have hpos := List.length_pos_iff.2 hne
      rw [heq, List.length_dropLast] at hlength
      omega
    · rintro ⟨h, hall⟩
      rw [← List.dropLast_concat_getLast hne, List.prefix_concat_iff, List.dropLast_concat_getLast hne] at h
      exact h.resolve_left hall
  constructor
  · intro h
    exact ⟨by simpa using h.ne_nil, hproper.2 ⟨h.isPrefix, h.ne_all⟩⟩
  · rintro ⟨hnil, hway⟩
    exact ⟨by simpa using hnil, (hproper.1 hway).1, (hproper.1 hway).2⟩

/-! ### Plans -/

/-- A file with the key of its whole path, in the directory with that of its longest proper prefix. -/
def placedFile (root : String) (f : SalientFile α) : PlannedFile α where
  key := prefixKey root (Text.splitBy (· == '/') f.path)
  directory := prefixKey root (Text.splitBy (· == '/') f.path).dropLast
  topics := Text.identifierTopics (stem f.path)
  weight := f.salience

/-- A plan of files below a root that has been put together from the prefixes of their paths. -/
structure Enumerates (plan : FoldPlan α) (root : String) (files : List (SalientFile α)) : Prop where
  /-- The root and all proper prefixes, each below the one that is a piece shorter. -/
  directory_iff : ∀ d parent, plan.directories[d]? = some parent ↔ (d = root ∧ parent = none) ∨
    ∃ f ∈ files, ∃ pieces, ProperPrefix f.path pieces ∧ d = prefixKey root pieces ∧
      parent = some (prefixKey root pieces.dropLast)
  directories_eq : plan.directories = everyDirectory root files
  climbs : ∀ d ∈ plan.directories, ∃ steps, climb plan.directories steps d = some root
  files_eq : plan.files = files.map (placedFile root)

theorem plannedFile_eq_placedFile (root : String) (f : SalientFile α) : plannedFile root f = placedFile root f := by
  have hkey : prefixKey root (Text.splitBy (· == '/') f.path) = keyBelow root f.path := by
    rw [prefixKey, if_neg (Text.splitBy_ne_nil '/' f.path), Text.intercalate_splitBy]
  rw [plannedFile, placedFile, hkey, ← prefixKey_reverse, directoryPieces_eq, List.reverse_reverse]

/-- What the ways to files lead to are the keys of proper prefixes. -/
theorem exists_way_iff {root path d : String} {parent : Option String} :
    (∃ piece above, piece :: above <:+ directoryPieces path ∧ d = directoryKey root (piece :: above) ∧
      parent = some (directoryKey root above)) ↔
    ∃ pieces, ProperPrefix path pieces ∧ d = prefixKey root pieces ∧ parent = some (prefixKey root pieces.dropLast) := by
  have hdrop : ∀ piece above, prefixKey root (piece :: above).reverse.dropLast = directoryKey root above := by
    intro piece above
    rw [List.reverse_cons, List.dropLast_concat, prefixKey_reverse]
  constructor
  · rintro ⟨piece, above, hway, rfl, rfl⟩
    exact ⟨(piece :: above).reverse, properPrefix_reverse_iff.2 ⟨List.cons_ne_nil _ _, hway⟩,
      (prefixKey_reverse _ _).symm, by rw [hdrop]⟩
  · rintro ⟨pieces, hproper, rfl, rfl⟩
    rw [← List.reverse_reverse pieces, properPrefix_reverse_iff] at hproper
    obtain ⟨piece, above, hway⟩ := List.exists_cons_of_ne_nil hproper.1
    rw [hway] at hproper
    rw [← List.reverse_reverse pieces, hway, hdrop, prefixKey_reverse]
    exact ⟨piece, above, hproper.2, rfl, rfl⟩

theorem enumerates_ofFiles {root : String} {files : List (SalientFile α)} (hfiles : files ≠ [])
    (hnames : ∀ f ∈ files, "" ∉ directoryPieces f.path) : (ofFiles root files).Enumerates root files := by
  constructor
  case directory_iff =>
    intro d parent
    simp only [← exists_way_iff]
    rw [getElem?_directories hfiles]
    apply or_congr_right
    constructor
    · rintro ⟨-, piece, above, ⟨f, hf, hway⟩, hd, hparent⟩
      exact ⟨f, hf, piece, above, hway, hd, hparent⟩
    · rintro ⟨f, hf, piece, above, hway, rfl, hparent⟩
      have hpiece := ne_empty_of_suffix hway (hnames f hf)
      exact ⟨directoryKey_ne_root root hpiece above, piece, above, ⟨f, hf, hway⟩, rfl, hparent⟩
  case directories_eq => exact directories_eq_everyDirectory hnames
  case climbs =>
    intro d hd
    rcases ((holds_directories hfiles).mem_iff d).1 hd with rfl | ⟨piece, above, ⟨f, hf, hway⟩, rfl⟩
    · exact ⟨0, rfl⟩
    · exact ⟨_, climb_directoryKey hf (hnames f hf) hway⟩
  case files_eq => exact List.map_congr_left fun f _ => plannedFile_eq_placedFile root f

/-- The plan of a snapshot has every proper prefix of every path once, below the root of the snapshot without the
slashes at its end, and comes to the root from each of them; it is empty if nothing is salient.  No directory on the
way to a file may be without a name. -/
theorem enumerates_ofSnapshot (s : Snapshot α) (hnames : ∀ f ∈ s.salient, "" ∉ directoryPieces f.path) :
    Normal s.root (rootKey s.root) ∧
    (s.salient ≠ [] → (ofSnapshot s).Enumerates (rootKey s.root) s.salient) ∧
    (s.salient = [] → ofSnapshot s = ⟨[], ∅⟩) := by
  refine ⟨normal_rootKey s.root, fun hfiles => enumerates_ofFiles hfiles hnames, fun hfiles => ?_⟩
  rw [ofSnapshot, hfiles]
  rfl

/-- Three files, in folders of folders below a root with slashes at its end. -/
def sampleFolders : Snapshot Float :=
  { MemoryGraph.sampleTree [("src/memory/graph.rs", 0.5), ("src/main.rs", 0.25), ("README.md", 0.25)] with
    root := "/tree//" }

theorem enumerates_ofSnapshot_sampleFolders :
    (∀ f ∈ sampleFolders.salient, "" ∉ directoryPieces f.path) ∧ rootKey sampleFolders.root = "/tree" ∧
      (ofSnapshot sampleFolders).directories["/tree"]? = some none ∧
      (ofSnapshot sampleFolders).directories["/tree/src/memory"]? = some (some "/tree/src") ∧
      (∃ steps, climb (ofSnapshot sampleFolders).directories steps "/tree/src/memory" = some "/tree") ∧
      (ofSnapshot sampleFolders).files.map (·.directory) = ["/tree/src/memory", "/tree/src", "/tree"] := by
  have hnames : ∀ f ∈ sampleFolders.salient, "" ∉ directoryPieces f.path := by
    simp only [sampleFolders, MemoryGraph.sampleTree, List.map_cons, List.map_nil, List.forall_mem_cons]
    exact ⟨by decide, by decide, by decide, List.forall_mem_nil _⟩
  have h := (enumerates_ofSnapshot sampleFolders hnames).2.1 (List.cons_ne_nil _ _)
  have hroot := (h.directory_iff "/tree" none).2 (.inl ⟨rfl, rfl⟩)
  have hmemory := (h.directory_iff "/tree/src/memory" (some "/tree/src")).2
    (.inr ⟨_, List.mem_cons_self, ["src", "memory"], ⟨by decide, by decide, by decide⟩, by decide, by decide⟩)
  refine ⟨hnames, by decide, hroot, hmemory, h.climbs _ (mem_of_getElem? hmemory), ?_⟩
  rw [h.files_eq]
  decide

/-! ### Plans of scans -/

open Files

/-- The names on the way to a scanned file are names. -/
theorem names_of_mem_salient [Scalar α] {s : Scanner} {w : Weights α} {world : World} {root : String}
    {place : List String} {entries : List (String × Node)} (hroot : world.Reaches root place)
    (hdir : world.top.find? place = some (.dir entries)) (hproper : (Node.dir entries).Proper)
    (hnamed : (Node.dir entries).Named) {snapshot : Snapshot α} (hscan : s.scan world root w = .ok snapshot)
    {f : SalientFile α} (hf : f ∈ snapshot.salient) : Names (Text.splitBy (· == '/') f.path) := by
  rw [s.scan_eq_ok w hroot hdir] at hscan
  cases hscan
  have hscored := List.mem_of_mem_filter ((List.mergeSort_perm _ _).mem_iff.1 hf)
  obtain ⟨v, hv, rfl⟩ := List.mem_map.1 hscored
  obtain ⟨hnames, hne⟩ := s.names_of_mem_visits hproper hnamed hv
  have hpieces : Text.splitBy (· == '/') ("/".intercalate v.names) = v.names :=
    Text.splitBy_intercalate (fun name hname => (hnames name hname).no_slash) hne
  exact hpieces ▸ hnames

/-- The plan of a scan that has found something has every proper prefix of every path. -/
theorem enumerates_scan [Scalar α] {s : Scanner} {w : Weights α} {world : World} {root : String}
    {place : List String} {entries : List (String × Node)} (hroot : world.Reaches root place)
    (hdir : world.top.find? place = some (.dir entries)) (hproper : (Node.dir entries).Proper)
    (hnamed : (Node.dir entries).Named) {snapshot : Snapshot α} (hscan : s.scan world root w = .ok snapshot)
    (hsalient : snapshot.salient ≠ []) :
    (ofSnapshot snapshot).Enumerates (rootKey snapshot.root) snapshot.salient := by
  refine enumerates_ofFiles hsalient fun f hf hempty => ?_
  have hnames := names_of_mem_salient hroot hdir hproper hnamed hscan hf
  rw [directoryPieces_eq, List.mem_reverse] at hempty
  exact (hnames "" (List.mem_of_mem_dropLast hempty)).ne_empty rfl

end EchoEngine.FoldPlan
