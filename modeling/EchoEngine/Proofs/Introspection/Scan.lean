import EchoEngine.Introspection.Scan
import EchoEngine.Proofs.Files.Walk
import EchoEngine.Proofs.Introspection.Threshold

/-!
# What a scan visits

A walk passes over an entry with all that is below it, so a file is visited if no way to it is excluded, its own
included (`mem_names_visits_iff`).  What excludes is read off the settings, not off the patterns as they have been
parsed (`ignores_iff`).

A scan reports the files by paths and depths.  Names hold no slash, so no two files share a path and the slashes
of a path are the directories above the file (`covers_visits`).
-/

namespace EchoEngine

open Files

/-! ### What is visited -/

/-- A pattern, read, matches a path. -/
def Files.Glob.Matches (pattern path : String) : Prop :=
  ∃ tokens, parse pattern = .ok tokens ∧ accepts tokens path = true

namespace IntrospectionSettings

/-- Settings exclude what some names lead to: the last one is hidden, or a pattern matches their path or the last
one alone.  No names lead to the root, which is not excluded. -/
def Excludes (settings : IntrospectionSettings) (names : List String) : Prop :=
  ∃ name, names.getLast? = some name ∧
    ((settings.skipHidden = true ∧ name.toList.head? = some '.') ∨
      ∃ pattern ∈ settings.ignore, Glob.Matches pattern ("/".intercalate names) ∨ Glob.Matches pattern name)

/-- A regular file in a tree is one that settings let a scan visit. -/
structure Visits (settings : IntrospectionSettings) (tree : Node) (names : List String) : Prop where
  /-- It is found without following a link. -/
  file : ∃ bytes modified, tree.find? names = some (.file bytes modified)
  /-- All names but the last one are those of directories. -/
  near : names.length - 1 ≤ settings.maxDepth
  /-- A walk counts the names in 64 bits; short of the greatest possible depth, nearness implies this. -/
  countable : names.length < Nat.pow 2 64
  seen : ∀ way, way <+: names → ¬settings.Excludes way

end IntrospectionSettings

namespace Scanner

variable {settings : IntrospectionSettings} {s : Scanner}

theorem parsePattern_eq_ok_iff {pattern : String} {tokens : List Glob.Token} :
    parsePattern pattern = .ok tokens ↔ Glob.parse pattern = .ok tokens := by
  rw [parsePattern]
  cases Glob.parse pattern <;> simp

private theorem forall₂_of_mapM_eq_ok {ε α β : Type} {f : α → Except ε β} {as : List α} {bs : List β}
    (h : as.mapM f = .ok bs) : List.Forall₂ (fun a b => f a = .ok b) as bs := by
  induction as generalizing bs with
  | nil =>
    cases h
    exact .nil
  | cons a as ih =>
    rw [List.mapM_cons] at h
    cases hfirst : f a with
    | error e =>
      rw [hfirst] at h
      cases h
    | ok b =>
      cases hrest : as.mapM f with
      | error e =>
        rw [hfirst, hrest] at h
        cases h
      | ok bs =>
        rw [hfirst, hrest] at h
        cases h
        exact .cons hfirst (ih hrest)

/-- A scanner keeps its settings, and every pattern as it has been read. -/
theorem new_eq_ok (h : new settings = .ok s) : s.settings = settings ∧
    List.Forall₂ (fun pattern tokens => Glob.parse pattern = .ok tokens) settings.ignore s.ignored := by
  unfold new at h
  cases hvalid : settings.validate with
  | error e =>
    rw [hvalid] at h
    cases h
  | ok =>
    cases hparsed : settings.ignore.mapM parsePattern with
    | error e =>
      rw [hvalid, hparsed] at h
      cases h
    | ok ignored =>
      rw [hvalid, hparsed] at h
      cases h
      exact ⟨rfl, (forall₂_of_mapM_eq_ok hparsed).imp fun _ _ => parsePattern_eq_ok_iff.1⟩

theorem anyAccepts_iff (h : new settings = .ok s) (path : String) :
    Glob.anyAccepts s.ignored path = true ↔ ∃ pattern ∈ settings.ignore, Glob.Matches pattern path := by
  have hparsed := (new_eq_ok h).2
  rw [Glob.anyAccepts, List.any_eq_true]
  generalize settings.ignore = patterns at hparsed ⊢
  generalize s.ignored = ignored at hparsed ⊢
  induction hparsed with
  | nil => simp
  | cons hparse _ ih =>
    rw [List.exists_mem_cons_iff, List.exists_mem_cons_iff]
    refine or_congr ?_ ih
    simp [Glob.Matches, hparse]

theorem ignores_iff (h : new settings = .ok s) (names : List String) :
    s.ignores names = true ↔ settings.Excludes names := by
  rw [ignores, IntrospectionSettings.Excludes]
  cases names.getLast? with
  | none => simp
  | some name =>
    simp only [Bool.or_eq_true, Bool.and_eq_true, decide_eq_true_eq, anyAccepts_iff h, (new_eq_ok h).1,
      Option.some.injEq, exists_eq_left', and_or_left, exists_or, or_assoc]

theorem length_le_limit_iff (h : new settings = .ok s) (names : List String) :
    names.length ≤ s.limit ↔ names.length - 1 ≤ settings.maxDepth ∧ names.length < Nat.pow 2 64 := by
  have hword : 0 < Nat.pow 2 64 := Nat.two_pow_pos 64
  rw [limit, (new_eq_ok h).1, Nat.le_min]
  omega

theorem clear_ignores_iff (h : new settings = .ok s) (names : List String) :
    Node.Clear s.ignores [] names ↔ ∀ way, way <+: names → ¬settings.Excludes way := by
  rw [Node.clear_iff]
  refine forall_congr' fun way => imp_congr_right fun _ => ?_
  rw [List.nil_append, ← ignores_iff h, Bool.not_eq_true]
  refine ⟨fun hway => ?_, fun hway _ => hway⟩
  cases way with
  | nil => rfl
  | cons name way => exact hway (List.cons_ne_nil name way)

/-- A scan visits the files that the settings let it visit. -/
theorem mem_names_visits_iff (h : new settings = .ok s) {tree : Node} (htree : tree.Proper)
    (names : List String) : names ∈ (s.visits tree).map (·.names) ↔ settings.Visits tree names := by
  rw [List.mem_map]
  constructor
  · rintro ⟨v, hv, rfl⟩
    obtain ⟨below, bytes, hnames, hlength, hfile, hclear⟩ := (Node.mem_walk htree (Nat.zero_le _)).1 hv
    obtain ⟨hnear, hcountable⟩ := (length_le_limit_iff h v.names).1 hlength
    rw [List.nil_append] at hnames
    rw [← hnames] at hfile hclear
    exact ⟨⟨bytes, v.modified, hfile⟩, hnear, hcountable, (clear_ignores_iff h v.names).1 hclear⟩
  · rintro ⟨⟨bytes, modified, hfile⟩, hnear, hcountable, hseen⟩
    refine ⟨⟨names, modified⟩, (Node.mem_walk htree (Nat.zero_le _)).2 ?_, rfl⟩
    exact ⟨names, bytes, (List.nil_append names).symm, (length_le_limit_iff h names).2 ⟨hnear, hcountable⟩,
      hfile, (clear_ignores_iff h names).2 hseen⟩

end Scanner

/-! ### What is reported -/

namespace Files.Path

/-- Below each slash of a path is one more name. -/
theorem count_slash_intercalate {names : List String} (h : Names names) (hne : names ≠ []) :
    ("/".intercalate names).toList.count '/' = names.length - 1 := by
  have hlength := Text.length_splitBy '/' ("/".intercalate names)
  rw [Text.splitBy_intercalate (fun s hs => (h s hs).no_slash) hne] at hlength
  omega

end Files.Path

/-- Scored files are, once each, the regular files below a directory that settings let a scan visit. -/
structure IntrospectionSettings.Covers (settings : IntrospectionSettings) (tree : Node)
    (files : List (SalientFile Float)) : Prop where
  nodup : (files.map (·.path)).Nodup
  mem_iff : ∀ path, path ∈ files.map (·.path) ↔
    ∃ names, settings.Visits tree names ∧ path = "/".intercalate names
  depth_eq : ∀ f ∈ files, f.depth = f.path.toList.count '/'

namespace Scanner

variable {settings : IntrospectionSettings} {s : Scanner}

theorem covers_visits (h : new settings = .ok s) {entries : List (String × Node)}
    (hproper : (Node.dir entries).Proper) (hnamed : (Node.dir entries).Named) (w : Weights Float)
    (newest : Int) : settings.Covers (.dir entries) ((s.visits (.dir entries)).map (s.scored w newest)) := by
  have hnames : ∀ names ∈ (s.visits (.dir entries)).map (·.names), Names names ∧ names ≠ [] := by
    intro names hmem
    obtain ⟨bytes, modified, hfile⟩ := ((mem_names_visits_iff h hproper names).1 hmem).file
    refine ⟨(hnamed.of_find? hfile).2, ?_⟩
    rintro rfl
    cases hfile
  have hpaths : ((s.visits (.dir entries)).map (s.scored w newest)).map (·.path) =
      ((s.visits (.dir entries)).map (·.names)).map ("/".intercalate ·) := by
    simp [scored]
  constructor
  case nodup =>
    rw [hpaths]
    refine (Node.nodup_walk hproper (Nat.zero_le _)).map_on ?_
    intro a ha b hb
    exact Path.intercalate_injective (hnames a ha).1 (hnames b hb).1
  case mem_iff =>
    intro path
    rw [hpaths, List.mem_map]
    simp only [mem_names_visits_iff h hproper, eq_comm]
  case depth_eq =>
    intro f hf
    obtain ⟨v, hv, rfl⟩ := List.mem_map.1 hf
    obtain ⟨hv, hne⟩ := hnames v.names (List.mem_map_of_mem hv)
    exact (Path.count_slash_intercalate hv hne).symm

/-- A scan of a directory processes, once each, the regular files below it that the settings let it visit.  At
percentile zero it lists all of them, as long as their scores are numbers. -/
theorem covers_scan (h : new settings = .ok s) {entries : List (String × Node)}
    (hproper : (Node.dir entries).Proper) (hnamed : (Node.dir entries).Named) {world : World} {root : String}
    {place : List String} (hroot : world.Reaches root place)
    (hdir : world.top.find? place = some (.dir entries)) (w : Weights Float) :
    ∃ snapshot files, s.scan world root w = .ok snapshot ∧
      snapshot = .ofFiles (Path.absolute place) settings.percentile files ∧
      snapshot.processed = files.length ∧ settings.Covers (.dir entries) files ∧
      (settings.percentile == 0.0 → (∀ f ∈ files, f.salience.isNaN = false) →
        snapshot.salient.Perm files) := by
  have hscan : s.scan world root w = .ok (s.snapshot w (Path.absolute place) (s.visits (.dir entries))) := by
    rw [scan, World.resolve?_eq_some_iff.2 hroot]
    simp only [hdir]
  refine ⟨_, (s.visits (.dir entries)).map (s.scored w (newest (s.visits (.dir entries)))), hscan, ?_⟩
  rw [snapshot, (new_eq_ok h).1]
  exact ⟨rfl, rfl, covers_visits h hproper hnamed w _, fun hzero => Snapshot.perm_salient _ hzero⟩

/-! ### A scan of a small tree -/

def sampleEntries : List (String × Node) :=
  [(".git", .dir [("config", .file "".toUTF8 0)]), ("link", .link "src"), ("notes.md", .file "".toUTF8 0),
    ("src", .dir [("deep", .dir [("far.rs", .file "".toUTF8 0)]), ("main.rs", .file "".toUTF8 0)]),
    ("target", .dir [("main.o", .file "".toUTF8 0)])]

def sampleSettings : IntrospectionSettings :=
  ⟨0.0, 3600, 1, true, ["target"]⟩

def sampleScanner : Scanner :=
  ⟨sampleSettings, ["target".toList.map .literal]⟩

/-- A file is hidden, one is too far down and one is ignored; the link is not followed. -/
example : (sampleScanner.visits (.dir sampleEntries)).map (·.names) = [["notes.md"], ["src", "main.rs"]] := by
  decide +kernel

theorem proper_sampleEntries : (Node.dir sampleEntries).Proper := by
  refine .dir (by decide) ?_
  simp only [sampleEntries, List.forall_mem_cons]
  refine ⟨.singleton (.file _ _), .link _, .file _ _, .dir (by decide) ?src, .singleton (.file _ _), by simp⟩
  case src => exact List.forall_mem_cons.2 ⟨.singleton (.file _ _), List.forall_mem_singleton.2 (.file _ _)⟩

theorem named_sampleEntries : (Node.dir sampleEntries).Named := by
  refine .dir (by decide) ?_
  simp only [sampleEntries, List.forall_mem_cons]
  refine ⟨.singleton ?git (.file _ _), .link _, .file _ _, .dir (by decide) ?src, .singleton ?target (.file _ _),
    by simp⟩
  case git | target => decide
  case src =>
    exact List.forall_mem_cons.2 ⟨.singleton (by decide) (.file _ _), List.forall_mem_singleton.2 (.file _ _)⟩

def sampleWorld : World :=
  ⟨.dir [("tree", .dir sampleEntries)], []⟩

theorem reaches_sampleWorld : sampleWorld.Reaches "/tree" ["tree"] :=
  ⟨by decide, 0, Nat.zero_le _, .down rfl (by decide) (by decide) rfl (fun _ => nofun) (.done _)⟩

theorem covers_scan_sampleWorld :
    new sampleSettings = .ok sampleScanner ∧ sampleWorld.Reaches "/tree" ["tree"] ∧
      ∃ snapshot files, sampleScanner.scan sampleWorld "/tree" .standard = .ok snapshot ∧
        snapshot = .ofFiles (Path.absolute ["tree"]) sampleSettings.percentile files ∧
        snapshot.processed = files.length ∧ sampleSettings.Covers (.dir sampleEntries) files ∧
        ((∀ f ∈ files, f.salience.isNaN = false) → snapshot.salient.Perm files) := by
  have hnew : new sampleSettings = .ok sampleScanner := rfl
  have hdir : sampleWorld.top.find? ["tree"] = some (.dir sampleEntries) := rfl
  have hzero : sampleSettings.percentile == 0.0 := by decide
  obtain ⟨snapshot, files, hscan, hfiles, hprocessed, hcovers, hall⟩ :=
    covers_scan hnew proper_sampleEntries named_sampleEntries reaches_sampleWorld hdir .standard
  exact ⟨hnew, reaches_sampleWorld, snapshot, files, hscan, hfiles, hprocessed, hcovers, hall hzero⟩

end Scanner

end EchoEngine
