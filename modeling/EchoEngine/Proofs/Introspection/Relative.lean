import EchoEngine.Proofs.Files.Later
import EchoEngine.Proofs.Introspection.Scan
import EchoEngine.Proofs.Introspection.Snapshot

/-!
# Shape and age

Of a tree, a scan sees its shape and how much older each file is than the newest one.  So nothing changes when all
files have changed later by the same time (`scan_later`), and only the root of the snapshot changes when the tree is
found at another place (`scan_relative`).

Scores may as well be computed by the whole paths of files: the kind of a file is told by its name
(`ofPath_absolute`), whatever the directories above the root are called.
-/

namespace EchoEngine

open Files

/-! ### Kinds by whole paths -/

namespace Files.Path

theorem components_intercalate {names : List String} (h : Names names) :
    components ("/".intercalate names) = names.map Component.name := by
  have hhere : (pieces ("/".intercalate names)).head? ≠ some "." := by
    rw [pieces_intercalate h]
    exact fun hdot => (h "." (List.mem_of_head? hdot)).ne_here rfl
  rw [components, isAbsolute_intercalate h, if_neg Bool.false_ne_true, if_neg hhere, pieces_intercalate h,
    componentsOf_names h]

/-- A file has one name, seen from the root or from above. -/
theorem fileName?_absolute {place names : List String} (hplace : Names place) (h : Names names)
    (hne : names ≠ []) : fileName? (absolute (place ++ names)) = fileName? ("/".intercalate names) := by
  have hmap : names.map Component.name ≠ [] := by simpa using hne
  rw [fileName?, fileName?, components_absolute (hplace.append h), components_intercalate h, List.map_append,
    ← List.cons_append, List.getLast?_append_of_ne_nil _ hmap]

end Files.Path

theorem FileCategory.ofPath_absolute {place names : List String} (hplace : Names place) (h : Names names)
    (hne : names ≠ []) : ofPath (Path.absolute (place ++ names)) = ofPath ("/".intercalate names) := by
  rw [ofPath, ofPath, Path.extension?, Path.extension?, Path.fileName?_absolute hplace h hne]

namespace Scanner

variable {α : Type} [Scalar α] (s : Scanner) (w : Weights α)

/-- A visited file with its score, its kind told by its path from the top. -/
def scoredAt (place : List String) (newest : Int) (v : Visit) : SalientFile α :=
  let depth := v.names.length - 1
  let coherence := Salience.coherence (FileCategory.ofPath (Path.absolute (place ++ v.names))) depth
  let novelty := Salience.novelty (newest - v.modified).toNat s.settings.halfLife
  { path := "/".intercalate v.names, salience := Salience.score w coherence novelty, coherence, novelty, depth }

/-- The snapshot of files visited below a place, their kinds told by their paths from the top. -/
def snapshotAt (place : List String) (visits : List Visit) : Snapshot α :=
  .ofFiles (Path.absolute place) s.settings.percentile (visits.map (s.scoredAt w place (newest visits)))

theorem snapshotAt_eq {place : List String} (hplace : Names place) {visits : List Visit}
    (h : ∀ v ∈ visits, Names v.names ∧ v.names ≠ []) :
    s.snapshotAt w place visits = s.snapshot w (Path.absolute place) visits := by
  rw [snapshotAt, snapshot]
  congr 1
  refine List.map_congr_left fun v hv => ?_
  obtain ⟨hnames, hne⟩ := h v hv
  rw [scoredAt, scored, FileCategory.ofPath_absolute hplace hnames hne]

/-! ### Later times -/

variable (d : Int)

theorem newest_later {visits : List Visit} (h : visits ≠ []) :
    newest (visits.map (Visit.later d)) = newest visits + d := by
  obtain ⟨hmem, hle⟩ := (newest_eq_iff h).1 rfl
  rw [newest_eq_iff (by simpa using h), List.map_map]
  obtain ⟨v, hv, hnewest⟩ := List.mem_map.1 hmem
  refine ⟨List.mem_map.2 ⟨v, hv, congrArg (· + d) hnewest⟩, ?_⟩
  rw [List.forall_mem_map]
  intro u hu
  exact Int.add_le_add_right (hle _ (List.mem_map_of_mem hu)) d

/-- Ages are what they were. -/
theorem scored_later (t : Int) (v : Visit) : s.scored w (t + d) (v.later d) = s.scored w t v := by
  rw [scored, scored, Visit.later, Int.add_sub_add_right]

theorem snapshot_later (root : String) (visits : List Visit) :
    s.snapshot w root (visits.map (Visit.later d)) = s.snapshot w root visits := by
  rcases eq_or_ne visits [] with rfl | hne
  · rfl
  · rw [snapshot, snapshot, newest_later d hne, List.map_map]
    congr 1
    exact List.map_congr_left fun v _ => s.scored_later w d (newest visits) v

theorem scan_later (world : World) (root : String) :
    s.scan (world.later d) root w = s.scan world root w := by
  rw [scan, scan, World.resolve?_later]
  cases world.resolve? root with
  | none => rfl
  | some place =>
    simp only [World.later, Node.find?_later]
    cases world.top.find? place with
    | none => rfl
    | some n =>
      cases n with
      | file | link => rfl
      | dir entries =>
        have hvisits : s.visits ((Node.dir entries).later d) =
            (s.visits (.dir entries)).map (Visit.later d) := Node.walk_later d _ _ _ _
        simp only [Option.map_some, Node.later] at hvisits ⊢
        rw [hvisits, snapshot_later]

/-! ### Other places -/

theorem scan_eq_ok {world : World} {root : String} {place : List String} {entries : List (String × Node)}
    (hroot : world.Reaches root place) (hdir : world.top.find? place = some (.dir entries)) :
    s.scan world root w = .ok (s.snapshot w (Path.absolute place) (s.visits (.dir entries))) := by
  rw [scan, World.resolve?_eq_some_iff.2 hroot]
  simp only [hdir]

theorem names_of_mem_visits {entries : List (String × Node)} (hproper : (Node.dir entries).Proper)
    (hnamed : (Node.dir entries).Named) {v : Visit} (hv : v ∈ s.visits (.dir entries)) :
    Names v.names ∧ v.names ≠ [] := by
  obtain ⟨below, bytes, hnames, -, hfile, -⟩ := (Node.mem_walk hproper (Nat.zero_le _)).1 hv
  rw [hnames, List.nil_append]
  refine ⟨(hnamed.of_find? hfile).2, ?_⟩
  rintro rfl
  cases hfile

/-- A scan is what it was when all files have changed later by the same time.  When a tree is found at another place,
be it by moving or renaming its root, in these files or in others, the scan there differs in the root alone, although
it tells the kinds of files by their paths from the top. -/
theorem scan_relative (world : World) (root : String) :
    (∀ d, s.scan (world.later d) root w = s.scan world root w) ∧
    ∀ place entries, world.Reaches root place → world.top.find? place = some (.dir entries) →
      ∃ snapshot, s.scan world root w = .ok snapshot ∧
        ∀ world' root' place', world'.Reaches root' place' → world'.top.find? place' = some (.dir entries) →
          s.scan world' root' w = .ok { snapshot with root := Path.absolute place' } ∧
          (Names place' → (Node.dir entries).Proper → (Node.dir entries).Named →
            s.scan world' root' w = .ok (s.snapshotAt w place' (s.visits (.dir entries)))) := by
  refine ⟨fun d => s.scan_later w d world root, fun place entries hroot hdir => ?_⟩
  refine ⟨_, s.scan_eq_ok w hroot hdir, fun world' root' place' hroot' hdir' => ?_⟩
  have hscan := s.scan_eq_ok w hroot' hdir'
  refine ⟨hscan, fun hplace hproper hnamed => ?_⟩
  rw [hscan, s.snapshotAt_eq w hplace fun v => s.names_of_mem_visits hproper hnamed]

/-- The sample tree below a hidden directory whose name an ignore pattern matches. -/
def movedWorld : World :=
  ⟨.dir [(".cache", .dir [("target", .dir sampleEntries)])], []⟩

theorem scan_relative_movedWorld :
    sampleWorld.Reaches "/tree" ["tree"] ∧ movedWorld.Reaches "/.cache/target" [".cache", "target"] ∧
      ∃ snapshot, sampleScanner.scan sampleWorld "/tree" Weights.standard = .ok snapshot ∧
        sampleScanner.scan movedWorld "/.cache/target" .standard =
          .ok { snapshot with root := "/.cache/target" } ∧
        sampleScanner.scan movedWorld "/.cache/target" .standard =
          .ok (sampleScanner.snapshotAt .standard [".cache", "target"] (sampleScanner.visits (.dir sampleEntries))) := by
  have hmoved : movedWorld.Reaches "/.cache/target" [".cache", "target"] :=
    ⟨by decide, 0, Nat.zero_le _, .down rfl (by decide) (by decide) rfl (fun _ => nofun)
      (.down rfl (by decide) (by decide) rfl (fun _ => nofun) (.done _))⟩
  have hnames : Names [".cache", "target"] :=
    List.forall_mem_cons.2 ⟨by decide, List.forall_mem_singleton.2 (by decide)⟩
  obtain ⟨snapshot, hscan, hother⟩ := (scan_relative sampleScanner .standard sampleWorld "/tree").2 ["tree"]
    sampleEntries reaches_sampleWorld rfl
  obtain ⟨hroot, hwhole⟩ := hother movedWorld "/.cache/target" [".cache", "target"] hmoved rfl
  exact ⟨reaches_sampleWorld, hmoved, snapshot, hscan, hroot,
    hwhole hnames proper_sampleEntries named_sampleEntries⟩

end Scanner

end EchoEngine
