import EchoEngine.Proofs.Capability.FindFiles

/-!
# Workspaces without a root

The root of a workspace is settled when it is made.  A path that leads nowhere then is kept as it is written, and
what is looked up later is compared with this text, component by component (`isWithin_absolute_iff`).  Places have
absolute paths that never go up.  So a relative root lets nothing in, and neither does one that goes up; any other
lets in what lies at the names that it spells, or below.  As long as nothing leads there, this is nothing at all,
unless the root asks for a directory where a regular file is.

A root without a text has no components.  Every path is within it, and everything that is there is found.
-/

namespace EchoEngine

open Files World

namespace Files.Path

/-- The names that an absolute path spells, if it never goes up. -/
def spelled (path : String) : List String :=
  (pieces path).filter (· ≠ ".")

theorem componentsOf_eq {pieces : List String} (hup : ".." ∉ pieces) :
    componentsOf pieces = (pieces.filter (· ≠ ".")).map Component.name := by
  induction pieces with
  | nil => rfl
  | cons piece pieces ih =>
    rw [List.mem_cons, not_or] at hup
    rw [componentsOf, ih hup.2, if_neg (Ne.symm hup.1)]
    by_cases hhere : piece = "."
    · rw [if_pos hhere, List.filter_cons_of_neg (by simpa using hhere)]
    · rw [if_neg hhere, List.filter_cons_of_pos (by simpa using hhere), List.map_cons]

/-- Every path is within the one that has no text. -/
theorem isWithin_empty (path : String) : isWithin "" path = true := rfl

theorem isWithin_absolute_of_relative {base : String} (hne : base ≠ "") (hbase : isAbsolute base = false)
    (names : List String) : isWithin base (absolute names) = false := by
  have hpieces : pieces base ≠ [] := by
    intro hnil
    have hslash := eq_slash_of_pieces_eq_nil hnil
    cases hchars : base.toList with
    | nil => exact hne (String.toList_eq_nil_iff.1 hchars)
    | cons c cs =>
      rw [hslash c (by simp [hchars])] at hchars
      simp [isAbsolute, hchars] at hbase
  obtain ⟨piece, rest, hcons⟩ := List.exists_cons_of_ne_nil hpieces
  have hstart : ∃ first others, components base = first :: others ∧ first ≠ .root := by
    rw [components, hbase, if_neg Bool.false_ne_true, hcons, List.head?_cons, componentsOf]
    by_cases hhere : piece = "."
    · exact ⟨_, _, if_pos (congrArg some hhere), fun h => by cases h⟩
    · rw [if_neg (by simpa using hhere), if_neg hhere]
      refine ⟨_, _, rfl, ?_⟩
      split <;> simp
  obtain ⟨first, others, hfirst, hroot⟩ := hstart
  rw [isWithin, hfirst, components, if_pos (isAbsolute_absolute names), Bool.eq_false_iff, ne_eq,
    List.isPrefixOf_iff_prefix, List.cons_prefix_cons]
  exact fun h => hroot h.1

/-- Within an absolute path lies what its names start, if it never goes up, and nothing if it does. -/
theorem isWithin_absolute_iff {base : String} (hbase : isAbsolute base = true) {names : List String}
    (hnames : Names names) :
    isWithin base (absolute names) ↔ ".." ∉ pieces base ∧ spelled base <+: names := by
  have hinj : Function.Injective Component.name := fun _ _ he => Component.name.inj he
  rw [isWithin, components_absolute hnames, components, if_pos hbase, List.isPrefixOf_iff_prefix,
    List.cons_prefix_cons, and_iff_right rfl]
  constructor
  · intro hstart
    have hup : ".." ∉ pieces base := by
      rw [← Workspace.all_goesDown_componentsOf, List.all_eq_true]
      intro c hc
      obtain ⟨name, -, rfl⟩ := List.mem_map.1 (hstart.subset hc)
      rfl
    rw [componentsOf_eq hup, List.prefix_map_iff_of_injective hinj] at hstart
    exact ⟨hup, hstart⟩
  · rintro ⟨hup, hstart⟩
    rw [componentsOf_eq hup]
    exact (List.prefix_map_iff_of_injective hinj).2 hstart

end Files.Path

/-! ### What leads nowhere -/

namespace Files.World

/-- What stands at the start of names that find a directory is a directory. -/
theorem exists_dir_of_find?_dir {top : Node} {place names : List String} {entries : List (String × Node)}
    (h : top.find? (place ++ names) = some (.dir entries)) : ∃ entries, top.find? place = some (.dir entries) := by
  cases names with
  | nil =>
    rw [List.append_nil] at h
    exact ⟨entries, h⟩
  | cons name names => exact Node.exists_dir_of_find?_append h

/-- Pieces that never go up lead to the directory at their names. -/
theorem leads_of_dir {top : Node} {place todo : List String} (hup : ".." ∉ todo) {entries : List (String × Node)}
    (h : top.find? (place ++ todo.filter (· ≠ ".")) = some (.dir entries)) :
    Leads top place todo 0 (place ++ todo.filter (· ≠ ".")) := by
  induction todo generalizing place with
  | nil =>
    rw [List.filter_nil, List.append_nil]
    exact .done place
  | cons piece todo ih =>
    rw [List.mem_cons, not_or] at hup
    obtain ⟨here, hdir⟩ := exists_dir_of_find?_dir h
    by_cases hhere : piece = "."
    · rw [List.filter_cons_of_neg (by simpa using hhere)] at h ⊢
      subst hhere
      exact .here hdir (ih hup.2 h)
    · rw [List.filter_cons_of_pos (by simpa using hhere), List.append_cons] at h ⊢
      obtain ⟨below, hbelow⟩ := exists_dir_of_find?_dir h
      rw [Node.find?_append, hdir] at hbelow
      have hentry : here.lookup piece = some (.dir below) := by simpa [Node.find?, Node.child?] using hbelow
      exact .down hdir hhere (Ne.symm hup.1) hentry (fun _ h => by cases h) (ih hup.2 h)

/-- The steps of a path spell its names too. -/
theorem filter_steps (path : String) : (steps path).filter (· ≠ ".") = Path.spelled path := by
  rw [steps, List.filter_append, Path.spelled]
  split <;> simp

section

variable {w : World} {path : String} (habsolute : Path.isAbsolute path = true) (hup : ".." ∉ Path.pieces path)

include hup in
private theorem not_up_mem_steps : ".." ∉ steps path := by
  rw [steps, List.mem_append, not_or]
  refine ⟨hup, ?_⟩
  split <;> decide

include habsolute

private theorem ne_empty_of_isAbsolute : path ≠ "" := by
  rintro rfl
  cases habsolute

include hup

/-- An absolute path that never goes up leads to the directory that it spells. -/
theorem reaches_of_dir {entries : List (String × Node)}
    (h : w.top.find? (Path.spelled path) = some (.dir entries)) : w.Reaches path (Path.spelled path) := by
  rw [← filter_steps] at h ⊢
  refine ⟨ne_empty_of_isAbsolute habsolute, 0, Nat.zero_le _, ?_⟩
  rw [origin, if_pos habsolute]
  exact @leads_of_dir _ [] _ (not_up_mem_steps hup) _ h

/-- Unless it asks for a directory, it leads to whatever it spells, if this is no link. -/
theorem reaches_of_find? {n : Node} (h : w.top.find? (Path.spelled path) = some n) (hn : ∀ target, n ≠ .link target)
    (hlast : (steps path).getLast? ≠ some ".") : w.Reaches path (Path.spelled path) := by
  have hne := ne_empty_of_isAbsolute habsolute
  obtain ⟨init, last, hsteps⟩ := (List.eq_nil_or_concat' (steps path)).resolve_left (steps_ne_nil hne)
  have hdots : ".." ∉ init ∧ last ≠ ".." := by
    have hnot := not_up_mem_steps hup
    rw [hsteps, List.mem_append, List.mem_singleton, not_or] at hnot
    exact ⟨hnot.1, Ne.symm hnot.2⟩
  have hhere : last ≠ "." := by
    rintro rfl
    exact hlast (by rw [hsteps, List.getLast?_concat])
  have hspelled : Path.spelled path = init.filter (· ≠ ".") ++ [last] := by
    rw [← filter_steps, hsteps, List.filter_append, List.filter_cons_of_pos (by simpa using hhere), List.filter_nil]
  -- the last step goes down from the directory that the others lead to
  rw [hspelled] at h ⊢
  obtain ⟨entries, hdir⟩ := Node.exists_dir_of_find?_append h
  have hentry : entries.lookup last = some n := by
    rw [Node.find?_append, hdir] at h
    simpa [Node.find?, Node.child?] using h
  have hinit := @leads_of_dir w.top [] init hdots.1 entries hdir
  refine ⟨hne, 0, Nat.zero_le _, ?_⟩
  rw [origin, if_pos habsolute, hsteps]
  exact hinit.append (.down hdir hhere hdots.2 hentry hn (.done _))

end

end Files.World

/-! ### Looking up -/

namespace Workspace

/-- What a workspace answers about paths if its root, as it is written, led nowhere among the files `w`. -/
structure ComparesText (w : World) (root : String) (ws : Workspace) : Prop where
  root_eq : ws.root = root
  missing : ∀ path, (¬∃ place, ws.world.Reaches (Path.join root path) place) →
    ws.existing path = .error (.pathNotFound (Path.join root path))
  /-- Without a text the root is everywhere. -/
  everywhere : root = "" → ∀ path found, ws.existing path = .ok found ↔
    ∃ place, ws.world.Reaches path place ∧ found = Path.absolute place
  /-- With a text it lets in what lies at the names that it spells, or below. -/
  inside : root ≠ "" → ∀ path place, ws.world.Reaches (Path.join root path) place →
    ws.existing path =
      if Path.isAbsolute root = true ∧ ".." ∉ Path.pieces root ∧ Path.spelled root <+: place then
        .ok (Path.absolute place)
      else .error (.invalidParameter ("path escapes workspace: " ++ path))
  /-- Among the same files only a regular file is found, which the root takes for a directory. -/
  unchanged : root ≠ "" → ws.world = w → ∀ path found, ws.existing path = .ok found →
    found = Path.absolute (Path.spelled root) ∧
      (∃ bytes modified, w.top.find? (Path.spelled root) = some (.file bytes modified)) ∧
      (steps root).getLast? = some "."

theorem root_new_of_not_reaches {w : World} {root : String} (h : ¬∃ place, w.Reaches root place) :
    (Workspace.new w root).root = root := by
  rw [Workspace.new, canonical?, resolve?_eq_none_iff.2 h]
  rfl

/-- Whether a text with something in it lets a place in. -/
theorem isWithin_root_iff {root path : String} (hne : root ≠ "") {w : World} {place : List String}
    (h : w.Reaches (Path.join root path) place) : Path.isWithin root (Path.absolute place) = true ↔
      Path.isAbsolute root = true ∧ ".." ∉ Path.pieces root ∧ Path.spelled root <+: place := by
  cases habsolute : Path.isAbsolute root with
  | false =>
    rw [Path.isWithin_absolute_of_relative hne habsolute]
    simp
  | true =>
    have hplace : Names place := h.names_of_isAbsolute (Path.isAbsolute_join_of_absolute habsolute path)
    rw [Path.isWithin_absolute_iff habsolute hplace, and_iff_right rfl]

/-- Where a path leads nowhere, something can be within it only if it is a file that the path takes for a
directory. -/
theorem file_of_not_reaches {w : World} {root : String} (hroot : ¬∃ place, w.Reaches root place)
    (habsolute : Path.isAbsolute root = true) (hup : ".." ∉ Path.pieces root) {place : List String}
    (hreal : w.top.Real place) (hstart : Path.spelled root <+: place) :
    place = Path.spelled root ∧ (∃ bytes modified, w.top.find? (Path.spelled root) = some (.file bytes modified)) ∧
      (steps root).getLast? = some "." := by
  obtain ⟨below, rfl⟩ := hstart
  obtain ⟨n, hn⟩ := hreal.exists_node
  have hdir : ∀ entries, w.top.find? (Path.spelled root) ≠ some (.dir entries) := fun entries hdir =>
    hroot ⟨_, reaches_of_dir habsolute hup hdir⟩
  cases below with
  | cons name below =>
    obtain ⟨entries, habove⟩ := Node.exists_dir_of_find?_append hn
    exact absurd habove (hdir entries)
  | nil =>
    rw [List.append_nil] at hn hreal ⊢
    have hlink : ∀ target, n ≠ .link target := by
      rintro target rfl
      exact hreal.no_link _ List.prefix_rfl target hn
    refine ⟨rfl, ?_, ?_⟩
    · cases n with
      | file bytes modified => exact ⟨bytes, modified, hn⟩
      | link target => exact absurd rfl (hlink target)
      | dir entries => exact absurd hn (hdir entries)
    · by_contra hlast
      exact hroot ⟨_, reaches_of_find? habsolute hup hn hlink hlast⟩

/-- A workspace made of a path that led nowhere answers by the text of that path, whatever files there are at the time
of the lookup. -/
theorem comparesText_new {w : World} {root : String} (hroot : ¬∃ place, w.Reaches root place) (after : World) :
    ComparesText w root { Workspace.new w root with world := after } := by
  have hws : ({ Workspace.new w root with world := after } : Workspace).root = root := root_new_of_not_reaches hroot
  generalize { Workspace.new w root with world := after } = ws at hws
  subst hws
  constructor
  case root_eq => rfl
  case missing => exact fun path => existing_of_not_reaches
  case everywhere =>
    intro hempty path found
    simp only [existing_eq_ok_iff_isWithin, hempty, Path.join_empty, Path.isWithin_empty, true_and]
  case inside =>
    intro hne path place hreaches
    simp only [existing_of_reaches_join hreaches, isWithin_root_iff hne hreaches]
  case unchanged =>
    intro hne hsame path found hok
    obtain ⟨place, hreaches, hwithin, rfl⟩ := existing_eq_ok_iff_isWithin.1 hok
    obtain ⟨habsolute, hup, hstart⟩ := (isWithin_root_iff hne hreaches).1 hwithin
    have hreal := hreaches.real
    rw [hsame] at hreal
    obtain ⟨rfl, hfile, hlast⟩ := file_of_not_reaches hroot habsolute hup hreal hstart
    exact ⟨rfl, hfile, hlast⟩

/-! ### A file for a root, and no root -/

/-- A path that asks for a directory leads nowhere if a file is there. -/
private theorem not_reaches_file_sampleWorld : ¬∃ place, sampleWorld.Reaches "/work/inside.txt/" place := by
  have hsteps : steps "/work/inside.txt/" = ["work", "inside.txt", "."] := by decide
  rw [← resolve?_eq_none_iff, resolve?, if_neg (by decide), hsteps]
  simp [follow, origin, sampleWorld, Node.find?, Node.child?, Path.isAbsolute]

private theorem reaches_inside_sampleWorld : sampleWorld.Reaches "/work/inside.txt" ["work", "inside.txt"] := by
  refine ⟨by decide, 0, Nat.zero_le _, .down rfl (by decide) (by decide) rfl (fun _ => nofun) ?_⟩
  exact .down rfl (by decide) (by decide) rfl (fun _ => nofun) (.done _)

private theorem reaches_outside_sampleWorld :
    sampleWorld.Reaches "/outside/secret.txt" ["outside", "secret.txt"] := by
  refine ⟨by decide, 0, Nat.zero_le _, .down rfl (by decide) (by decide) rfl (fun _ => nofun) ?_⟩
  exact .down rfl (by decide) (by decide) rfl (fun _ => nofun) (.done _)

theorem comparesText_new_sampleWorld :
    (¬∃ place, sampleWorld.Reaches "/work/inside.txt/" place) ∧
      (Workspace.new sampleWorld "/work/inside.txt/").existing "/work/inside.txt" = .ok "/work/inside.txt" ∧
      (Workspace.new sampleWorld "/work/inside.txt/").existing "/outside/secret.txt" =
        .error (.invalidParameter "path escapes workspace: /outside/secret.txt") := by
  have h := comparesText_new not_reaches_file_sampleWorld sampleWorld
  exact ⟨not_reaches_file_sampleWorld, h.inside (by decide) "/work/inside.txt" _ reaches_inside_sampleWorld,
    h.inside (by decide) "/outside/secret.txt" _ reaches_outside_sampleWorld⟩

/-- A workspace without a root finds a file that is anywhere, and one whose root is a file that is taken for a
directory finds this file. -/
theorem existing_outside_sampleWorld :
    ((¬∃ place, sampleWorld.Reaches "" place) ∧
      (Workspace.new sampleWorld "").existing "/outside/secret.txt" = .ok "/outside/secret.txt") ∧
    (¬∃ place, sampleWorld.Reaches "/work/inside.txt/" place) ∧
      (Workspace.new sampleWorld "/work/inside.txt/").existing "/work/inside.txt" = .ok "/work/inside.txt" := by
  have hempty : ¬∃ place, sampleWorld.Reaches "" place := fun ⟨_, hne, _⟩ => hne rfl
  have hfound : (Workspace.new sampleWorld "").root = "" := root_new_of_not_reaches hempty
  have hfile := root_new_of_not_reaches not_reaches_file_sampleWorld
  refine ⟨⟨hempty, ?_⟩, not_reaches_file_sampleWorld, ?_⟩
  · have houtside : (Workspace.new sampleWorld "").world.Reaches
        (Path.join (Workspace.new sampleWorld "").root "/outside/secret.txt") ["outside", "secret.txt"] := by
      rw [hfound]
      exact reaches_outside_sampleWorld
    rw [existing_of_reaches_join houtside, hfound]
    rfl
  · have hinside : (Workspace.new sampleWorld "/work/inside.txt/").world.Reaches
        (Path.join (Workspace.new sampleWorld "/work/inside.txt/").root "/work/inside.txt") ["work", "inside.txt"] := by
      rw [hfile]
      exact reaches_inside_sampleWorld
    rw [existing_of_reaches_join hinside, hfile]
    rfl

end Workspace

end EchoEngine
