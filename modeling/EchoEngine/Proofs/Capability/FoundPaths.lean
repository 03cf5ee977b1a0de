import EchoEngine.Proofs.Capability.Listing

/-!
# Reading what is found

A search lists files by their paths from where it starts, and `read` takes paths from the root of the workspace.  With
the path of the search in front a listed path leads to the file that it stands for (`existing_join_listed`); alone it
does if the search starts at the root.  A search of another directory lists paths that lead nowhere, or to other files,
unless that path is put in front.
-/

namespace EchoEngine.FindFiles

open Files World

/-- A slash at the end of a path asks for a directory and goes nowhere. -/
theorem eq_of_leads_here {top : Node} {place stop : List String} {links : Nat} (h : Leads top place ["."] links stop) :
    stop = place ∧ links = 0 := by
  generalize htodo : ["."] = todo at h
  cases h with
  | done => cases htodo
  | here _ hdone =>
    obtain ⟨-, rfl⟩ := List.cons.inj htodo
    cases hdone
    exact ⟨rfl, rfl⟩
  | up => exact absurd (List.cons.inj htodo).1 (by decide)
  | down _ hhere => exact absurd (List.cons.inj htodo).1.symm hhere
  | link _ hhere => exact absurd (List.cons.inj htodo).1.symm hhere

/-- The pieces of the path of a search lead to where the search starts. -/
theorem leads_pieces {top : Node} {base start : List String} {given : Option String} {links : Nat}
    (h : Leads top base (stepsTo given) links start) :
    Leads top base (Path.pieces (given.getD "")) links start := by
  have hsteps : stepsTo given = Path.pieces (given.getD "") ∨ stepsTo given = Path.pieces (given.getD "") ++ ["."] := by
    cases given with
    | none => exact .inl rfl
    | some path =>
      rw [Option.getD_some, stepsTo]
      split
      · rename_i hempty
        rw [hempty]
        exact .inr rfl
      · rw [steps]
        split
        · exact .inr rfl
        · exact .inl (List.append_nil _)
  rcases hsteps with hsteps | hsteps
  · rwa [hsteps] at h
  · rw [hsteps] at h
    obtain ⟨mid, n, m, rfl, hmid, hstop⟩ := h.split
    obtain ⟨rfl, rfl⟩ := eq_of_leads_here hstop
    exact hmid

section

variable {ws : Workspace} {base : List String} (hws : ws.root = Path.absolute base) (hbase : Names base)
  (hself : ws.world.Reaches (Path.absolute base) base) {given : Option String} {dir : String}
  (hdir : ws.directory given = .ok dir)

include hws hbase hself hdir

/-- Behind the path of the search, a path that is listed leads to the file that it stands for. -/
theorem existing_join_listed {links : Nat} {start names : List String} (hlinks : links ≤ maxLinks)
    (hleads : Leads ws.world.top base (stepsTo given) links start) (hreal : ws.world.top.Real (start ++ names))
    (hnames : Names names) (hne : names ≠ []) :
    ws.existing (Path.join (given.getD "") ("/".intercalate names)) =
      if base <+: start ++ names then .ok (Path.absolute (start ++ names))
      else .error (.invalidParameter
        ("path escapes workspace: " ++ Path.join (given.getD "") ("/".intercalate names))) := by
  have hsteps := steps_join_intercalate (given.getD "") hnames hne
  have hgiven : Path.isAbsolute (given.getD "") = false := by
    cases given with
    | none => rfl
    | some path => exact (Workspace.directory_eq_ok_iff.1 hdir).1
  have hrelative := Path.isAbsolute_join_of_relative hgiven (Path.isAbsolute_intercalate hnames)
  refine Workspace.existing_of_reaches hws hbase ?_
  rw [hws, reaches_join_iff hbase hself.real hrelative]
  refine ⟨links, hlinks, ?_⟩
  rw [if_neg, hsteps]
  · exact (leads_pieces hleads).append (leads_of_real hnames hreal)
  · intro hempty
    rw [hempty] at hsteps
    exact hne (List.append_eq_nil_iff.1 hsteps.symm).2

end

/-- How a path that stands for the file at some names below the start of a search is read. -/
structure ReadBack (ws : Workspace) (base : List String) (given : Option String) (start names : List String)
    (path : String) : Prop where
  /-- The path of the search in front leads to the file, if that is inside. -/
  behind : ws.existing (Path.join (given.getD "") path) =
    if base <+: start ++ names then .ok (Path.absolute (start ++ names))
    else .error (.invalidParameter ("path escapes workspace: " ++ Path.join (given.getD "") path))
  /-- Below the root the path leads to the file alone. -/
  alone : start = base → ws.existing path = .ok (Path.absolute (start ++ names))

/-- What a search from a directory lists is read back with the path of the search in front, and without if the search
starts at the root.  Backslashes are listed as slashes, so names without them are read back. -/
theorem find_reads_back {w : World} (htop : w.top.Proper) (hnamed : w.top.Named) (hcurrent : Names w.current)
    {root : String} {base : List String} (hroot : w.Reaches root base) {p : Parameters} {pattern : String}
    {tokens : List Glob.Token} (hpattern : p.getText "pattern" = .ok pattern)
    (hparse : Glob.parse pattern = .ok tokens) {given : Option String} (hgiven : p.optText "path" = .ok given)
    {dir : String} (hdir : (Workspace.new w root).directory given = .ok dir) :
    ∃ found, find (Workspace.new w root) p = .ok found ∧ ∀ path ∈ found, ∃ links start names, links ≤ maxLinks ∧
      Leads w.top base (stepsTo given) links start ∧ Meets w tokens start names ∧
      path = listed ("/".intercalate names) ∧ (given = none → start = base) ∧
      ∀ entries, w.top.find? start = some (.dir entries) → (∀ s ∈ names, isPlain s) →
        ReadBack (Workspace.new w root) base given start names path := by
  have hws := Workspace.root_new hroot
  have hbase : Names base := hroot.names hcurrent
  have hself := hroot.absolute hbase
  refine ⟨_, find_eq hpattern hgiven hdir hparse, fun path hpath => ?_⟩
  obtain ⟨links, start, names, hlinks, hleads, -, hmeets, hreal, hlisted⟩ :=
    exists_of_mem_matchesBelow hws hbase hself htop hdir hpath
  refine ⟨links, start, names, hlinks, hleads, hmeets, hlisted, ?_, fun entries hentries hplain => ?_⟩
  · rintro rfl
    cases hleads
    rfl
  · obtain ⟨bytes, modified, hfile⟩ := hmeets.file
    have hnames : Names names := fun s hs => (hnamed.of_find? hfile).2 s (List.mem_append_right start hs)
    have hne : names ≠ [] := by
      rintro rfl
      rw [List.append_nil] at hfile
      cases hfile.symm.trans hentries
    rw [listed_intercalate hplain] at hlisted
    subst hlisted
    refine ⟨existing_join_listed hws hbase hself hdir hlinks hleads hreal hnames hne, ?_⟩
    rintro rfl
    have hroots : (Workspace.new w root).directory none = .ok (Workspace.new w root).root := rfl
    have halone := existing_join_listed hws hbase hself hroots (Nat.zero_le _) (.done start) hreal hnames hne
    rw [Option.getD_none, Path.join_empty, if_pos (List.prefix_append _ _)] at halone
    exact halone

/-! ### Two files of one name -/

section

/-- A file, and a file of the same name in a directory beside it. -/
def sampleTwins : World where
  top := .dir [
    ("work", .dir [("a.txt", .file "outer".toUTF8 0), ("sub", .dir [("a.txt", .file "inner".toUTF8 0)])])]
  current := []

/-- Parameters that ask for all files of the directory. -/
def sampleSubsearch : Parameters :=
  (Parameters.empty.insert "pattern" (.text "**")).insert "path" (.text "sub")

theorem proper_sampleTwins : sampleTwins.top.Proper := by
  refine .singleton (.dir (by decide) (List.forall_mem_cons.2 ⟨.file _ _, List.forall_mem_singleton.2 ?sub⟩))
  case sub => exact .singleton (.file _ _)

theorem named_sampleTwins : sampleTwins.top.Named := by
  refine .singleton (by decide) (.dir (by decide) (List.forall_mem_cons.2 ⟨.file _ _,
    List.forall_mem_singleton.2 ?sub⟩))
  case sub => exact .singleton (by decide) (.file _ _)

private theorem reaches_work_sampleTwins : sampleTwins.Reaches "/work" ["work"] :=
  ⟨by decide, 0, Nat.zero_le _, .down rfl (by decide) (by decide) rfl (fun _ => nofun) (.done _)⟩

private theorem reaches_sub_sampleTwins : sampleTwins.Reaches "/work/sub" ["work", "sub"] := by
  refine ⟨by decide, 0, Nat.zero_le _, .down rfl (by decide) (by decide) rfl (fun _ => nofun) ?_⟩
  exact .down rfl (by decide) (by decide) rfl (fun _ => nofun) (.done _)

private theorem directory_sub_sampleTwins :
    (Workspace.new sampleTwins "/work").directory (some "sub") = .ok "/work/sub" := by
  rw [Workspace.directory_eq_ok_iff, Workspace.root_new reaches_work_sampleTwins]
  exact ⟨by decide, by decide, by decide⟩

private theorem find_sampleTwins : find (Workspace.new sampleTwins "/work") sampleSubsearch = .ok ["a.txt"] := by
  have hpattern : sampleSubsearch.getText "pattern" = .ok "**" := by decide
  have hgiven : sampleSubsearch.optText "path" = .ok (some "sub") := by decide
  rw [find_eq hpattern hgiven directory_sub_sampleTwins (rfl : Glob.parse "**" = .ok [.deepStart])]
  exact congrArg Except.ok (matchesBelow_eq_singleton reaches_sub_sampleTwins rfl rfl rfl (by decide))

private theorem leads_sub_sampleTwins : Leads sampleTwins.top ["work"] (stepsTo (some "sub")) 0 ["work", "sub"] :=
  .down rfl (by decide) (by decide) rfl (fun _ => nofun) (.done _)

/-- The file that a search of the directory meets. -/
private theorem eq_of_meets_sampleTwins {tokens : List Glob.Token} {names : List String}
    (h : Meets sampleTwins tokens ["work", "sub"] names) : names = ["a.txt"] := by
  obtain ⟨bytes, modified, hfile⟩ := h.file
  have hsub : Node.find? names (.dir [("a.txt", .file "inner".toUTF8 0)]) = some (.file bytes modified) := hfile
  cases names with
  | nil => cases hsub
  | cons name names =>
    obtain ⟨n, hn, hbelow⟩ := Option.bind_eq_some_iff.1 hsub
    rw [Node.child?, Node.lookup_eq_some_iff_mem (by decide), List.mem_singleton, Prod.mk.injEq] at hn
    obtain ⟨rfl, rfl⟩ := hn
    cases names with
    | nil => rfl
    | cons => cases hbelow

theorem find_reads_back_sampleTwins :
    sampleTwins.top.Proper ∧ sampleTwins.top.Named ∧ Names sampleTwins.current ∧
    sampleTwins.Reaches "/work" ["work"] ∧ sampleSubsearch.getText "pattern" = .ok "**" ∧
    Glob.parse "**" = .ok [.deepStart] ∧ sampleSubsearch.optText "path" = .ok (some "sub") ∧
    (Workspace.new sampleTwins "/work").directory (some "sub") = .ok "/work/sub" ∧
    find (Workspace.new sampleTwins "/work") sampleSubsearch = .ok ["a.txt"] ∧
    ReadBack (Workspace.new sampleTwins "/work") ["work"] (some "sub") ["work", "sub"] ["a.txt"] "a.txt" := by
  have hpattern : sampleSubsearch.getText "pattern" = .ok "**" := by decide
  have hparse : Glob.parse "**" = .ok [.deepStart] := rfl
  have hgiven : sampleSubsearch.optText "path" = .ok (some "sub") := by decide
  refine ⟨proper_sampleTwins, named_sampleTwins, names_nil, reaches_work_sampleTwins, hpattern, hparse, hgiven,
    directory_sub_sampleTwins, find_sampleTwins, ?_⟩
  obtain ⟨found, hfind, hall⟩ := find_reads_back proper_sampleTwins named_sampleTwins names_nil
    reaches_work_sampleTwins hpattern hparse hgiven directory_sub_sampleTwins
  obtain rfl : ["a.txt"] = found := Except.ok.inj (find_sampleTwins.symm.trans hfind)
  obtain ⟨links, start, names, -, hleads, hmeets, -, -, hback⟩ := hall "a.txt" (List.mem_singleton_self _)
  obtain rfl := hleads.unique leads_sub_sampleTwins
  obtain rfl := eq_of_meets_sampleTwins hmeets
  exact hback _ rfl (by decide)

/-- The path that is listed for the file in the directory is read as that of the file beside the directory. -/
theorem existing_other_sampleTwins :
    find (Workspace.new sampleTwins "/work") sampleSubsearch = .ok ["a.txt"] ∧
      (Workspace.new sampleTwins "/work").directory (some "sub") = .ok "/work/sub" ∧
      sampleTwins.Reaches "/work/sub" ["work", "sub"] ∧
      (∀ names, Meets sampleTwins [.deepStart] ["work", "sub"] names →
        Path.absolute (["work", "sub"] ++ names) = "/work/sub/a.txt") ∧
      (Workspace.new sampleTwins "/work").existing "a.txt" = .ok "/work/a.txt" := by
  have hws := Workspace.root_new reaches_work_sampleTwins
  refine ⟨find_sampleTwins, directory_sub_sampleTwins, reaches_sub_sampleTwins, fun names hmeets => ?_, ?_⟩
  · rw [eq_of_meets_sampleTwins hmeets]
    decide
  · have hbase : Names ["work"] := reaches_work_sampleTwins.names names_nil
    refine (Workspace.existing_eq_ok_iff hws hbase).2 ⟨["work", "a.txt"], ?_, by decide, by decide⟩
    rw [hws]
    refine ⟨by decide, 0, Nat.zero_le _, .down rfl (by decide) (by decide) rfl (fun _ => nofun) ?_⟩
    exact .down rfl (by decide) (by decide) rfl (fun _ => nofun) (.done _)

end

end EchoEngine.FindFiles
