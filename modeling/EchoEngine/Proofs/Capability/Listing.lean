import EchoEngine.Proofs.Capability.FindFiles
import EchoEngine.Proofs.Text.ByteOrder

/-!
# Listings of found files

A search from a directory lists the path of every file it meets, seen from there, and no other path (`Lists`).  The
walk meets the files of one directory before those of the next, and passes over an entry with all that is below it; in
the listing paths stand in the order of their bytes, each once, and a file is missing exactly if a name on its path is
passed over or the pattern does not match.

Of a long listing the first paths are shown, and how many more there are (`Answers`).  What is said of an empty listing
is what is shown of a single file with that name.
-/

namespace EchoEngine.FindFiles

open Files World

/-! ### Listed paths -/

theorem listed_eq_self {path : String} (h : '\\' ∉ path.toList) : listed path = path := by
  have hself : path.toList.map (fun c => if c = '\\' then '/' else c) = path.toList.map id := by
    refine List.map_congr_left fun c hc => if_neg ?_
    rintro rfl
    exact h hc
  rw [listed, hself, List.map_id, String.ofList_toList]

/-- A name without backslashes, which are listed as slashes. -/
def isPlain (name : String) : Bool :=
  !name.toList.contains '\\'

theorem not_mem_of_isPlain {name : String} (h : isPlain name) : '\\' ∉ name.toList := by
  simpa [isPlain] using h

theorem listed_intercalate {names : List String} (h : ∀ s ∈ names, isPlain s) :
    listed ("/".intercalate names) = "/".intercalate names := by
  refine listed_eq_self ?_
  induction names with
  | nil => exact List.not_mem_nil
  | cons s names ih =>
    rw [List.forall_mem_cons] at h
    cases names with
    | nil =>
      rw [String.intercalate_singleton]
      exact not_mem_of_isPlain h.1
    | cons t names =>
      rw [String.intercalate_cons_cons, String.toList_append, String.toList_append, List.mem_append, List.mem_append,
        not_or, not_or]
      exact ⟨⟨not_mem_of_isPlain h.1, by decide⟩, ih h.2⟩

/-- What a search from a directory lists. -/
structure Lists (w : World) (start : List String) (tokens : List Glob.Token) (found : List String) : Prop where
  /-- A walk counts the names of a path in 64 bits. -/
  mem_iff : ∀ path, path ∈ found ↔
    ∃ names, names.length ≤ Nat.pow 2 64 ∧ Meets w tokens start names ∧ path = "/".intercalate names
  ascending : found.Pairwise fun a b => Text.utf8 a < Text.utf8 b

/-- Files that are listed have paths of their own. -/
theorem nodup_matchesBelow {w : World} (htop : w.top.Proper) (hnamed : w.top.Named) {dir : String}
    {start : List String} {entries : List (String × Node)} (hstart : w.Reaches dir start)
    (hentries : w.top.find? start = some (.dir entries))
    (hplain : (Node.dir entries).allNames isPlain) (tokens : List Glob.Token) : (matchesBelow w dir tokens).Nodup := by
  have hproper : (Node.dir entries).Proper := htop.of_find? hentries
  have hfiles : ∀ v ∈ (Node.dir entries).walk skips (Nat.pow 2 64) [], Names v.names ∧
      ∀ s ∈ v.names, isPlain s := by
    intro v hv
    obtain ⟨names, bytes, hnames, -, hfile, -⟩ := (Node.mem_walk hproper (Nat.zero_le _)).1 hv
    rw [hnames, List.nil_append]
    exact ⟨((hnamed.of_find? hentries).1.of_find? hfile).2, Node.of_find?_of_allNames hplain hfile⟩
  have hpaths : (((Node.dir entries).walk skips (Nat.pow 2 64) []).map fun v => "/".intercalate v.names).Nodup := by
    have hmap : ((Node.dir entries).walk skips (Nat.pow 2 64) []).map (fun v => "/".intercalate v.names) =
        (((Node.dir entries).walk skips (Nat.pow 2 64) []).map (·.names)).map ("/".intercalate ·) := by
      rw [List.map_map]
      rfl
    rw [hmap]
    refine (Node.nodup_walk hproper (Nat.zero_le _)).map_on fun a ha b hb => ?_
    obtain ⟨v, hv, rfl⟩ := List.mem_map.1 ha
    obtain ⟨u, hu, rfl⟩ := List.mem_map.1 hb
    exact Path.intercalate_injective (hfiles v hv).1 (hfiles u hu).1
  have hlisted : ∀ path ∈ ((Node.dir entries).walk skips (Nat.pow 2 64) []).map fun v => "/".intercalate v.names,
      listed path = id path := by
    intro path hpath
    obtain ⟨v, hv, rfl⟩ := List.mem_map.1 hpath
    exact listed_intercalate (hfiles v hv).2
  rw [matchesBelow, filesBelow_of_dir hstart hentries, (List.mergeSort_perm _ _).nodup_iff,
    List.map_congr_left fun path hpath => hlisted path (List.mem_of_mem_filter hpath), List.map_id]
  exact hpaths.filter _

section

variable {ws : Workspace} {base : List String} (hws : ws.root = Path.absolute base) (hbase : Names base)
  (hself : ws.world.Reaches (Path.absolute base) base) (htop : ws.world.top.Proper) (hnamed : ws.world.top.Named)
  {given : Option String} {dir : String} (hdir : ws.directory given = .ok dir) {start : List String}
  {entries : List (String × Node)} (hstart : ws.world.Reaches dir start)
  (hentries : ws.world.top.find? start = some (.dir entries))
  (hplain : (Node.dir entries).allNames isPlain)

include hws hbase hself htop hdir hstart hentries hplain

theorem mem_matchesBelow_iff {tokens : List Glob.Token} {path : String} :
    path ∈ matchesBelow ws.world dir tokens ↔
      ∃ names, names.length ≤ Nat.pow 2 64 ∧ Meets ws.world tokens start names ∧ path = "/".intercalate names := by
  have hlisted : ∀ {names}, Meets ws.world tokens start names →
      listed ("/".intercalate names) = "/".intercalate names := by
    rintro names ⟨⟨bytes, modified, hfile⟩, -, -⟩
    rw [Node.find?_append, hentries] at hfile
    exact listed_intercalate (Node.of_find?_of_allNames hplain hfile)
  constructor
  · intro hpath
    obtain ⟨links, start', names, hlinks, hleads, hlength, hmeets, -, rfl⟩ :=
      exists_of_mem_matchesBelow hws hbase hself htop hdir hpath
    have hsame := hstart.unique ((reaches_directory_iff hws hbase hself hdir).2 ⟨links, hlinks, hleads⟩)
    subst hsame
    exact ⟨names, hlength, hmeets, hlisted hmeets⟩
  · rintro ⟨names, hlength, hmeets, rfl⟩
    obtain ⟨links, hlinks, hleads⟩ := (reaches_directory_iff hws hbase hself hdir).1 hstart
    have hmem := listed_mem_matchesBelow hws hbase hself htop hdir hlinks hleads hentries hlength hmeets
    rwa [hlisted hmeets] at hmem

include hnamed

theorem lists_matchesBelow (tokens : List Glob.Token) :
    Lists ws.world start tokens (matchesBelow ws.world dir tokens) where
  mem_iff _ := mem_matchesBelow_iff hws hbase hself htop hdir hstart hentries hplain
  ascending := by
    have hsorted : (matchesBelow ws.world dir tokens).Pairwise fun a b => decide (a ≤ b) = true := by
      refine List.pairwise_mergeSort ?_ ?_ _
      · intro a b c hab hbc
        simpa using le_trans (by simpa using hab) (by simpa using hbc)
      · intro a b
        simpa using le_total a b
    have hnodup := nodup_matchesBelow htop hnamed hstart hentries hplain tokens
    refine (hsorted.and hnodup).imp ?_
    rintro a b ⟨hle, hne⟩
    exact Text.lt_iff_utf8_lt.1 (lt_of_le_of_ne (by simpa using hle) hne)

end

/-! ### What is shown -/

/-- What is said if nothing is found. -/
def nothingFound : String :=
  "No files found"

/-- An answer shows a listing: all of it, or the first two hundred paths and how many more there are. -/
structure Answers (shown : String) (found : List String) : Prop where
  all : found ≠ [] → found.length ≤ 200 → shown = "\n".intercalate found
  first : 200 < found.length →
    shown = "\n".intercalate (found.take 200) ++ ("\n... (" ++ toString (found.length - 200) ++ " more)")
  /-- What is said of no files is the name that a file may have. -/
  nothing_iff : shown = nothingFound ↔ found = [] ∨ found = [nothingFound]

theorem listing_of_ne_nil {found : List String} (h : found ≠ []) : listing found =
    "\n".intercalate (found.take maxResults) ++ if maxResults < found.length then
      "\n... (" ++ toString (found.length - maxResults) ++ " more)" else "" := by
  have hempty : found.isEmpty = false := by simpa using h
  rw [listing, hempty, if_neg Bool.false_ne_true]

/-- Between two paths is a newline. -/
theorem newline_mem_listing (a b : String) (found : List String) : '\n' ∈ (listing (a :: b :: found)).toList := by
  have htake : (a :: b :: found).take maxResults = a :: b :: found.take 198 := rfl
  rw [listing_of_ne_nil (List.cons_ne_nil a _), htake, String.intercalate_cons_cons]
  simp [String.toList_append]

theorem answers_listing (found : List String) : Answers (listing found) found where
  all hne hle := by
    have hfew : found.length ≤ maxResults := hle
    rw [listing_of_ne_nil hne, if_neg (Nat.not_lt.2 hfew), String.append_empty, List.take_of_length_le hfew]
  first hlt := by
    have hmany : maxResults < found.length := hlt
    have hne : found ≠ [] := by
      rintro rfl
      exact Nat.not_lt_zero _ hlt
    rw [listing_of_ne_nil hne, if_pos hmany]
    rfl
  nothing_iff := by
    constructor
    · intro hnothing
      match found with
      | [] => exact .inl rfl
      | [path] =>
        refine .inr ?_
        rw [← hnothing]
        simp [listing, maxResults]
      | a :: b :: found =>
        have hnewline := newline_mem_listing a b found
        rw [hnothing] at hnewline
        exact absurd hnewline (by decide)
    · rintro (rfl | rfl)
      · rfl
      · simp [listing, maxResults]

/-! ### Searching -/

theorem find_eq {ws : Workspace} {p : Parameters} {pattern dir : String} {tokens : List Glob.Token}
    {given : Option String} (hpattern : p.getText "pattern" = .ok pattern) (hgiven : p.optText "path" = .ok given)
    (hdir : ws.directory given = .ok dir) (hparse : Glob.parse pattern = .ok tokens) :
    find ws p = .ok (matchesBelow ws.world dir tokens) := by
  simp only [find, hpattern, hgiven, hdir, hparse, bind, Except.bind]
  rfl

/-- What is found is shown. -/
theorem run_tool_of_find {ws : Workspace} {p : Parameters} {found : List String} (h : find ws p = .ok found)
    (request : Request) : (tool ws).run request p = some (.text (listing found)) :=
  congrArg (fun found => some (Reply.ofExcept (fun found => .text (listing found)) found)) h

/-- A search from a directory that is there lists the files that it meets, in the order of the bytes of their paths,
and shows the listing.  None of the names below the directory holds a backslash, which would be listed as a slash. -/
theorem run_lists {w : World} (htop : w.top.Proper) (hnamed : w.top.Named) (hcurrent : Names w.current) {root : String}
    {base : List String} (hroot : w.Reaches root base) {p : Parameters} {pattern : String} {tokens : List Glob.Token}
    (hpattern : p.getText "pattern" = .ok pattern) (hparse : Glob.parse pattern = .ok tokens) {given : Option String}
    (hgiven : p.optText "path" = .ok given) {dir : String} (hdir : (Workspace.new w root).directory given = .ok dir)
    {start : List String} (hstart : w.Reaches dir start) {entries : List (String × Node)}
    (hentries : w.top.find? start = some (.dir entries)) (hplain : (Node.dir entries).allNames isPlain) :
    ∃ found shown, find (Workspace.new w root) p = .ok found ∧
      (∀ request, (tool (Workspace.new w root)).run request p = some (.text shown)) ∧
      Lists w start tokens found ∧ Answers shown found := by
  have hbase : Names base := hroot.names hcurrent
  have hfind := find_eq hpattern hgiven hdir hparse
  refine ⟨_, listing _, hfind, run_tool_of_find hfind, ?_, answers_listing _⟩
  exact lists_matchesBelow (Workspace.root_new hroot) hbase (hroot.absolute hbase) htop hnamed hdir hstart hentries
    hplain tokens

section

/-- A directory whose files are listed in another order than a walk meets them in, and one with a file that is called
what is said of no files. -/
def sampleFiles : World where
  top := .dir [
    ("work", .dir [(".git", .dir [("config", .file "".toUTF8 0)]),
      ("a", .dir [("z.rs", .file "".toUTF8 0)]), ("a.rs", .file "".toUTF8 0),
      ("target", .dir [("main.o", .file "".toUTF8 0)])]),
    ("other", .dir [(nothingFound, .file "".toUTF8 0)])]
  current := []

/-- The walk meets the file in the directory first, whose path is the later one. -/
example : (sampleFiles.top.find? ["work"]).map (fun n => (n.walk skips 9 []).map fun v => "/".intercalate v.names) =
    some ["a/z.rs", "a.rs"] ∧ Text.utf8 "a.rs" < Text.utf8 "a/z.rs" := by
  decide +kernel

/-- Parameters that ask for all files. -/
def sampleSearch : Parameters :=
  Parameters.empty.insert "pattern" (.text "**")

theorem proper_sampleFiles : sampleFiles.top.Proper := by
  refine .dir (by decide) (List.forall_mem_cons.2 ⟨.dir (by decide) ?work, List.forall_mem_singleton.2 ?other⟩)
  case work =>
    simp only [List.forall_mem_cons]
    exact ⟨.singleton (.file _ _), .singleton (.file _ _), .file _ _, .singleton (.file _ _), by simp⟩
  case other => exact .singleton (.file _ _)

theorem named_sampleFiles : sampleFiles.top.Named := by
  refine .dir (by decide) (List.forall_mem_cons.2 ⟨.dir (by decide) ?work, List.forall_mem_singleton.2 ?other⟩)
  case work =>
    simp only [List.forall_mem_cons]
    exact ⟨.singleton (by decide) (.file _ _), .singleton (by decide) (.file _ _), .file _ _,
      .singleton (by decide) (.file _ _), by simp⟩
  case other => exact .singleton (by decide) (.file _ _)

private theorem reaches_work_sampleFiles : sampleFiles.Reaches "/work" ["work"] :=
  ⟨by decide, 0, Nat.zero_le _, .down rfl (by decide) (by decide) rfl (fun _ => nofun) (.done _)⟩

theorem run_lists_sampleFiles :
    sampleFiles.top.Proper ∧ sampleFiles.top.Named ∧ Names sampleFiles.current ∧
    sampleFiles.Reaches "/work" ["work"] ∧ sampleSearch.getText "pattern" = .ok "**" ∧
    Glob.parse "**" = .ok [.deepStart] ∧ sampleSearch.optText "path" = .ok none ∧
    (Workspace.new sampleFiles "/work").directory none = .ok "/work" ∧
    ∃ entries, sampleFiles.top.find? ["work"] = some (.dir entries) ∧ (Node.dir entries).allNames isPlain ∧
      ∃ found shown, find (Workspace.new sampleFiles "/work") sampleSearch = .ok found ∧
        (∀ request, (tool (Workspace.new sampleFiles "/work")).run request sampleSearch = some (.text shown)) ∧
        Lists sampleFiles ["work"] [.deepStart] found ∧ Answers shown found ∧ "a/z.rs" ∈ found := by
  have hpattern : sampleSearch.getText "pattern" = .ok "**" := by decide
  have hparse : Glob.parse "**" = .ok [.deepStart] := rfl
  have hgiven : sampleSearch.optText "path" = .ok none := by decide
  have hdir : (Workspace.new sampleFiles "/work").directory none = .ok "/work" := by
    rw [Workspace.directory, Workspace.root_new reaches_work_sampleFiles]
    decide
  refine ⟨proper_sampleFiles, named_sampleFiles, names_nil, reaches_work_sampleFiles, hpattern, hparse, hgiven, hdir,
    _, rfl, by decide, ?_⟩
  obtain ⟨found, shown, hfind, hrun, hlists, hanswers⟩ := run_lists proper_sampleFiles named_sampleFiles names_nil
    reaches_work_sampleFiles hpattern hparse hgiven hdir reaches_work_sampleFiles rfl (by decide)
  refine ⟨found, shown, hfind, hrun, hlists, hanswers, (hlists.mem_iff "a/z.rs").2 ⟨["a", "z.rs"], ?_, ?_, by decide⟩⟩
  · exact Nat.le_of_lt (Nat.lt_of_lt_of_le (by decide : 2 < 2 ^ 2) (Nat.pow_le_pow_right (by decide) (by decide)))
  · exact ⟨⟨_, _, rfl⟩, by decide, rfl⟩

private theorem reaches_other_sampleFiles : sampleFiles.Reaches "/other" ["other"] :=
  ⟨by decide, 0, Nat.zero_le _, .down rfl (by decide) (by decide) rfl (fun _ => nofun) (.done _)⟩

/-- One file is found, and what is shown is what is said of no files. -/
theorem run_namesake_sampleFiles :
    find (Workspace.new sampleFiles "/other") sampleSearch = .ok ["No files found"] ∧
      ∀ request, (tool (Workspace.new sampleFiles "/other")).run request sampleSearch =
        some (.text "No files found") := by
  have hpattern : sampleSearch.getText "pattern" = .ok "**" := by decide
  have hgiven : sampleSearch.optText "path" = .ok none := by decide
  have hdir : (Workspace.new sampleFiles "/other").directory none = .ok "/other" := by
    rw [Workspace.directory, Workspace.root_new reaches_other_sampleFiles]
    decide
  have hfind : find (Workspace.new sampleFiles "/other") sampleSearch = .ok ["No files found"] := by
    rw [find_eq hpattern hgiven hdir (rfl : Glob.parse "**" = .ok [.deepStart])]
    exact congrArg Except.ok (matchesBelow_eq_singleton reaches_other_sampleFiles rfl rfl rfl (by decide))
  have hshown : listing ["No files found"] = "No files found" := (answers_listing _).nothing_iff.2 (.inr rfl)
  refine ⟨hfind, fun request => ?_⟩
  rw [run_tool_of_find hfind, hshown]

end

end EchoEngine.FindFiles
