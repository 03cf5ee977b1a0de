import EchoEngine.Capability.FindFiles
import EchoEngine.Proofs.Capability.Workspace
import EchoEngine.Proofs.Files.Walk

/-!
# Where files are found

A search starts where the path of its directory leads to, and lists the regular files below (`Located`).  The
path is checked by its text, which neither starts over at the root nor goes up (`directory_eq_ok_iff`); so it
stays inside of the workspace as long as it leads through no link (`Leads.prefix_of_not_up`).  A link on it may
lead anywhere, and then what is listed lies there.
-/

namespace EchoEngine

open Files World

namespace Workspace

theorem all_goesDown_componentsOf {pieces : List String} :
    (Path.componentsOf pieces).all goesDown = true ↔ ".." ∉ pieces := by
  induction pieces with
  | nil => simp [Path.componentsOf]
  | cons piece pieces ih =>
    rw [Path.componentsOf, List.mem_cons, not_or]
    split
    · rename_i hhere
      rw [ih, hhere]
      exact (and_iff_right (by decide)).symm
    · rw [List.all_cons, Bool.and_eq_true, ih]
      refine and_congr_left fun _ => ?_
      split
      · rename_i hup
        exact iff_of_false Bool.false_ne_true fun hne => hne hup.symm
      · rename_i hup
        exact iff_of_true rfl (Ne.symm hup)

/-- Only a path that is relative and never goes up is searched. -/
theorem directory_eq_ok_iff {ws : Workspace} {path dir : String} :
    ws.directory (some path) = .ok dir ↔
      Path.isAbsolute path = false ∧ ".." ∉ Path.pieces path ∧ dir = Path.join ws.root path := by
  have hdown : (Path.components path).all goesDown = true ↔
      Path.isAbsolute path = false ∧ ".." ∉ Path.pieces path := by
    unfold Path.components
    split
    · rename_i habsolute
      rw [habsolute]
      exact iff_of_false (by simp [goesDown]) fun h => Bool.noConfusion h.1
    · rename_i habsolute
      rw [Bool.not_eq_true] at habsolute
      rw [and_iff_right habsolute, ← all_goesDown_componentsOf]
      split
      · rfl
      · rfl
  rw [directory, ← and_assoc, ← hdown]
  split
  · rename_i h
    rw [and_iff_right h, Except.ok.injEq, eq_comm]
  · rename_i h
    exact iff_of_false nofun fun hok => h hok.1

end Workspace

namespace Files.World

/-- Without links and without going up, what pieces lead to is below. -/
theorem Leads.prefix_of_not_up {top : Node} {place todo stop : List String}
    (h : Leads top place todo 0 stop) (hup : ".." ∉ todo) : place <+: stop := by
  generalize hn : 0 = n at h
  -- a link, the only step that may lead elsewhere, would be counted
  induction h with
  | done place => exact List.prefix_rfl
  | here _ _ ih => exact ih (fun hmem => hup (List.mem_cons_of_mem _ hmem)) hn
  | up => exact absurd List.mem_cons_self hup
  | down _ _ _ _ _ _ ih =>
    exact (List.prefix_append _ _).trans (ih (fun hmem => hup (List.mem_cons_of_mem _ hmem)) hn)
  | link => cases hn

end Files.World

namespace FindFiles

/-- The steps from the root of a workspace to where a search starts. -/
def stepsTo : Option String → List String
  | none => []
  | some path => if path = "" then ["."] else steps path

/-- The regular file at some names below a place is one that a search from there lists. -/
structure Meets (w : World) (tokens : List Glob.Token) (start names : List String) : Prop where
  file : ∃ bytes modified, w.top.find? (start ++ names) = some (.file bytes modified)
  seen : ∀ name ∈ names, isSkipped name = false
  accepted : Glob.accepts tokens ("/".intercalate names) = true

/-- What a search for a pattern, from where a path leads to, lists in a workspace. -/
structure Located (w : World) (base : List String) (given : Option String) (tokens : List Glob.Token)
    (found : List String) : Prop where
  sound : ∀ x ∈ found, ∃ links start names, Leads w.top base (stepsTo given) links start ∧
    Meets w tokens start names ∧ w.top.Real (start ++ names) ∧ x = listed ("/".intercalate names)
  complete : ∀ links start entries names, links ≤ maxLinks → Leads w.top base (stepsTo given) links start →
    w.top.find? start = some (.dir entries) → names.length ≤ Nat.pow 2 64 → Meets w tokens start names →
    listed ("/".intercalate names) ∈ found
  /-- What is listed is inside if no link is on the path. -/
  inside : ∀ start, Leads w.top base (stepsTo given) 0 start → ∀ names, base <+: start ++ names

theorem clear_skips_iff {names below : List String} :
    Node.Clear skips names below ↔ ∀ name ∈ below, isSkipped name = false := by
  induction below generalizing names with
  | nil => simp [Node.Clear]
  | cons name below ih =>
    rw [Node.Clear, ih, List.forall_mem_cons]
    simp [skips]

theorem mem_matchesBelow {w : World} {dir : String} {tokens : List Glob.Token} {x : String} :
    x ∈ matchesBelow w dir tokens ↔ ∃ v ∈ w.filesBelow dir skips (Nat.pow 2 64),
      Glob.accepts tokens ("/".intercalate v.names) = true ∧ x = listed ("/".intercalate v.names) := by
  simp only [matchesBelow, List.mem_mergeSort, List.mem_map, List.mem_filter]
  constructor
  · rintro ⟨path, ⟨⟨v, hv, rfl⟩, haccepts⟩, rfl⟩
    exact ⟨v, hv, haccepts, rfl⟩
  · rintro ⟨v, hv, haccepts, rfl⟩
    exact ⟨_, ⟨⟨v, hv, rfl⟩, haccepts⟩, rfl⟩

/-- A search that meets one file lists it. -/
theorem matchesBelow_eq_singleton {w : World} {dir : String} {place : List String} {entries : List (String × Node)}
    (hdir : w.Reaches dir place) (hentries : w.top.find? place = some (.dir entries)) {tokens : List Glob.Token}
    {name : String} {modified : Int}
    (hwalk : Node.walkEntries skips (Nat.pow 2 64) [] entries = [⟨[name], modified⟩])
    (haccepts : Glob.accepts tokens name = true) (hlisted : listed name = name) :
    matchesBelow w dir tokens = [name] := by
  have hlimit : ([] : List String).length < Nat.pow 2 64 := Nat.two_pow_pos 64
  have hpath : "/".intercalate [name] = name := String.intercalate_singleton
  rw [matchesBelow, filesBelow_of_dir hdir hentries, Node.walk, if_pos hlimit, hwalk]
  simp only [List.map_cons, List.map_nil, hpath, List.filter_cons_of_pos haccepts, List.filter_nil,
    List.mergeSort_singleton, hlisted]

/-- The directory that is searched leads to where its steps lead to from the root. -/
theorem reaches_directory_iff {ws : Workspace} {base : List String} (hws : ws.root = Path.absolute base)
    (hbase : Names base) (hself : ws.world.Reaches (Path.absolute base) base)
    {given : Option String} {dir : String} (hdir : ws.directory given = .ok dir) {start : List String} :
    ws.world.Reaches dir start ↔ ∃ links ≤ maxLinks, Leads ws.world.top base (stepsTo given) links start := by
  cases given with
  | none =>
    cases hdir
    rw [hws]
    constructor
    · intro h
      rw [h.unique hself]
      exact ⟨0, Nat.zero_le _, .done base⟩
    · rintro ⟨links, -, h⟩
      cases h
      exact hself
  | some path =>
    obtain ⟨hrelative, -, rfl⟩ := Workspace.directory_eq_ok_iff.1 hdir
    rw [hws, reaches_join_iff hbase hself.real hrelative]
    rfl

theorem not_up_mem_stepsTo {ws : Workspace} {given : Option String} {dir : String}
    (hdir : ws.directory given = .ok dir) : ".." ∉ stepsTo given := by
  cases given with
  | none => exact List.not_mem_nil
  | some path =>
    obtain ⟨-, hup, -⟩ := Workspace.directory_eq_ok_iff.1 hdir
    rw [stepsTo]
    split
    · decide
    · rw [steps, List.mem_append, not_or]
      refine ⟨hup, ?_⟩
      split <;> decide

section

variable {ws : Workspace} {base : List String} (hws : ws.root = Path.absolute base) (hbase : Names base)
  (hself : ws.world.Reaches (Path.absolute base) base) (htop : ws.world.top.Proper) {given : Option String}
  {dir : String} (hdir : ws.directory given = .ok dir) {tokens : List Glob.Token}

include hws hbase hself htop hdir

/-- What is listed is a file that a search meets, at a place that is really there. -/
theorem exists_of_mem_matchesBelow {x : String} (hx : x ∈ matchesBelow ws.world dir tokens) :
    ∃ links start names, links ≤ maxLinks ∧ Leads ws.world.top base (stepsTo given) links start ∧
      names.length ≤ Nat.pow 2 64 ∧ Meets ws.world tokens start names ∧ ws.world.top.Real (start ++ names) ∧
      x = listed ("/".intercalate names) := by
  obtain ⟨v, hv, haccepts, rfl⟩ := mem_matchesBelow.1 hx
  obtain ⟨start, n, hstart, hn, hv⟩ := exists_of_mem_filesBelow hv
  obtain ⟨names, bytes, hnames, hlength, hfile, hclear⟩ :=
    (Node.mem_walk (htop.of_find? hn) (Nat.zero_le _)).1 hv
  obtain ⟨links, hlinks, hleads⟩ := (reaches_directory_iff hws hbase hself hdir).1 hstart
  have hplace : ws.world.top.find? (start ++ names) = some (.file bytes v.modified) := by
    rw [Node.find?_append, hn]
    exact hfile
  rw [hnames, List.nil_append] at haccepts hlength ⊢
  exact ⟨links, start, names, hlinks, hleads, hlength,
    ⟨⟨bytes, v.modified, hplace⟩, clear_skips_iff.1 hclear, haccepts⟩, Node.real_of_find? hplace fun _ => nofun, rfl⟩

/-- Every file that a search from a directory meets is listed. -/
theorem listed_mem_matchesBelow {links : Nat} {start names : List String} {entries : List (String × Node)}
    (hlinks : links ≤ maxLinks) (hleads : Leads ws.world.top base (stepsTo given) links start)
    (hentries : ws.world.top.find? start = some (.dir entries)) (hlength : names.length ≤ Nat.pow 2 64)
    (hmeets : Meets ws.world tokens start names) :
    listed ("/".intercalate names) ∈ matchesBelow ws.world dir tokens := by
  obtain ⟨bytes, modified, hfile⟩ := hmeets.file
  rw [Node.find?_append, hentries] at hfile
  refine mem_matchesBelow.2 ⟨⟨names, modified⟩, ?_, hmeets.accepted, rfl⟩
  rw [filesBelow_of_dir ((reaches_directory_iff hws hbase hself hdir).2 ⟨links, hlinks, hleads⟩) hentries]
  refine (Node.mem_walk (htop.of_find? hentries) (Nat.zero_le _)).2 ?_
  exact ⟨names, bytes, (List.nil_append names).symm, hlength, hfile, clear_skips_iff.2 hmeets.seen⟩

theorem located_matchesBelow (tokens : List Glob.Token) :
    Located ws.world base given tokens (matchesBelow ws.world dir tokens) := by
  constructor
  case sound =>
    intro x hx
    obtain ⟨links, start, names, -, hleads, -, hmeets, hreal, hlisted⟩ :=
      exists_of_mem_matchesBelow hws hbase hself htop hdir hx
    exact ⟨links, start, names, hleads, hmeets, hreal, hlisted⟩
  case complete =>
    intro links start entries names hlinks hleads hentries hlength hmeets
    exact listed_mem_matchesBelow hws hbase hself htop hdir hlinks hleads hentries hlength hmeets
  case inside =>
    intro start hleads names
    exact (hleads.prefix_of_not_up (not_up_mem_stepsTo hdir)).trans (List.prefix_append _ _)

end

/-- A search of a workspace made of a directory that is there lists the files below where its path leads to, and
only files inside of that directory if the path leads through no link. -/
theorem find_located {w : World} (htop : w.top.Proper) (hcurrent : Names w.current) {root : String}
    {base : List String} (hroot : w.Reaches root base) {p : Parameters} {found : List String}
    (h : find (Workspace.new w root) p = .ok found) :
    ∃ pattern tokens given, p.getText "pattern" = .ok pattern ∧ Glob.parse pattern = .ok tokens ∧
      p.optText "path" = .ok given ∧ Located w base given tokens found := by
  have hbase : Names base := hroot.names hcurrent
  unfold find at h
  obtain ⟨pattern, hpattern, h⟩ := exists_of_bind_eq_ok h
  obtain ⟨given, hgiven, h⟩ := exists_of_bind_eq_ok h
  obtain ⟨dir, hdir, h⟩ := exists_of_bind_eq_ok h
  split at h
  · rename_i tokens htokens
    cases h
    exact ⟨pattern, tokens, given, hpattern, htokens, hgiven,
      located_matchesBelow (Workspace.root_new hroot) hbase (hroot.absolute hbase) htop hdir tokens⟩
  · cases h

/-! ### A search through a link -/

section

open Workspace

/-- Parameters that ask for all below a link. -/
def sampleParameters : Parameters :=
  (Parameters.empty.insert "pattern" (.text "**")).insert "path" (.text "link")

theorem proper_sampleWorld : sampleWorld.top.Proper := by
  refine .dir (by decide) (List.forall_mem_cons.2 ⟨?work, List.forall_mem_singleton.2 ?outside⟩)
  case work =>
    exact .dir (by decide) (List.forall_mem_cons.2 ⟨.file _ _, List.forall_mem_singleton.2 (.link _)⟩)
  case outside =>
    exact .dir (by decide) (List.forall_mem_singleton.2 (.file _ _))

private theorem leads_link_sampleWorld : Leads sampleWorld.top ["work"] ["link"] 1 ["outside"] := by
  refine .link rfl (by decide) (by decide) rfl (by decide) ?_
  exact .up rfl (.down rfl (by decide) (by decide) rfl (fun _ => nofun) (.done _))

private theorem directory_link_sampleWorld :
    (Workspace.new sampleWorld "/work").directory (some "link") = .ok "/work/link" := by
  rw [directory_eq_ok_iff, root_new reaches_sampleWorld]
  exact ⟨by decide, by decide, by decide⟩

private theorem reaches_link_sampleWorld : sampleWorld.Reaches "/work/link" ["outside"] := by
  have hbase := reaches_sampleWorld.names names_sampleWorld
  refine (reaches_directory_iff (root_new reaches_sampleWorld) hbase (reaches_sampleWorld.absolute hbase)
    directory_link_sampleWorld).2 ?_
  exact ⟨1, by decide, leads_link_sampleWorld⟩

private theorem matchesBelow_link_sampleWorld :
    matchesBelow sampleWorld "/work/link" [.deepStart] = ["secret.txt"] :=
  matchesBelow_eq_singleton reaches_link_sampleWorld rfl rfl rfl (by decide)

private theorem find_sampleWorld :
    find (Workspace.new sampleWorld "/work") sampleParameters = .ok ["secret.txt"] := by
  have hpattern : sampleParameters.getText "pattern" = .ok "**" := by decide
  have hpath : sampleParameters.optText "path" = .ok (some "link") := by decide
  have hparse : Glob.parse "**" = .ok [.deepStart] := rfl
  rw [find, hpattern, hpath, ← matchesBelow_link_sampleWorld]
  simp only [Except.bind, bind, directory_link_sampleWorld, hparse]
  rfl

theorem find_located_sampleWorld : sampleWorld.top.Proper ∧ Names sampleWorld.current ∧
    sampleWorld.Reaches "/work" ["work"] ∧
    find (Workspace.new sampleWorld "/work") sampleParameters = .ok ["secret.txt"] ∧
    ∃ pattern tokens given, sampleParameters.getText "pattern" = .ok pattern ∧
      Glob.parse pattern = .ok tokens ∧ sampleParameters.optText "path" = .ok given ∧
      Located sampleWorld ["work"] given tokens ["secret.txt"] :=
  ⟨proper_sampleWorld, names_sampleWorld, reaches_sampleWorld, find_sampleWorld,
    find_located proper_sampleWorld names_sampleWorld reaches_sampleWorld find_sampleWorld⟩

/-- The only file inside is not the one that is listed: that one is where the link leads to. -/
theorem find_outside_sampleWorld :
    find (Workspace.new sampleWorld "/work") sampleParameters = .ok ["secret.txt"] ∧
      sampleWorld.Reaches "/work/link" ["outside"] ∧
      (∃ bytes modified, sampleWorld.top.find? ["outside", "secret.txt"] = some (.file bytes modified)) ∧
      ∀ names bytes modified, sampleWorld.top.find? ("work" :: names) = some (.file bytes modified) →
        names = ["inside.txt"] := by
  refine ⟨find_sampleWorld, reaches_link_sampleWorld, ⟨_, _, rfl⟩, fun names bytes modified h => ?_⟩
  have hwork : Node.find? names (.dir [("inside.txt", .file "i".toUTF8 0), ("link", .link "../outside")]) =
    some (.file bytes modified) := h
  cases names with
  | nil => cases hwork
  | cons name names =>
    obtain ⟨n, hn, hbelow⟩ := Option.bind_eq_some_iff.1 hwork
    rw [Node.child?, Node.lookup_eq_some_iff_mem (by decide)] at hn
    simp only [List.mem_cons, Prod.mk.injEq, List.not_mem_nil, or_false] at hn
    obtain ⟨rfl, rfl⟩ | ⟨rfl, rfl⟩ := hn
    · cases names with
      | nil => rfl
      | cons => cases hbelow
    · cases names <;> cases hbelow

end

end FindFiles

end EchoEngine
