import EchoEngine.Proofs.Files.Resolution
import Mathlib.Data.List.Nodup

/-!
# Walking a tree

A walk meets the regular files that are found by names of which none is skipped (`mem_walk`), and each of them
once (`nodup_walk`).  Names find what they list only if no directory lists a name twice (`Node.Proper`), and the
induction on the tree is on that.

Files below a path are those that a walk meets from the place that the path leads to
(`exists_of_mem_filesBelow`): all of them if a directory is there (`filesBelow_of_dir`).  The path may lead
there through links, of which the last one is followed as the ones before it are.
-/

namespace EchoEngine.Files

namespace Node

/-- No directory lists a name twice. -/
inductive Proper : Node → Prop
  | file (bytes : ByteArray) (modified : Int) : Proper (.file bytes modified)
  | link (target : String) : Proper (.link target)
  | dir {entries : List (String × Node)} (hnodup : (entries.map Prod.fst).Nodup)
      (h : ∀ e ∈ entries, e.2.Proper) : Proper (.dir entries)

theorem Proper.singleton {name : String} {n : Node} (h : n.Proper) : Proper (.dir [(name, n)]) :=
  .dir (List.nodup_singleton name) (List.forall_mem_singleton.2 h)

/-- What a directory lists is what it finds. -/
theorem lookup_eq_some_iff_mem {entries : List (String × Node)} (h : (entries.map Prod.fst).Nodup)
    {name : String} {n : Node} : entries.lookup name = some n ↔ (name, n) ∈ entries := by
  rw [List.lookup_eq_some_iff]
  constructor
  · rintro ⟨before, after, rfl, -⟩
    simp
  · intro hmem
    obtain ⟨before, after, rfl⟩ := List.append_of_mem hmem
    refine ⟨before, after, rfl, fun e he => ?_⟩
    rw [List.map_append, List.nodup_append] at h
    have hne : e.1 ≠ name := h.2.2 e.1 (List.mem_map_of_mem he) name (List.mem_map_of_mem List.mem_cons_self)
    simpa using hne.symm

/-- Whatever is found below is proper too. -/
theorem Proper.of_find? {n m : Node} {names : List String} (hn : n.Proper) (h : n.find? names = some m) :
    m.Proper := by
  induction names generalizing n with
  | nil => rwa [← Option.some.inj h]
  | cons name names ih =>
    rw [find?, Option.bind_eq_some_iff] at h
    obtain ⟨child, hchild, h⟩ := h
    cases hn with
    | file | link => cases hchild
    | dir hnodup hentries => exact ih (hentries _ ((lookup_eq_some_iff_mem hnodup).1 hchild)) h

/-- Entries, however deep, have names that entries can have. -/
inductive Named : Node → Prop
  | file (bytes : ByteArray) (modified : Int) : Named (.file bytes modified)
  | link (target : String) : Named (.link target)
  | dir {entries : List (String × Node)} (hnames : ∀ e ∈ entries, IsName e.1)
      (h : ∀ e ∈ entries, e.2.Named) : Named (.dir entries)

theorem Named.singleton {name : String} {n : Node} (hname : IsName name) (h : n.Named) :
    Named (.dir [(name, n)]) :=
  .dir (List.forall_mem_singleton.2 hname) (List.forall_mem_singleton.2 h)

theorem Named.of_find? {n m : Node} {names : List String} (hn : n.Named) (h : n.find? names = some m) :
    m.Named ∧ Names names := by
  induction names generalizing n with
  | nil =>
    obtain rfl := Option.some.inj h
    exact ⟨hn, names_nil⟩
  | cons name names ih =>
    rw [find?, Option.bind_eq_some_iff] at h
    obtain ⟨child, hchild, h⟩ := h
    cases hn with
    | file | link => cases hchild
    | @dir entries hnames hentries =>
      obtain ⟨before, after, rfl, -⟩ := List.lookup_eq_some_iff.1 hchild
      have hmem : (name, child) ∈ before ++ (name, child) :: after := by simp
      obtain ⟨hm, hbelow⟩ := ih (hentries _ hmem) h
      exact ⟨hm, List.forall_mem_cons.2 ⟨hnames _ hmem, hbelow⟩⟩

mutual

/-- Whether all entries, however deep, have names of some kind. -/
def allNames (p : String → Bool) : Node → Bool
  | file .. | link _ => true
  | dir entries => allNamesIn p entries
termination_by structural n => n

def allNamesIn (p : String → Bool) : List (String × Node) → Bool
  | [] => true
  | (name, n) :: rest => p name && n.allNames p && allNamesIn p rest
termination_by structural es => es

end

theorem of_lookup_of_allNamesIn {p : String → Bool} {entries : List (String × Node)} (h : allNamesIn p entries)
    {name : String} {n : Node} (hlookup : entries.lookup name = some n) : p name ∧ n.allNames p := by
  induction entries with
  | nil => cases hlookup
  | cons e entries ih =>
    rw [allNamesIn, Bool.and_eq_true, Bool.and_eq_true] at h
    rw [List.lookup_cons] at hlookup
    split at hlookup
    · rename_i hname
      rw [beq_iff_eq] at hname
      cases hlookup
      exact hname ▸ h.1
    · exact ih h.2 hlookup

theorem of_find?_of_allNames {p : String → Bool} {n m : Node} {names : List String} (hn : n.allNames p)
    (h : n.find? names = some m) : ∀ s ∈ names, p s := by
  induction names generalizing n with
  | nil => exact List.forall_mem_nil _
  | cons name names ih =>
    rw [find?, Option.bind_eq_some_iff] at h
    obtain ⟨child, hchild, h⟩ := h
    cases n with
    | file | link => cases hchild
    | dir entries =>
      obtain ⟨hname, hbelow⟩ := of_lookup_of_allNamesIn hn hchild
      exact List.forall_mem_cons.2 ⟨hname, ih hbelow h⟩

/-- None of the names below a place is skipped. -/
def Clear (skip : List String → Bool) (names : List String) : List String → Prop
  | [] => True
  | name :: below => skip (names ++ [name]) = false ∧ Clear skip (names ++ [name]) below

variable {skip : List String → Bool} {limit : Nat} {v : Visit}

/-- Names are clear of what is skipped if none of the ways to them is skipped. -/
theorem clear_iff {names below : List String} :
    Clear skip names below ↔ ∀ way, way <+: below → way ≠ [] → skip (names ++ way) = false := by
  induction below generalizing names with
  | nil =>
    refine iff_of_true trivial fun way hway hne => ?_
    exact absurd (List.prefix_nil.1 hway) hne
  | cons name below ih =>
    rw [Clear, ih]
    constructor
    · rintro ⟨hname, hbelow⟩ way hway hne
      cases way with
      | nil => exact absurd rfl hne
      | cons first way =>
        obtain ⟨rfl, hrest⟩ := List.cons_prefix_cons.1 hway
        rcases eq_or_ne way [] with rfl | hrestne
        · exact hname
        · simpa using hbelow way hrest hrestne
    · intro h
      refine ⟨h [name] (by simp) (by simp), fun way hway _ => ?_⟩
      simpa using h (name :: way) (List.cons_prefix_cons.2 ⟨rfl, hway⟩) (by simp)

theorem mem_walkEntries {names : List String} {entries : List (String × Node)} :
    v ∈ walkEntries skip limit names entries ↔
      ∃ e ∈ entries, skip (names ++ [e.1]) = false ∧ v ∈ e.2.walk skip limit (names ++ [e.1]) := by
  induction entries with
  | nil => simp [walkEntries]
  | cons e entries ih =>
    obtain ⟨name, n⟩ := e
    rw [walkEntries, List.mem_append, ih, List.exists_mem_cons_iff]
    refine or_congr_left ?_
    cases skip (names ++ [name]) <;> simp

theorem mem_walk {n : Node} (hn : n.Proper) {names : List String} (hnames : names.length ≤ limit) :
    v ∈ n.walk skip limit names ↔ ∃ below bytes, v.names = names ++ below ∧ v.names.length ≤ limit ∧
      n.find? below = some (.file bytes v.modified) ∧ Clear skip names below := by
  induction hn generalizing names with
  | file bytes modified =>
    rw [walk, List.mem_singleton]
    constructor
    · rintro rfl
      exact ⟨[], bytes, (List.append_nil _).symm, hnames, rfl, trivial⟩
    · rintro ⟨_ | ⟨name, below⟩, bytes', hv, -, hfind, -⟩
      · cases v
        cases hfind
        rw [List.append_nil] at hv
        exact congrArg (Visit.mk · _) hv
      · cases hfind
  | link target =>
    refine iff_of_false (by simp [walk]) ?_
    rintro ⟨_ | ⟨name, below⟩, bytes, -, -, hfind, -⟩ <;> cases hfind
  | @dir entries hnodup _ ih =>
    have hfinds : ∀ {name n below}, (name, n) ∈ entries →
        (dir entries).find? (name :: below) = n.find? below := by
      intro name n below hmem
      rw [find?, child?, (lookup_eq_some_iff_mem hnodup).2 hmem, Option.bind_some]
    have hdeeper : names.length < limit → ∀ name, (names ++ [name]).length ≤ limit := by
      intro hlimit name
      simpa [Nat.succ_le_iff] using hlimit
    rw [walk]
    constructor
    · intro hv
      split at hv
      · rename_i hlimit
        obtain ⟨e, he, hskip, hv⟩ := mem_walkEntries.1 hv
        obtain ⟨below, bytes, hnames', hlength, hfind, hclear⟩ := (ih e he (hdeeper hlimit e.1)).1 hv
        exact ⟨e.1 :: below, bytes, by simp [hnames'], hlength, (hfinds he).trans hfind, hskip, hclear⟩
      · cases hv
    · rintro ⟨_ | ⟨name, below⟩, bytes, hnames', hlength, hfind, hclear⟩
      · cases hfind
      · -- a file is found at a name of its own, so the directory is not too deep to be entered
        have hlimit : names.length < limit := by
          rw [hnames', List.length_append, List.length_cons] at hlength
          omega
        have hentry := hfind
        rw [find?, Option.bind_eq_some_iff] at hentry
        obtain ⟨n, hn, hbelow⟩ := hentry
        have he := (lookup_eq_some_iff_mem hnodup).1 hn
        rw [if_pos hlimit]
        refine mem_walkEntries.2 ⟨(name, n), he, hclear.1, (ih _ he (hdeeper hlimit name)).2 ?_⟩
        exact ⟨below, bytes, by simp [hnames'], hlength, hbelow, hclear.2⟩

private theorem walkEntries_eq_flatMap (names : List String) (entries : List (String × Node)) :
    walkEntries skip limit names entries = entries.flatMap fun e =>
      if skip (names ++ [e.1]) then [] else e.2.walk skip limit (names ++ [e.1]) := by
  induction entries with
  | nil => rfl
  | cons e entries ih => rw [walkEntries, ih, List.flatMap_cons]

/-- A walk meets no file twice. -/
theorem nodup_walk {n : Node} (hn : n.Proper) {names : List String} (hnames : names.length ≤ limit) :
    ((n.walk skip limit names).map (·.names)).Nodup := by
  induction hn generalizing names with
  | file | link => simp [walk]
  | @dir entries hnodup hentries ih =>
    rw [walk]
    split
    · rename_i hlimit
      have hdeeper : ∀ name, (names ++ [name]).length ≤ limit := by simpa [Nat.succ_le_iff] using hlimit
      have hstarts : ∀ e ∈ entries, ∀ visited ∈ List.map (·.names)
          (if skip (names ++ [e.1]) then [] else e.2.walk skip limit (names ++ [e.1])),
          names ++ [e.1] <+: visited := by
        intro e he visited hvisited
        obtain ⟨v, hv, rfl⟩ := List.mem_map.1 hvisited
        split at hv
        · cases hv
        · obtain ⟨below, -, hbelow, -⟩ := (mem_walk (hentries e he) (hdeeper e.1)).1 hv
          exact ⟨below, hbelow.symm⟩
      rw [walkEntries_eq_flatMap, List.map_flatMap, List.nodup_flatMap]
      constructor
      · intro e he
        split
        · exact List.nodup_nil
        · exact ih e he (hdeeper e.1)
      · -- what is met below one name starts with it, and no other entry has the name
        rw [List.Nodup, List.pairwise_map] at hnodup
        refine hnodup.imp_of_mem fun {a b} ha hb hne visited hvisited hvisited' => hne ?_
        have hsame := List.prefix_of_prefix_length_le (hstarts a ha visited hvisited)
          (hstarts b hb visited hvisited') (by simp)
        simpa using hsame.eq_of_length (by simp)
    · exact List.nodup_nil

end Node

namespace World

variable {w : World} {path : String} {place : List String} {n : Node}

theorem node?_eq_some_iff :
    w.node? path = some n ↔ ∃ place, w.Reaches path place ∧ w.top.find? place = some n := by
  rw [node?, Option.bind_eq_some_iff]
  exact exists_congr fun place => and_congr_left fun _ => resolve?_eq_some_iff

theorem Reaches.node?_eq (h : w.Reaches path place) : w.node? path = w.top.find? place := by
  rw [node?, resolve?_eq_some_iff.2 h, Option.bind_some]

/-- What stands at the end of a path is what it leads to, unless it is a link. -/
theorem exists_reaches_of_entry? (h : w.entry? path = some n) (hn : ∀ target, n ≠ .link target) :
    ∃ place, w.Reaches path place ∧ w.top.find? place = some n := by
  unfold entry? at h
  split at h
  · exact node?_eq_some_iff.1 h
  · rename_i last hlast
    split at h
    · exact node?_eq_some_iff.1 h
    · rename_i hdots
      obtain ⟨hhere, hup⟩ := not_or.1 hdots
      obtain ⟨above, habove, h⟩ := Option.bind_eq_some_iff.1 h
      obtain ⟨m, hm, hentry⟩ := Option.bind_eq_some_iff.1 h
      cases m with
      | file bytes modified => cases hentry
      | link target => cases hentry
      | dir entries =>
        obtain ⟨k, hk, hleads⟩ := follow_eq_some_iff.1 habove
        have hall := hleads.append (.down hm hhere hup hentry hn (.done _))
        rw [List.dropLast_append_getLast? last hlast] at hall
        refine ⟨above ++ [last], ⟨?_, k, hk, hall⟩, ?_⟩
        · rintro rfl
          cases hlast
        · rw [Node.find?_append, hm]
          simpa [Node.find?, Node.child?] using hentry

/-- At the end of a path that leads anywhere stands what it leads to, or a link. -/
theorem Reaches.entry?_eq (h : w.Reaches path place) (hplace : w.top.find? place = some n) :
    w.entry? path = some n ∨ ∃ target, w.entry? path = some (.link target) := by
  have hnode : w.node? path = some n := h.node?_eq.trans hplace
  unfold entry?
  split
  · exact .inl hnode
  · rename_i last hlast
    split
    · exact .inl hnode
    · rename_i hdots
      obtain ⟨hhere, hup⟩ := not_or.1 hdots
      -- the last step is taken from where the others lead to
      obtain ⟨-, k, hk, hleads⟩ := h
      rw [← List.dropLast_append_getLast? last hlast] at hleads
      obtain ⟨above, a, b, rfl, habove, hlastleads⟩ := hleads.split
      have hfollow := follow_eq_some_iff.2 ⟨a, Nat.le_trans (Nat.le_add_right a b) hk, habove⟩
      cases hlastleads with
      | here => exact absurd rfl hhere
      | up => exact absurd rfl hup
      | link hdir _ _ hentry =>
        exact .inr ⟨_, by simpa [hfollow, hdir, Node.child?] using hentry⟩
      | down hdir _ _ hentry _ hdone =>
        cases hdone
        refine .inl ?_
        rw [Node.find?_append, hdir] at hplace
        simpa [hfollow, hdir, Node.child?, Node.find?] using hplace

variable {skip : List String → Bool} {limit : Nat}

theorem exists_of_mem_filesBelow {v : Visit} (hv : v ∈ w.filesBelow path skip limit) :
    ∃ place n, w.Reaches path place ∧ w.top.find? place = some n ∧ v ∈ n.walk skip limit [] := by
  unfold filesBelow at hv
  split at hv
  · split at hv
    · rename_i entries hnode
      obtain ⟨place, hreaches, hplace⟩ := node?_eq_some_iff.1 hnode
      exact ⟨place, _, hreaches, hplace, hv⟩
    · cases hv
  · rename_i n hlink hentry
    obtain ⟨place, hreaches, hplace⟩ := exists_reaches_of_entry? hentry fun target heq => hlink target heq
    exact ⟨place, n, hreaches, hplace, hv⟩
  · cases hv

theorem filesBelow_of_dir {entries : List (String × Node)} (h : w.Reaches path place)
    (hplace : w.top.find? place = some (.dir entries)) :
    w.filesBelow path skip limit = (Node.dir entries).walk skip limit [] := by
  have hnode : w.node? path = some (.dir entries) := h.node?_eq.trans hplace
  obtain hentry | ⟨target, hentry⟩ := h.entry?_eq hplace
  · rw [filesBelow, hentry]
  · rw [filesBelow, hentry]
    simp only [hnode]

end World

end EchoEngine.Files
