import EchoEngine.Proofs.Files.Names

/-!
# Resolving paths

What pieces of a path lead to is a relation (`Leads`) that says what each of them does.  A link is replaced by
the pieces of its target, and the links on the way are counted.  Following pieces finds what they lead to,
unless more links are on the way than are followed (`follow_eq_some_iff`): a loop of links leads nowhere, as it
takes no end of them.

The place that a path leads to is really there (`Reaches.real`): something is found at it, and none of the
places above it is a link.  Its names are names, so its absolute path leads to it again, without any link
(`Reaches.absolute`).
-/

namespace EchoEngine.Files

namespace World

/-- Where pieces lead to from a place, after a number of links. -/
inductive Leads (top : Node) : List String → List String → Nat → List String → Prop
  | done (place : List String) : Leads top place [] 0 place
  | here {place rest stop : List String} {entries : List (String × Node)} {n : Nat}
      (hdir : top.find? place = some (.dir entries)) (h : Leads top place rest n stop) :
      Leads top place ("." :: rest) n stop
  | up {place rest stop : List String} {entries : List (String × Node)} {n : Nat}
      (hdir : top.find? place = some (.dir entries)) (h : Leads top place.dropLast rest n stop) :
      Leads top place (".." :: rest) n stop
  | down {place rest stop : List String} {entries : List (String × Node)} {n : Nat} {piece : String}
      {node : Node} (hdir : top.find? place = some (.dir entries)) (hhere : piece ≠ ".") (hup : piece ≠ "..")
      (hentry : entries.lookup piece = some node) (hnode : ∀ target, node ≠ .link target)
      (h : Leads top (place ++ [piece]) rest n stop) : Leads top place (piece :: rest) n stop
  | link {place rest stop : List String} {entries : List (String × Node)} {n : Nat} {piece target : String}
      (hdir : top.find? place = some (.dir entries)) (hhere : piece ≠ ".") (hup : piece ≠ "..")
      (hentry : entries.lookup piece = some (.link target)) (htarget : target ≠ "")
      (h : Leads top (if Path.isAbsolute target then [] else place) (steps target ++ rest) n stop) :
      Leads top place (piece :: rest) (n + 1) stop

theorem Leads.follow_eq {top : Node} {place todo stop : List String} {n : Nat}
    (h : Leads top place todo n stop) : ∀ links, n ≤ links → follow top links place todo = some stop := by
  induction h with
  | done place =>
    intro links _
    rw [follow]
  | here hdir _ ih =>
    intro links hn
    rw [follow, hdir]
    exact ih links hn
  | up hdir _ ih =>
    intro links hn
    rw [follow, hdir]
    exact ih links hn
  | down hdir hhere hup hentry hnode _ ih =>
    intro links hn
    rw [follow, hdir]
    simp only [if_neg hhere, if_neg hup, hentry]
    exact ih links hn
  | link hdir hhere hup hentry htarget _ ih =>
    intro links hn
    cases links with
    | zero => exact absurd hn (Nat.not_succ_le_zero _)
    | succ links =>
      rw [follow, hdir]
      simp only [if_neg hhere, if_neg hup, hentry, String.isEmpty_iff, if_neg htarget]
      exact ih links (Nat.le_of_succ_le_succ hn)

theorem exists_leads_of_follow {top : Node} {links : Nat} {place todo stop : List String}
    (h : follow top links place todo = some stop) : ∃ n ≤ links, Leads top place todo n stop := by
  fun_induction follow top links place todo with
  | case1 links place =>
    cases h
    exact ⟨0, Nat.zero_le links, .done _⟩
  | case2 links place rest entries hdir ih =>
    obtain ⟨n, hn, hleads⟩ := ih h
    exact ⟨n, hn, .here hdir hleads⟩
  | case3 links place rest entries hdir _ ih =>
    obtain ⟨n, hn, hleads⟩ := ih h
    exact ⟨n, hn, .up hdir hleads⟩
  | case7 place piece rest entries hdir hhere hup target hentry links start htarget ih =>
    obtain ⟨n, hn, hleads⟩ := ih h
    exact ⟨n + 1, Nat.succ_le_succ hn, .link hdir hhere hup hentry (by simpa using htarget) hleads⟩
  | case8 links place piece rest entries hdir hhere hup node hnode hentry ih =>
    obtain ⟨n, hn, hleads⟩ := ih h
    exact ⟨n, hn, .down hdir hhere hup hentry hnode hleads⟩
  | _ => cases h

theorem follow_eq_some_iff {top : Node} {links : Nat} {place todo stop : List String} :
    follow top links place todo = some stop ↔ ∃ n ≤ links, Leads top place todo n stop :=
  ⟨exists_leads_of_follow, fun ⟨_, hn, h⟩ => h.follow_eq links hn⟩

theorem Leads.unique {top : Node} {place todo stop stop' : List String} {n n' : Nat}
    (h : Leads top place todo n stop) (h' : Leads top place todo n' stop') : stop = stop' := by
  -- with links enough for both, following finds one place
  have hstop := h.follow_eq (max n n') (Nat.le_max_left n n')
  rw [h'.follow_eq (max n n') (Nat.le_max_right n n')] at hstop
  exact (Option.some.inj hstop).symm

theorem Leads.append {top : Node} {place a b mid stop : List String} {n m : Nat}
    (h : Leads top place a n mid) (h' : Leads top mid b m stop) : Leads top place (a ++ b) (n + m) stop := by
  induction h with
  | done place => rwa [Nat.zero_add]
  | here hdir _ ih => exact .here hdir (ih h')
  | up hdir _ ih => exact .up hdir (ih h')
  | down hdir hhere hup hentry hnode _ ih => exact .down hdir hhere hup hentry hnode (ih h')
  | link hdir hhere hup hentry htarget _ ih =>
    have hrest := ih h'
    rw [List.append_assoc] at hrest
    rw [Nat.add_right_comm]
    exact .link hdir hhere hup hentry htarget hrest

theorem Leads.split {top : Node} {place a b stop : List String} {k : Nat}
    (h : Leads top place (a ++ b) k stop) :
    ∃ mid n m, k = n + m ∧ Leads top place a n mid ∧ Leads top mid b m stop := by
  generalize htodo : a ++ b = todo at h
  induction h generalizing a with
  | done place =>
    obtain ⟨rfl, rfl⟩ := List.append_eq_nil_iff.1 htodo
    exact ⟨place, 0, 0, rfl, .done place, .done place⟩
  | here hdir h ih =>
    obtain ⟨rfl, rfl⟩ | ⟨a, rfl, rfl⟩ := List.append_eq_cons_iff.1 htodo
    · exact ⟨_, 0, _, (Nat.zero_add _).symm, .done _, .here hdir h⟩
    · obtain ⟨mid, n, m, rfl, hmid, hstop⟩ := ih rfl
      exact ⟨mid, n, m, rfl, .here hdir hmid, hstop⟩
  | up hdir h ih =>
    obtain ⟨rfl, rfl⟩ | ⟨a, rfl, rfl⟩ := List.append_eq_cons_iff.1 htodo
    · exact ⟨_, 0, _, (Nat.zero_add _).symm, .done _, .up hdir h⟩
    · obtain ⟨mid, n, m, rfl, hmid, hstop⟩ := ih rfl
      exact ⟨mid, n, m, rfl, .up hdir hmid, hstop⟩
  | down hdir hhere hup hentry hnode h ih =>
    obtain ⟨rfl, rfl⟩ | ⟨a, rfl, rfl⟩ := List.append_eq_cons_iff.1 htodo
    · exact ⟨_, 0, _, (Nat.zero_add _).symm, .done _, .down hdir hhere hup hentry hnode h⟩
    · obtain ⟨mid, n, m, rfl, hmid, hstop⟩ := ih rfl
      exact ⟨mid, n, m, rfl, .down hdir hhere hup hentry hnode hmid, hstop⟩
  | link hdir hhere hup hentry htarget h ih =>
    obtain ⟨rfl, rfl⟩ | ⟨a, rfl, rfl⟩ := List.append_eq_cons_iff.1 htodo
    · exact ⟨_, 0, _, (Nat.zero_add _).symm, .done _, .link hdir hhere hup hentry htarget h⟩
    · obtain ⟨mid, n, m, rfl, hmid, hstop⟩ := ih (List.append_assoc _ _ _)
      exact ⟨mid, n + 1, m, Nat.add_right_comm n m 1, .link hdir hhere hup hentry htarget hmid, hstop⟩

end World

/-! ### Places that are really there -/

namespace Node

theorem find?_append (a b : List String) (n : Node) : n.find? (a ++ b) = (n.find? a).bind (find? b) := by
  induction a generalizing n with
  | nil => rfl
  | cons name a ih =>
    rw [List.cons_append, find?, find?, Option.bind_assoc]
    congr 1
    funext m
    exact ih m

/-- What stands above something is a directory. -/
theorem exists_dir_of_find?_append {top n : Node} {above : List String} {name : String} {below : List String}
    (h : top.find? (above ++ name :: below) = some n) : ∃ entries, top.find? above = some (.dir entries) := by
  rw [find?_append, Option.bind_eq_some_iff] at h
  obtain ⟨m, hm, hbelow⟩ := h
  rw [find?, Option.bind_eq_some_iff] at hbelow
  obtain ⟨child, hchild, -⟩ := hbelow
  cases m with
  | dir entries => exact ⟨entries, hm⟩
  | file bytes modified => cases hchild
  | link target => cases hchild

/-- Something is at a place, and no link is on the way to it or there. -/
structure Real (top : Node) (place : List String) : Prop where
  exists_node : ∃ n, top.find? place = some n
  no_link : ∀ above, above <+: place → ∀ target, top.find? above ≠ some (.link target)

theorem real_of_find? {top n : Node} {place : List String} (h : top.find? place = some n)
    (hn : ∀ target, n ≠ .link target) : top.Real place where
  exists_node := ⟨n, h⟩
  no_link above habove target hlink := by
    obtain ⟨below, rfl⟩ := habove
    cases below with
    | nil =>
      rw [List.append_nil, hlink] at h
      exact hn target (Option.some.inj h).symm
    | cons name below =>
      obtain ⟨entries, hdir⟩ := exists_dir_of_find?_append h
      rw [hlink] at hdir
      cases hdir

theorem real_of_dir {top : Node} {place : List String} {entries : List (String × Node)}
    (h : top.find? place = some (.dir entries)) : top.Real place :=
  real_of_find? h fun _ => nofun

theorem Real.of_isPrefix {top : Node} {above place : List String} (h : top.Real place)
    (habove : above <+: place) : top.Real above where
  exists_node := by
    obtain ⟨n, hn⟩ := h.exists_node
    obtain ⟨below, rfl⟩ := habove
    rw [find?_append, Option.bind_eq_some_iff] at hn
    obtain ⟨m, hm, -⟩ := hn
    exact ⟨m, hm⟩
  no_link higher hhigher := h.no_link higher (hhigher.trans habove)

end Node

namespace World

/-- The place that pieces lead to is really there. -/
theorem Leads.real {top : Node} {place todo stop : List String} {n : Nat} (h : Leads top place todo n stop)
    (hstart : todo = [] → top.Real place) : top.Real stop := by
  induction h with
  | done place => exact hstart rfl
  | here hdir _ ih => exact ih fun _ => Node.real_of_dir hdir
  | up hdir _ ih => exact ih fun _ => (Node.real_of_dir hdir).of_isPrefix (List.dropLast_prefix _)
  | down hdir hhere hup hentry hnode _ ih =>
    refine ih fun _ => Node.real_of_find? ?_ hnode
    rw [Node.find?_append, hdir]
    simp [Node.find?, Node.child?, hentry]
  | link hdir hhere hup hentry htarget _ ih =>
    refine ih fun _ => ?_
    split
    · exact (Node.real_of_dir hdir).of_isPrefix List.nil_prefix
    · exact Node.real_of_dir hdir

/-- What leads anywhere starts below a directory. -/
theorem Leads.exists_top {top : Node} {place todo stop : List String} {n : Nat}
    (h : Leads top place todo n stop) (htodo : todo ≠ []) : ∃ entries, top = .dir entries := by
  have hdir : ∃ entries, top.find? place = some (.dir entries) := by
    cases h with
    | done place => exact absurd rfl htodo
    | here hdir _ | up hdir _ | down hdir _ _ _ _ _ | link hdir _ _ _ _ _ => exact ⟨_, hdir⟩
  obtain ⟨entries, hdir⟩ := hdir
  cases place with
  | nil => exact ⟨entries, Option.some.inj hdir⟩
  | cons name place =>
    rw [← List.nil_append (name :: place)] at hdir
    obtain ⟨entries, htop⟩ := Node.exists_dir_of_find?_append hdir
    exact ⟨entries, Option.some.inj htop⟩

/-- Without dots, pieces are names. -/
theorem isName_of_mem_steps {path piece : String} (h : piece ∈ steps path) (hhere : piece ≠ ".")
    (hup : piece ≠ "..") : IsName piece := by
  rcases List.mem_append.1 h with hpiece | hdot
  · exact Path.isName_of_mem_pieces hpiece hhere hup
  · split at hdot
    · exact absurd (List.mem_singleton.1 hdot) hhere
    · cases hdot

theorem Leads.names {top : Node} {place todo stop : List String} {n : Nat} (h : Leads top place todo n stop)
    (hplace : Names place) (htodo : ∀ piece ∈ todo, piece ≠ "." → piece ≠ ".." → IsName piece) :
    Names stop := by
  induction h with
  | done place => exact hplace
  | here _ _ ih => exact ih hplace fun piece hpiece => htodo piece (List.mem_cons_of_mem _ hpiece)
  | up _ _ ih =>
    exact ih (hplace.of_isPrefix (List.dropLast_prefix _)) fun piece hpiece =>
      htodo piece (List.mem_cons_of_mem _ hpiece)
  | down _ hhere hup _ _ _ ih =>
    refine ih (hplace.append ?_) fun piece hpiece => htodo piece (List.mem_cons_of_mem _ hpiece)
    intro s hs
    rw [List.mem_singleton.1 hs]
    exact htodo _ List.mem_cons_self hhere hup
  | link _ _ _ _ _ _ ih =>
    refine ih ?_ ?_
    · split
      · exact names_nil
      · exact hplace
    · intro piece hpiece hhere hup
      rcases List.mem_append.1 hpiece with hpiece | hpiece
      · exact isName_of_mem_steps hpiece hhere hup
      · exact htodo piece (List.mem_cons_of_mem _ hpiece) hhere hup

/-- Names lead straight to a place that is really there. -/
theorem leads_of_real {top : Node} {place names : List String} (hnames : Names names)
    (h : top.Real (place ++ names)) : Leads top place names 0 (place ++ names) := by
  induction names generalizing place with
  | nil =>
    rw [List.append_nil]
    exact .done place
  | cons name names ih =>
    have hname := hnames name List.mem_cons_self
    have hbelow : top.Real ((place ++ [name]) ++ names) := by rwa [List.append_assoc]
    obtain ⟨n, hn⟩ := h.exists_node
    obtain ⟨entries, hdir⟩ := Node.exists_dir_of_find?_append hn
    obtain ⟨node, hnode⟩ := (hbelow.of_isPrefix (List.prefix_append _ _)).exists_node
    have hentry : entries.lookup name = some node := by
      rw [Node.find?_append, hdir] at hnode
      simpa [Node.find?, Node.child?] using hnode
    have hlink : ∀ target, node ≠ .link target := by
      rintro target rfl
      exact hbelow.no_link _ (List.prefix_append _ _) target hnode
    have hrest := ih (fun s hs => hnames s (List.mem_cons_of_mem _ hs)) hbelow
    rw [List.append_assoc] at hrest
    exact .down hdir hname.ne_here hname.ne_up hentry hlink hrest

/-! ### Paths -/

/-- A path leads to a place, after no more links than are followed. -/
def Reaches (w : World) (path : String) (place : List String) : Prop :=
  path ≠ "" ∧ ∃ n ≤ maxLinks, Leads w.top (w.origin path) (steps path) n place

theorem resolve?_eq_some_iff {w : World} {path : String} {place : List String} :
    w.resolve? path = some place ↔ w.Reaches path place := by
  rw [resolve?, Reaches]
  split
  · rename_i hempty
    exact iff_of_false nofun fun h => h.1 (String.isEmpty_iff.1 hempty)
  · rename_i hempty
    rw [follow_eq_some_iff]
    exact (and_iff_right fun h => hempty (String.isEmpty_iff.2 h)).symm

theorem resolve?_eq_none_iff {w : World} {path : String} :
    w.resolve? path = none ↔ ¬∃ place, w.Reaches path place := by
  rw [Option.eq_none_iff_forall_ne_some, not_exists]
  exact forall_congr' fun place => not_congr resolve?_eq_some_iff

section

variable {w : World} {path : String} {place : List String} (h : w.Reaches path place)

include h

theorem Reaches.unique {place' : List String} (h' : w.Reaches path place') : place = place' := by
  obtain ⟨-, n, -, hleads⟩ := h
  obtain ⟨-, n', -, hleads'⟩ := h'
  exact hleads.unique hleads'

theorem Reaches.real : w.top.Real place := by
  obtain ⟨hpath, n, -, hleads⟩ := h
  exact hleads.real fun hnil => absurd hnil (steps_ne_nil hpath)

theorem Reaches.names (hcurrent : Names w.current) : Names place := by
  obtain ⟨-, n, -, hleads⟩ := h
  refine hleads.names ?_ fun _ => isName_of_mem_steps
  unfold origin
  split
  · exact names_nil
  · exact hcurrent

/-- An absolute path leads to names wherever the program runs. -/
theorem Reaches.names_of_isAbsolute (habsolute : Path.isAbsolute path = true) : Names place := by
  obtain ⟨-, n, -, hleads⟩ := h
  rw [origin, if_pos habsolute] at hleads
  exact hleads.names names_nil fun _ => isName_of_mem_steps

/-- The absolute path of the place that a path leads to leads there too, and through no link. -/
theorem Reaches.absolute (hplace : Names place) : w.Reaches (Path.absolute place) place := by
  have hreal := h.real
  obtain ⟨hpath, n, -, hleads⟩ := h
  refine ⟨Path.absolute_ne_empty place, 0, Nat.zero_le _, ?_⟩
  rw [origin, if_pos (Path.isAbsolute_absolute place), steps_absolute hplace]
  split
  · rename_i hnil
    subst hnil
    obtain ⟨entries, htop⟩ := hleads.exists_top (steps_ne_nil hpath)
    exact .here (congrArg some htop) (.done [])
  · exact leads_of_real hplace hreal

end

/-- A relative path is followed from the place that it is seen from. -/
theorem reaches_join_iff {w : World} {base : List String} (hnames : Names base) (hreal : w.top.Real base)
    {path : String} (hpath : Path.isAbsolute path = false) {place : List String} :
    w.Reaches (Path.join (Path.absolute base) path) place ↔
      ∃ n ≤ maxLinks, Leads w.top base (if path = "" then ["."] else steps path) n place := by
  have habsolute := Path.isAbsolute_join base path
  have hne : Path.join (Path.absolute base) path ≠ "" := by
    intro hempty
    rw [hempty] at habsolute
    cases habsolute
  -- the names of the base take no links from those that are followed
  have hbase : Leads w.top [] base 0 base := @leads_of_real _ [] _ hnames hreal
  rw [Reaches, and_iff_right hne, origin, if_pos habsolute, steps_join hnames hpath]
  constructor
  · rintro ⟨n, hn, hleads⟩
    obtain ⟨mid, k, m, rfl, hmid, hstop⟩ := hleads.split
    rw [hmid.unique hbase] at hstop
    exact ⟨m, Nat.le_trans (Nat.le_add_left m k) hn, hstop⟩
  · rintro ⟨n, hn, hleads⟩
    have hall := hbase.append hleads
    rw [Nat.zero_add] at hall
    exact ⟨n, hn, hall⟩

end World

end EchoEngine.Files
