import EchoEngine.Files.World
import EchoEngine.Proofs.Text.Pieces

/-!
# Names in paths

The names of the entries of a directory hold no slash and are neither empty nor `.` nor `..`.  The text of
an absolute path gives its names back, as pieces (`pieces_absolute`), as steps to follow
(`steps_absolute`) and as components (`components_absolute`).  So containment of absolute paths, which is
decided by components, is that of lists of names (`isWithin_absolute`).
-/

namespace EchoEngine.Files

/-- A name that an entry of a directory can have. -/
structure IsName (s : String) : Prop where
  ne_empty : s ≠ ""
  ne_here : s ≠ "."
  ne_up : s ≠ ".."
  no_slash : '/' ∉ s.toList

instance (s : String) : Decidable (IsName s) :=
  decidable_of_iff (s ≠ "" ∧ s ≠ "." ∧ s ≠ ".." ∧ '/' ∉ s.toList)
    ⟨fun ⟨hempty, hhere, hup, hslash⟩ => ⟨hempty, hhere, hup, hslash⟩,
      fun h => ⟨h.ne_empty, h.ne_here, h.ne_up, h.no_slash⟩⟩

/-- All of a list are names. -/
def Names (names : List String) : Prop :=
  ∀ s ∈ names, IsName s

theorem names_nil : Names [] :=
  List.forall_mem_nil _

theorem Names.append {a b : List String} (ha : Names a) (hb : Names b) : Names (a ++ b) := by
  intro s hs
  rcases List.mem_append.1 hs with hs | hs
  · exact ha s hs
  · exact hb s hs

theorem Names.of_isPrefix {a b : List String} (hb : Names b) (h : a <+: b) : Names a :=
  fun s hs => hb s (h.subset hs)

/-! ### Pieces -/

namespace Path

private theorem isEmpty_eq_false_of_isName {s : String} (h : IsName s) : (!s.isEmpty) = true := by
  simpa using h.ne_empty

/-- Pieces are not empty and hold no slash, so they are names unless they are dots. -/
theorem isName_of_mem_pieces {path piece : String} (h : piece ∈ pieces path) (hhere : piece ≠ ".")
    (hup : piece ≠ "..") : IsName piece := by
  obtain ⟨hmem, hne⟩ := List.mem_filter.1 h
  exact ⟨by simpa using hne, hhere, hup, Text.not_mem_of_mem_splitBy hmem⟩

theorem pieces_append (a b : String) : pieces (a ++ "/" ++ b) = pieces a ++ pieces b := by
  rw [pieces, Text.splitBy_append, List.filter_append]
  rfl

@[simp] theorem pieces_empty : pieces "" = [] := rfl

theorem pieces_intercalate {names : List String} (h : Names names) : pieces ("/".intercalate names) = names := by
  by_cases hnil : names = []
  · rw [hnil]
    rfl
  · rw [pieces, Text.splitBy_intercalate (fun s hs => (h s hs).no_slash) hnil]
    exact List.filter_eq_self.2 fun s hs => isEmpty_eq_false_of_isName (h s hs)

theorem intercalate_injective {a b : List String} (ha : Names a) (hb : Names b)
    (h : "/".intercalate a = "/".intercalate b) : a = b := by
  rw [← pieces_intercalate ha, h, pieces_intercalate hb]

theorem isAbsolute_intercalate {names : List String} (h : Names names) :
    isAbsolute ("/".intercalate names) = false := by
  cases names with
  | nil => rfl
  | cons s names =>
    have hs := h s List.mem_cons_self
    have hfirst : ("/".intercalate (s :: names)).toList.head? = s.toList.head? := by
      cases names with
      | nil => rw [String.intercalate_singleton]
      | cons t names =>
        rw [String.intercalate_cons_cons, String.toList_append, String.toList_append,
          List.append_assoc, List.head?_append_of_ne_nil _ (by simpa using hs.ne_empty)]
    rw [isAbsolute, hfirst, decide_eq_false_iff_not]
    exact fun hslash => hs.no_slash (List.mem_of_head? hslash)

theorem absolute_eq (names : List String) : absolute names = "" ++ "/" ++ "/".intercalate names := by
  rw [String.empty_append]
  rfl

theorem pieces_absolute {names : List String} (h : Names names) : pieces (absolute names) = names := by
  rw [absolute_eq, pieces_append, pieces_intercalate h]
  rfl

theorem isAbsolute_absolute (names : List String) : isAbsolute (absolute names) = true := by
  simp [isAbsolute, absolute, String.toList_append]

theorem absolute_ne_empty (names : List String) : absolute names ≠ "" := by
  intro hempty
  have habsolute := isAbsolute_absolute names
  rw [hempty] at habsolute
  cases habsolute

/-- Seen from an absolute path, every path is absolute. -/
theorem isAbsolute_join_of_absolute {base : String} (h : isAbsolute base = true) (path : String) :
    isAbsolute (join base path) = true := by
  have happend : ∀ rest : String, isAbsolute (base ++ rest) = true := by
    intro rest
    have hfirst : base.toList.head? = some '/' := by simpa [isAbsolute] using h
    simp [isAbsolute, String.toList_append, List.head?_append, hfirst]
  unfold join
  split
  · assumption
  · split
    · exact happend path
    · rw [String.append_assoc]
      exact happend ("/" ++ path)

theorem isAbsolute_join (base : List String) (path : String) :
    isAbsolute (join (absolute base) path) = true :=
  isAbsolute_join_of_absolute (isAbsolute_absolute base) path

theorem isAbsolute_join_of_relative {base path : String} (hbase : isAbsolute base = false)
    (hpath : isAbsolute path = false) : isAbsolute (join base path) = false := by
  have hjoined : ∀ rest : String, base ≠ "" → isAbsolute (base ++ rest) = isAbsolute base := by
    intro rest hne
    rw [isAbsolute, String.toList_append, List.head?_append_of_ne_nil _ (by simpa using hne), isAbsolute]
  rw [join, hpath, if_neg Bool.false_ne_true]
  by_cases hempty : base = ""
  · rw [hempty]
    simpa using hpath
  · split
    · rw [hjoined path hempty, hbase]
    · rw [String.append_assoc, hjoined _ hempty, hbase]

theorem join_empty (path : String) : join "" path = path := by
  unfold join
  split
  · rfl
  · rw [if_pos (.inl rfl), String.empty_append]

/-- A relative path adds its pieces to those of the path that it is seen from. -/
theorem pieces_join {base path : String} (hpath : isAbsolute path = false) :
    pieces (join base path) = pieces base ++ pieces path := by
  rw [join, hpath, if_neg Bool.false_ne_true]
  split
  · rename_i hbase
    rcases hbase with hempty | hslash
    · rw [String.isEmpty_iff.1 hempty, String.empty_append, pieces_empty, List.nil_append]
    · obtain ⟨before, hbefore⟩ := List.getLast?_eq_some_iff.1 hslash
      have hbase : base = String.ofList before ++ "/" := by
        rw [← String.toList_inj, hbefore, String.toList_append, String.toList_ofList]
        rfl
      have hpieces := pieces_append (String.ofList before) ""
      rw [String.append_empty, ← hbase, pieces_empty, List.append_nil] at hpieces
      rw [hpieces, hbase, pieces_append]
  · exact pieces_append base path

private theorem eq_slash_of_splitChars {cs : List Char}
    (h : ∀ piece ∈ Text.splitChars (· == '/') cs, piece = []) : ∀ c ∈ cs, c = '/' := by
  induction cs with
  | nil => simp
  | cons c cs ih =>
    rw [Text.splitChars] at h
    split at h
    · rename_i hc
      rw [List.forall_mem_cons] at h ⊢
      exact ⟨by simpa using hc, ih h.2⟩
    · split at h
      · simp at h
      · simp at h

/-- A path without pieces has slashes only. -/
theorem eq_slash_of_pieces_eq_nil {path : String} (h : pieces path = []) : ∀ c ∈ path.toList, c = '/' := by
  apply eq_slash_of_splitChars
  intro piece hpiece
  have hempty := List.filter_eq_nil_iff.1 h (String.ofList piece) (List.mem_map_of_mem hpiece)
  simpa using hempty

/-! ### Components -/

theorem componentsOf_names {names : List String} (h : Names names) :
    componentsOf names = names.map Component.name := by
  induction names with
  | nil => rfl
  | cons s names ih =>
    have hs := h s List.mem_cons_self
    rw [componentsOf, if_neg hs.ne_here, if_neg hs.ne_up, ih fun t ht => h t (List.mem_cons_of_mem s ht)]
    rfl

theorem components_absolute {names : List String} (h : Names names) :
    components (absolute names) = .root :: names.map Component.name := by
  rw [components, if_pos (isAbsolute_absolute names), pieces_absolute h, componentsOf_names h]

/-- One absolute path is within another one if its names start with those of the other one. -/
theorem isWithin_absolute {base names : List String} (hbase : Names base) (h : Names names) :
    isWithin (absolute base) (absolute names) ↔ base <+: names := by
  have hinj : Function.Injective Component.name := fun _ _ he => Component.name.inj he
  rw [isWithin, components_absolute hbase, components_absolute h, List.isPrefixOf_iff_prefix,
    List.cons_prefix_cons, List.prefix_map_iff_of_injective hinj]
  exact and_iff_right rfl

/-- A sibling whose name starts alike is outside. -/
example : isWithin "/work" "/work-x/a" = false := by decide

end Path

/-! ### Steps -/

namespace World

/-- A path that is not empty asks for something: what has no pieces ends with a slash. -/
theorem steps_ne_nil {path : String} (h : path ≠ "") : steps path ≠ [] := by
  intro hsteps
  obtain ⟨hpieces, hlast⟩ := List.append_eq_nil_iff.1 hsteps
  -- without pieces there are slashes only, and the last of them asks for a directory
  have hall := Path.eq_slash_of_pieces_eq_nil hpieces
  cases hchars : path.toList.getLast? with
  | none => exact h (by simpa using hchars)
  | some c =>
    rw [hall c (List.mem_of_getLast? hchars)] at hchars
    simp [hchars] at hlast

private theorem getLast?_append_name (t : String) {s : String} (h : IsName s) :
    (t ++ s).toList.getLast? ≠ some '/' := by
  intro hlast
  rw [String.toList_append, List.getLast?_append_of_ne_nil _ (by simpa using h.ne_empty)] at hlast
  exact h.no_slash (List.mem_of_getLast? hlast)

private theorem getLast?_append_intercalate (t : String) {names : List String} (h : Names names) (hne : names ≠ []) :
    (t ++ "/".intercalate names).toList.getLast? ≠ some '/' := by
  obtain ⟨init, s, rfl⟩ := (List.eq_nil_or_concat' names).resolve_left hne
  have hs := h s (by simp)
  by_cases hinit : init = []
  · rw [hinit, List.nil_append, String.intercalate_singleton]
    exact getLast?_append_name t hs
  · rw [String.intercalate_append_of_ne_nil hinit (by simp), String.intercalate_singleton, ← String.append_assoc]
    exact getLast?_append_name _ hs

/-- Only the path of the root ends with a slash. -/
theorem getLast?_absolute {names : List String} (h : Names names) :
    (Path.absolute names).toList.getLast? = some '/' ↔ names = [] := by
  constructor
  · intro hlast
    by_contra hne
    exact getLast?_append_intercalate "/" h hne hlast
  · rintro rfl
    rfl

theorem steps_absolute {names : List String} (h : Names names) :
    steps (Path.absolute names) = if names = [] then ["."] else names := by
  simp only [steps, Path.pieces_absolute h, getLast?_absolute h]
  split
  · rename_i hnil
    rw [hnil]
    rfl
  · rw [List.append_nil]

private theorem steps_append (before path : String) :
    steps (before ++ "/" ++ path) = Path.pieces before ++ if path = "" then ["."] else steps path := by
  rw [steps, Path.pieces_append, List.append_assoc]
  congr 1
  by_cases hpath : path = ""
  · simp [hpath, String.toList_append]
  · rw [if_neg hpath, String.toList_append, List.getLast?_append_of_ne_nil _ (by simpa using hpath), steps]

/-- A relative path is followed from the names of the base. -/
theorem steps_join {base : List String} (h : Names base) {path : String} (hpath : Path.isAbsolute path = false) :
    steps (Path.join (Path.absolute base) path) = base ++ if path = "" then ["."] else steps path := by
  have hne : (Path.absolute base).isEmpty = false :=
    String.isEmpty_eq_false_iff.2 (Path.absolute_ne_empty base)
  simp only [Path.join, hpath, hne, getLast?_absolute h, Bool.false_eq_true, if_false, false_or]
  split
  · rename_i hnil
    subst hnil
    exact steps_append "" path
  · rw [steps_append, Path.pieces_absolute h]

/-- Names are followed one by one, from wherever the path that they are seen from leads to. -/
theorem steps_join_intercalate (path : String) {names : List String} (h : Names names) (hne : names ≠ []) :
    steps (Path.join path ("/".intercalate names)) = Path.pieces path ++ names := by
  have hrelative := Path.isAbsolute_intercalate h
  obtain ⟨t, ht⟩ : ∃ t, Path.join path ("/".intercalate names) = t ++ "/".intercalate names := by
    rw [Path.join, hrelative, if_neg Bool.false_ne_true]
    split
    · exact ⟨path, rfl⟩
    · exact ⟨path ++ "/", rfl⟩
  have hlast : (Path.join path ("/".intercalate names)).toList.getLast? ≠ some '/' := by
    rw [ht]
    exact getLast?_append_intercalate t h hne
  rw [steps, if_neg hlast, List.append_nil, Path.pieces_join hrelative, Path.pieces_intercalate h]

end World

end EchoEngine.Files
