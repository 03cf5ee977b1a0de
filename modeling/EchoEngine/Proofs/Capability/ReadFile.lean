import EchoEngine.Proofs.Capability.Workspace
import EchoEngine.Proofs.Files.Walk
import EchoEngine.Proofs.Parameters
import EchoEngine.Proofs.Text.Lines

/-!
# Windows of files

A window of a file shows the lines from its first number to its last one (`map_showLine_window`), so two windows of
which one starts where the other ends show what one window shows (`shownLines_append`), and windows of one size, laid
end to end from the first line on, show every line once (`flatMap_shownLines`).  Shown lines start with blanks or
digits, and what is said of an empty window does not (`page_eq_nothingShown_iff`).
-/

namespace EchoEngine.ReadFile

/-- The lines of a text from one number to another as they are shown: each behind its number and a tab. -/
def shownLines (lines : List String) (first last : Nat) : List String :=
  (List.range' first (last + 1 - first)).map fun n => column n ++ "\t" ++ lines.getD (n - 1) ""

/-- What is said of a window without lines. -/
def nothingShown (lines : List String) : String :=
  "(no lines in range; file has " ++ toString lines.length ++ " lines)"

/-! ### Windows -/

theorem number_eq (lines : List String) :
    number lines = (List.range' 1 lines.length).map fun n => (n, lines.getD (n - 1) "") := by
  apply List.ext_getElem
  · simp [number]
  · intro i hi hi'
    simp [number] at hi
    simp [number, Nat.add_comm 1 i, hi]

theorem take_range' (first n limit : Nat) : (List.range' first n).take limit = List.range' first (min limit n) := by
  rcases Nat.le_total n limit with h | h
  · rw [List.take_range'_of_length_le h, Nat.min_eq_right h]
  · rw [List.take_range'_of_length_ge h, Nat.min_eq_left h]

/-- A window shows the lines from its first number on, up to its last number or that of the last line. -/
theorem map_showLine_window {first : Nat} (hfirst : 1 ≤ first) (limit : Nat) (lines : List String) :
    (window first limit lines).map showLine = shownLines lines first (min lines.length (first + limit - 1)) := by
  have hlength : min limit (lines.length - (first - 1)) = min lines.length (first + limit - 1) + 1 - first := by omega
  rw [window, number_eq, ← List.map_drop, ← List.map_take, List.drop_range', take_range', List.map_map, shownLines,
    hlength, Nat.mul_one, Nat.add_sub_cancel' hfirst]
  rfl

/-- Windows of which one starts behind the other show what one window shows. -/
theorem shownLines_append (lines : List String) {first middle last : Nat} (hfirst : first ≤ middle + 1)
    (hlast : middle ≤ last) :
    shownLines lines first middle ++ shownLines lines (middle + 1) last = shownLines lines first last := by
  have hstart : first + (middle + 1 - first) = middle + 1 := by omega
  have hlength : middle + 1 - first + (last + 1 - (middle + 1)) = last + 1 - first := by omega
  have hrange := @List.range'_append_1 first (middle + 1 - first) (last + 1 - (middle + 1))
  rw [hstart, hlength] at hrange
  rw [shownLines, shownLines, shownLines, ← List.map_append, hrange]

theorem shownLines_eq_nil_iff {lines : List String} {first last : Nat} :
    shownLines lines first last = [] ↔ last < first := by
  rw [shownLines, List.map_eq_nil_iff, List.range'_eq_nil_iff]
  omega

/-- Windows of one size from the first line on show each line once. -/
theorem flatMap_shownLines (lines : List String) (size count : Nat) :
    ((List.range count).flatMap fun k => shownLines lines (1 + k * size) (min lines.length (1 + k * size + size - 1))) =
      shownLines lines 1 (min lines.length (count * size)) := by
  induction count with
  | zero => simp [shownLines]
  | succ count ih =>
    have hnext : 1 + count * size + size - 1 = (count + 1) * size := by
      rw [Nat.succ_mul]
      omega
    rw [List.range_succ, List.flatMap_append, ih, List.flatMap_singleton, hnext]
    have hle : count * size ≤ (count + 1) * size := Nat.mul_le_mul_right size (Nat.le_succ count)
    rcases Nat.le_total (count * size) lines.length with h | h
    · rw [Nat.min_eq_right h, Nat.add_comm 1]
      exact shownLines_append lines (by omega) (Nat.le_min.2 ⟨h, hle⟩)
    · -- all lines are shown before
      have hnone : shownLines lines (1 + count * size) (min lines.length ((count + 1) * size)) = [] :=
        shownLines_eq_nil_iff.2 (by omega)
      rw [hnone, List.append_nil, Nat.min_eq_left h, Nat.min_eq_left (Nat.le_trans h hle)]

/-! ### Texts of windows -/

/-- A number is shown with blanks in front, in six columns or as many as it has digits. -/
theorem column_padded (n : Nat) :
    (∃ blanks, (column n).toList = List.replicate blanks ' ' ++ (toString n).toList) ∧
      (column n).length = max 6 (toString n).length := by
  constructor
  · exact ⟨6 - (toString n).length, by simp [column]⟩
  · simp [column]
    omega

theorem exists_column (n : Nat) : ∃ c cs, (column n).toList = c :: cs ∧ (c = ' ' ∨ c.isDigit) := by
  obtain ⟨⟨blanks, hcolumn⟩, hlength⟩ := column_padded n
  have hne : (column n).toList ≠ [] := by
    intro hnil
    rw [← String.length_toList, hnil, List.length_nil] at hlength
    omega
  obtain ⟨c, cs, hcs⟩ := List.exists_cons_of_ne_nil hne
  refine ⟨c, cs, hcs, ?_⟩
  have hmem : c ∈ (column n).toList := hcs ▸ List.mem_cons_self
  rw [hcolumn, List.mem_append] at hmem
  rcases hmem with hblank | hdigit
  · exact .inl (List.eq_of_mem_replicate hblank)
  · rw [Nat.toString_eq_ofList_toDigits, String.toList_ofList] at hdigit
    exact .inr (Nat.isDigit_of_mem_toDigits (by decide) (by decide) hdigit)

theorem intercalate_shownLines_ne_nothingShown (lines : List String) {first last : Nat} (h : first ≤ last) :
    "\n".intercalate (shownLines lines first last) ≠ nothingShown lines := by
  intro heq
  have hne : shownLines lines first last ≠ [] := fun hnil => Nat.not_lt.2 h (shownLines_eq_nil_iff.1 hnil)
  obtain ⟨shown, rest, hshown⟩ := List.exists_cons_of_ne_nil hne
  rw [shownLines] at hshown
  obtain ⟨n, numbers, -, rfl, -⟩ := List.map_eq_cons_iff.1 hshown
  obtain ⟨c, cs, hcolumn, hc⟩ := exists_column n
  rw [shownLines, hshown, String.append_assoc, String.intercalate_cons_append] at heq
  have hfirst : c = '(' := by
    unfold nothingShown at heq
    have hchars := congrArg String.toList heq
    rw [String.toList_append, hcolumn, String.toList_append, String.toList_append] at hchars
    exact (List.cons.inj hchars).1
  rcases hc with hblank | hdigit
  · rw [hblank] at hfirst
    exact absurd hfirst (by decide)
  · rw [hfirst] at hdigit
    exact absurd hdigit (by decide)

/-- A window shows its lines, or says that there are none. -/
theorem page_eq {first : Nat} (hfirst : 1 ≤ first) (limit : Nat) (text : String) :
    page first limit text =
      if first ≤ min (Text.lines text).length (first + limit - 1) then
        "\n".intercalate (shownLines (Text.lines text) first (min (Text.lines text).length (first + limit - 1)))
      else nothingShown (Text.lines text) := by
  have hwindow := map_showLine_window hfirst limit (Text.lines text)
  cases hlines : window first limit (Text.lines text) with
  | nil =>
    rw [hlines, List.map_nil, eq_comm, shownLines_eq_nil_iff] at hwindow
    have hpage : page first limit text = nothingShown (Text.lines text) := by
      unfold page nothingShown
      dsimp only
      rw [hlines]
    rw [hpage, if_neg (Nat.not_le.2 hwindow)]
  | cons line rest =>
    have hsome : ¬min (Text.lines text).length (first + limit - 1) < first := by
      intro hlt
      rw [hlines, List.map_cons, shownLines_eq_nil_iff.2 hlt] at hwindow
      cases hwindow
    have hpage : page first limit text = "\n".intercalate ((line :: rest).map showLine) := by
      simp only [page, hlines]
    rw [hpage, if_pos (Nat.not_lt.1 hsome), ← hwindow, hlines]

theorem page_eq_nothingShown_iff {first : Nat} (hfirst : 1 ≤ first) (limit : Nat) (text : String) :
    page first limit text = nothingShown (Text.lines text) ↔
      min (Text.lines text).length (first + limit - 1) < first := by
  rw [page_eq hfirst]
  split
  · rename_i h
    exact iff_of_false (intercalate_shownLines_ne_nothingShown _ h) (Nat.not_lt.2 h)
  · rename_i h
    exact iff_of_true rfl (Nat.not_le.1 h)

theorem intercalate_map_intercalate (sep : String) {texts : List (List String)} (h : ∀ ts ∈ texts, ts ≠ []) :
    sep.intercalate (texts.map sep.intercalate) = sep.intercalate texts.flatten := by
  induction texts with
  | nil => rfl
  | cons ts texts ih =>
    rw [List.forall_mem_cons] at h
    cases texts with
    | nil => simp
    | cons us texts =>
      have hrest : (us :: texts).flatten ≠ [] := by simp [h.2 us List.mem_cons_self]
      rw [List.map_cons, List.flatten_cons, String.intercalate_append_of_ne_nil h.1 hrest, ← ih h.2,
        String.intercalate_cons_of_ne_nil (by simp)]

theorem page_of_ne_nothingShown {first limit : Nat} {text : String} (hfirst : 1 ≤ first)
    (h : page first limit text ≠ nothingShown (Text.lines text)) :
    first ≤ min (Text.lines text).length (first + limit - 1) ∧ page first limit text = "\n".intercalate
      (shownLines (Text.lines text) first (min (Text.lines text).length (first + limit - 1))) := by
  rw [Ne, page_eq_nothingShown_iff hfirst, Nat.not_lt] at h
  exact ⟨h, (page_eq hfirst limit text).trans (if_pos h)⟩

/-- Two windows of which one starts behind the other, with a newline between them, are one window. -/
theorem page_add {first size size' : Nat} {text : String} (hfirst : 1 ≤ first)
    (h : page first size text ≠ nothingShown (Text.lines text))
    (h' : page (first + size) size' text ≠ nothingShown (Text.lines text)) :
    page first (size + size') text = page first size text ++ "\n" ++ page (first + size) size' text := by
  obtain ⟨hle, hpage⟩ := page_of_ne_nothingShown hfirst h
  obtain ⟨hle', hpage'⟩ := page_of_ne_nothingShown (Nat.le_trans hfirst (Nat.le_add_right first size)) h'
  -- the first window is full, as there are lines behind it
  have hmiddle : min (Text.lines text).length (first + size - 1) = first + size - 1 := by omega
  have hnext : first + size - 1 + 1 = first + size := by omega
  have hlast : first + size + size' - 1 = first + (size + size') - 1 := by omega
  have hjoin : shownLines (Text.lines text) first (first + size - 1) ++
      shownLines (Text.lines text) (first + size - 1 + 1)
        (min (Text.lines text).length (first + (size + size') - 1)) = _ :=
    shownLines_append _ (by omega) (by omega)
  rw [hmiddle] at hpage
  rw [hlast] at hpage'
  rw [hnext] at hjoin
  rw [page_eq hfirst, if_pos (by omega), hpage, hpage', ← hjoin, String.intercalate_append_of_ne_nil]
  · rw [Ne, shownLines_eq_nil_iff]
    omega
  · rw [Ne, shownLines_eq_nil_iff]
    omega

/-- The windows of one size up to the first without lines show, with newlines between them, every line. -/
theorem intercalate_pages {size count : Nat} {text : String}
    (h : ∀ k < count, page (1 + k * size) size text ≠ nothingShown (Text.lines text)) (hsize : 1 ≤ size)
    (hend : page (1 + count * size) size text = nothingShown (Text.lines text)) :
    "\n".intercalate ((List.range count).map fun k => page (1 + k * size) size text) =
      "\n".intercalate (shownLines (Text.lines text) 1 (Text.lines text).length) := by
  have hall : min (Text.lines text).length (count * size) = (Text.lines text).length := by
    rw [page_eq_nothingShown_iff (Nat.le_add_right 1 _)] at hend
    omega
  have hpages : ((List.range count).map fun k => page (1 + k * size) size text) =
      ((List.range count).map fun k => shownLines (Text.lines text) (1 + k * size)
        (min (Text.lines text).length (1 + k * size + size - 1))).map "\n".intercalate := by
    rw [List.map_map]
    refine List.map_congr_left fun k hk => ?_
    exact (page_of_ne_nothingShown (Nat.le_add_right 1 _) (h k (List.mem_range.1 hk))).2
  rw [hpages, intercalate_map_intercalate, ← List.flatMap_def, flatMap_shownLines, hall]
  intro shown hshown
  obtain ⟨k, hk, rfl⟩ := List.mem_map.1 hshown
  have hle := (page_of_ne_nothingShown (Nat.le_add_right 1 _) (h k (List.mem_range.1 hk))).1
  rw [Ne, shownLines_eq_nil_iff]
  exact Nat.not_lt.2 hle

/-! ### Reading -/

/-- Parameters that ask for at most `limit` lines of a file from line `offset` on. -/
structure Asks (p : Parameters) (path : String) (offset limit : Int64) : Prop where
  path : p.get? "file_path" = some (.text path)
  offset : p.get? "offset" = some (.int offset)
  limit : p.get? "limit" = some (.int limit)

theorem run_tool {ws : Workspace} {p : Parameters} {path file text : String} {offset limit : Int64}
    (hasks : Asks p path offset limit) (hfile : ws.existing path = .ok file)
    (htext : ws.world.readText file = .ok text) (request : Request) :
    (tool ws).run request p = some (.text (page (atLeast 1 offset) (atLeast 0 limit) text)) := by
  have hpath : p.optText "file_path" = .ok (some path) := Parameters.optAs_of_get? hasks.path rfl
  have hoffset : p.optInt "offset" = .ok (some offset) := Parameters.optAs_of_get? hasks.offset rfl
  have hlimit : p.optInt "limit" = .ok (some limit) := Parameters.optAs_of_get? hasks.limit rfl
  have hread : read ws p = .ok (page (atLeast 1 offset) (atLeast 0 limit) text) := by
    simp only [read, hpath, hoffset, hlimit, hfile, htext, bind, Except.bind, pure, Except.pure, Option.map_some,
      Option.getD_some]
  exact congrArg (fun answer => some (Reply.ofResult answer)) hread

/-- The first line that an offset asks for: there is none before line one. -/
def firstLine (offset : Int64) : Nat :=
  (max 1 offset.toInt).toNat

/-- The last line of a window: the limit is one on how many there are, and none are behind the last line. -/
def lastLine (lines : List String) (offset limit : Int64) : Nat :=
  min lines.length (firstLine offset + (max 0 limit.toInt).toNat - 1)

/-- What is shown of lines from an offset on, up to a limit. -/
structure Windows (lines : List String) (shown : Int64 → Int64 → String) : Prop where
  shows : ∀ offset limit, firstLine offset ≤ lastLine lines offset limit →
    shown offset limit = "\n".intercalate (shownLines lines (firstLine offset) (lastLine lines offset limit))
  nothing_iff : ∀ offset limit,
    shown offset limit = nothingShown lines ↔ lastLine lines offset limit < firstLine offset
  /-- Pages of one size show each line once, up to the first page without lines. -/
  pages : ∀ (size : Int64) (offsets : Nat → Int64) (count : Nat), 1 ≤ size.toInt →
    (∀ k ≤ count, (offsets k).toInt = 1 + k * size.toInt) →
    (∀ k < count, shown (offsets k) size ≠ nothingShown lines) → shown (offsets count) size = nothingShown lines →
    "\n".intercalate ((List.range count).map fun k => shown (offsets k) size) =
      "\n".intercalate (shownLines lines 1 lines.length)
  /-- Pages are without lines as soon as all lines are on the pages before. -/
  ends_iff : ∀ (size offset : Int64) (k : Nat), 1 ≤ size.toInt → offset.toInt = 1 + k * size.toInt →
    (shown offset size = nothingShown lines ↔ lines.length ≤ k * size.toInt)
  joins : ∀ offset next size size' both : Int64, 1 ≤ offset.toInt → 1 ≤ size.toInt → 1 ≤ size'.toInt →
    next.toInt = offset.toInt + size.toInt → both.toInt = size.toInt + size'.toInt →
    shown offset size ≠ nothingShown lines → shown next size' ≠ nothingShown lines →
    shown offset both = shown offset size ++ "\n" ++ shown next size'

theorem atLeast_of_toInt_eq {low m : Nat} {n : Int64} (h : n.toInt = m) (hlow : low ≤ m) : atLeast low n = m := by
  rw [atLeast, h, Int.toNat_natCast, Nat.max_eq_right hlow]

theorem windows_page (text : String) :
    Windows (Text.lines text) fun offset limit => page (atLeast 1 offset) (atLeast 0 limit) text := by
  have hfirst (offset : Int64) : atLeast 1 offset = firstLine offset := by
    rw [atLeast, firstLine]
    omega
  have hlast (offset limit : Int64) : lastLine (Text.lines text) offset limit =
      min (Text.lines text).length (firstLine offset + atLeast 0 limit - 1) := by
    rw [lastLine, atLeast]
    omega
  have hone (offset : Int64) : 1 ≤ firstLine offset := by
    rw [firstLine]
    omega
  have hnothing (offset limit : Int64) :
      page (atLeast 1 offset) (atLeast 0 limit) text = nothingShown (Text.lines text) ↔
        lastLine (Text.lines text) offset limit < firstLine offset := by
    rw [hfirst, hlast, page_eq_nothingShown_iff (hone offset)]
  -- the offsets of pages, as natural numbers
  have hoffset {size offset : Int64} {k : Nat} (hsize : 1 ≤ size.toInt) (h : offset.toInt = 1 + k * size.toInt) :
      atLeast 1 offset = 1 + k * atLeast 0 size := by
    obtain ⟨n, hn⟩ := Int.eq_ofNat_of_zero_le (Int.le_trans Int.one_nonneg hsize)
    have hnat : offset.toInt = (1 + k * n : Nat) := by
      rw [h, hn, Int.natCast_add, Int.natCast_mul]
      rfl
    rw [atLeast_of_toInt_eq hn (Nat.zero_le n), atLeast_of_toInt_eq hnat (Nat.le_add_right 1 _)]
  constructor
  case shows =>
    intro offset limit h
    rw [hlast] at h ⊢
    rw [hfirst, page_eq (hone offset), if_pos h]
  case nothing_iff => exact hnothing
  case pages =>
    intro size offsets count hsize hoffsets hbefore hend
    have hpositions {k : Nat} (hk : k ≤ count) : atLeast 1 (offsets k) = 1 + k * atLeast 0 size :=
      hoffset hsize (hoffsets k hk)
    have hpages : ((List.range count).map fun k => page (atLeast 1 (offsets k)) (atLeast 0 size) text) =
        (List.range count).map fun k => page (1 + k * atLeast 0 size) (atLeast 0 size) text := by
      refine List.map_congr_left fun k hk => ?_
      rw [hpositions (Nat.le_of_lt (List.mem_range.1 hk))]
    rw [hpages]
    rw [hpositions (Nat.le_refl count)] at hend
    refine intercalate_pages (fun k hk => ?_) ?_ hend
    · rw [← hpositions (Nat.le_of_lt hk)]
      exact hbefore k hk
    · rw [atLeast]
      omega
  case ends_iff =>
    intro size offset k hsize h
    obtain ⟨m, hm⟩ := Int.eq_ofNat_of_zero_le (Int.le_trans Int.one_nonneg hsize)
    rw [hm] at hsize
    rw [hnothing, hlast, ← hfirst, hoffset (hm ▸ hsize) h, hm, atLeast_of_toInt_eq hm (Nat.zero_le m),
      ← Int.natCast_mul, Int.ofNat_le]
    omega
  case joins =>
    intro offset next size size' both hoffset hsize hsize' hnext hboth h h'
    have hstart : atLeast 1 next = atLeast 1 offset + atLeast 0 size := by
      rw [atLeast, atLeast, atLeast]
      omega
    have hsum : atLeast 0 both = atLeast 0 size + atLeast 0 size' := by
      rw [atLeast, atLeast, atLeast]
      omega
    rw [hstart] at h' ⊢
    rw [hsum]
    exact page_add (hfirst offset ▸ hone offset) h h'

/-- Of a file that is there and holds text, `read` shows windows of its lines: those from an offset on, up to a limit,
each behind its number. -/
theorem run_windows {ws : Workspace} {path file text : String} (hfile : ws.existing path = .ok file)
    (htext : ws.world.readText file = .ok text) :
    ∃ shown : Int64 → Int64 → String,
      (∀ request p offset limit, Asks p path offset limit →
        (tool ws).run request p = some (.text (shown offset limit))) ∧
      Text.Lined text.toList ((Text.lines text).map String.toList) ∧ Windows (Text.lines text) shown ∧
      ∀ n, (∃ blanks, (column n).toList = List.replicate blanks ' ' ++ (toString n).toList) ∧
        (column n).length = max 6 (toString n).length := by
  refine ⟨_, fun request p offset limit hasks => run_tool hasks hfile htext request, ?_, windows_page text,
    column_padded⟩
  rw [Text.map_toList_lines]
  exact Text.lined_lineChars text.toList

/-- A file of three lines, of which the first ends with a carriage return and the last one with the file. -/
def sampleText : String :=
  "one\r\ntwo\nthree"

def sampleFiles : Files.World where
  top := .dir [("work", .dir [("notes.txt", .file sampleText.toUTF8 0)])]
  current := []

/-- Parameters that ask for the second line. -/
def sampleWindow : Parameters :=
  ((Parameters.empty.insert "file_path" (.text "notes.txt")).insert "offset" (.int 2)).insert "limit" (.int 1)

private theorem reaches_sampleFiles : sampleFiles.Reaches "/work" ["work"] :=
  ⟨by decide, 0, Nat.zero_le _, .down rfl (by decide) (by decide) rfl (fun _ => nofun) (.done _)⟩

private theorem reaches_notes_sampleFiles : sampleFiles.Reaches "/work/notes.txt" ["work", "notes.txt"] := by
  refine ⟨by decide, 0, Nat.zero_le _, .down rfl (by decide) (by decide) rfl (fun _ => nofun) ?_⟩
  exact .down rfl (by decide) (by decide) rfl (fun _ => nofun) (.done _)

theorem run_windows_sampleFiles :
    (Workspace.new sampleFiles "/work").existing "notes.txt" = .ok "/work/notes.txt" ∧
    sampleFiles.readText "/work/notes.txt" = .ok sampleText ∧ Asks sampleWindow "notes.txt" 2 1 ∧
    ∃ shown : Int64 → Int64 → String,
      (tool (Workspace.new sampleFiles "/work")).run default sampleWindow = some (.text (shown 2 1)) ∧
      Windows (Text.lines sampleText) shown ∧ shown 2 1 = "     2\ttwo" := by
  have hroot := Workspace.root_new reaches_sampleFiles
  have hfile : (Workspace.new sampleFiles "/work").existing "notes.txt" = .ok "/work/notes.txt" := by
    have hbase : Files.Names ["work"] := reaches_sampleFiles.names Files.names_nil
    refine (Workspace.existing_eq_ok_iff hroot hbase).2 ⟨["work", "notes.txt"], ?_, by decide, by decide⟩
    rw [hroot]
    exact reaches_notes_sampleFiles
  have htext : sampleFiles.readText "/work/notes.txt" = .ok sampleText := by
    have hutf : String.fromUTF8? sampleText.toUTF8 = some sampleText := dif_pos sampleText.isValidUTF8
    have hnode : sampleFiles.node? "/work/notes.txt" = some (.file sampleText.toUTF8 0) :=
      Files.World.Reaches.node?_eq reaches_notes_sampleFiles
    rw [Files.World.readText, hnode]
    simp only [hutf]
  have hasks : Asks sampleWindow "notes.txt" 2 1 := ⟨rfl, rfl, rfl⟩
  obtain ⟨shown, hrun, -, hwindows, -⟩ := run_windows hfile htext
  refine ⟨hfile, htext, hasks, shown, hrun default _ 2 1 hasks, hwindows, ?_⟩
  rw [hwindows.shows 2 1 (by decide +kernel)]
  decide +kernel

end EchoEngine.ReadFile
