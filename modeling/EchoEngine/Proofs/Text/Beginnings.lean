import EchoEngine.Proofs.Text.Lines
import EchoEngine.Proofs.Text.Sentences

/-!
# Beginnings of texts

The first line of a text, without white space around it, is what the text has up to its first newline, whatever ends
the line (`startsWithLine_firstLine`); a text that is such a line already is its own first line (`Bare.firstLine_eq`).

A text can be cut at a byte if a character starts there.  The bytes that characters start at are those at which a text
in front of another one ends (`getElem?_charOffsets`, `before?_append`).
-/

namespace EchoEngine.Text

/-! ### First lines -/

/-- The first line of a text without white space around it; empty if there is no line. -/
def firstLine (s : String) : String :=
  trim ((lines s).headD "")

/-- A text within one line that neither starts nor ends with white space. -/
structure Bare (line : List Char) : Prop where
  newline : '\n' ∉ line
  head : ∀ c ∈ line.head?, isBlank c = false
  last : ∀ c ∈ line.getLast?, isBlank c = false

/-- A line is what stands in a text up to the first newline, without white space around it. -/
structure StartsWithLine (s line : String) : Prop extends Bare line.toList where
  exists_rest : ∃ front back rest, s.toList = front ++ line.toList ++ back ++ rest ∧ '\n' ∉ front ++ back ∧
    (∀ c ∈ front ++ back, isBlank c) ∧ (rest = [] ∨ rest.head? = some '\n')

theorem firstLine_eq (s : String) : firstLine s = String.ofList (trimChars ((lineChars s.toList).headD [])) := by
  have hhead : ((lines s).headD "").toList = (lineChars s.toList).headD [] := by
    rw [lines]
    cases lineChars s.toList <;> simp
  rw [firstLine, trim, hhead]

theorem bare_trimChars {line : List Char} (h : '\n' ∉ line) : Bare (trimChars line) where
  newline := by
    obtain ⟨front, back, hline, -, -⟩ := exists_trimChars line
    rw [← hline, List.mem_append, List.mem_append] at h
    exact fun hmem => h (.inl (.inr hmem))
  head := fun _ hc => isBlank_of_mem_head?_trimChars hc
  last := fun _ hc => isBlank_of_mem_getLast?_trimChars hc

/-- What stands between a line and its newline may be white space. -/
private theorem startsWithLine_trimChars {s : String} {line behind rest : List Char}
    (hs : s.toList = line ++ behind ++ rest) (hline : '\n' ∉ line) (hbehind : '\n' ∉ behind)
    (hblank : ∀ c ∈ behind, isBlank c) (hrest : rest = [] ∨ rest.head? = some '\n') :
    StartsWithLine s (String.ofList (trimChars line)) := by
  have hbare := bare_trimChars hline
  obtain ⟨front, back, hparts, hfront, hback⟩ := exists_trimChars line
  rw [← hparts, List.mem_append, List.mem_append, not_or, not_or] at hline
  constructor
  case toBare => rwa [String.toList_ofList]
  case exists_rest =>
    refine ⟨front, back ++ behind, rest, ?_, ?_, ?_, hrest⟩
    · rw [hs, String.toList_ofList, ← List.append_assoc, hparts]
    · simp only [List.mem_append, not_or]
      exact ⟨hline.1.1, hline.2, hbehind⟩
    · simp only [List.forall_mem_append]
      exact ⟨hfront, hback, hblank⟩

/-- White space at the end of a line is lost, and a carriage return in front of its newline is white space. -/
theorem startsWithLine_firstLine (s : String) : StartsWithLine s (firstLine s) := by
  have hlined := lined_lineChars s.toList
  rw [firstLine_eq]
  generalize hcs : s.toList = cs at hlined
  generalize lineChars cs = lines at hlined
  cases hlined with
  | nil =>
    have hparts : s.toList = [] ++ [] ++ [] := hcs
    exact startsWithLine_trimChars hparts List.not_mem_nil List.not_mem_nil nofun (.inl rfl)
  | last hne hline =>
    have hparts : s.toList = cs ++ [] ++ [] := by simpa using hcs
    exact startsWithLine_trimChars hparts hline List.not_mem_nil nofun (.inl rfl)
  | @newline line rest lines hline hreturn hrest =>
    have hparts : s.toList = line ++ [] ++ '\n' :: rest := by simpa using hcs
    exact startsWithLine_trimChars hparts hline List.not_mem_nil nofun (.inr rfl)
  | @returned line rest lines hline hrest =>
    have hparts : s.toList = line ++ ['\r'] ++ '\n' :: rest := by simpa using hcs
    exact startsWithLine_trimChars hparts hline (by simp) (List.forall_mem_singleton.2 rfl) (.inr rfl)

/-- A text that is bare already is its own first line. -/
theorem Bare.firstLine_eq {line : List Char} (h : Bare line) : firstLine (String.ofList line) = String.ofList line := by
  have hpieces : splitChars (· == '\n') line = [line] := by
    rw [splitChars_eq_splitOnP]
    refine List.splitOnP_eq_singleton fun c hc => ?_
    rw [beq_eq_false_iff_ne]
    rintro rfl
    exact h.newline hc
  have hhead : (lineChars line).headD [] = line := by
    rw [lineChars, hpieces, linesOfPieces]
    cases line <;> rfl
  have hfront : line.dropWhile isBlank = line := by
    cases line with
    | nil => rfl
    | cons c cs => exact List.dropWhile_cons_of_neg (by simp [h.head c rfl])
  have hback : line.rdropWhile isBlank = line := by
    rw [List.rdropWhile_eq_self_iff]
    intro hne
    simp [h.last _ (List.getLast_mem_getLast? hne)]
  have htrim : trimChars line = line := by
    rw [trimChars, hfront]
    exact hback
  rw [Text.firstLine_eq, String.toList_ofList, hhead, htrim]

/-! ### Cutting by bytes -/

/-- The characters of a text, each with the byte that it starts at. -/
def charOffsets (start : Nat) : List Char → List (Nat × Char)
  | [] => []
  | c :: cs => (start, c) :: charOffsets (start + c.utf8Size) cs

/-- The text before a byte.  There is none if a character goes on at that byte or the text ends before it. -/
def before? (s : String) (offset : Nat) : Option String :=
  if String.Pos.Raw.isValid s ⟨offset⟩ then String.fromUTF8? (s.toByteArray.extract 0 offset) else none

theorem getElem?_charOffsets (start : Nat) (cs : List Char) (n : Nat) :
    (charOffsets start cs)[n]? = cs[n]?.map fun c => (start + (String.ofList (cs.take n)).utf8ByteSize, c) := by
  induction cs generalizing start n with
  | nil => rfl
  | cons c cs ih =>
    cases n with
    | zero => rfl
    | succ n =>
      rw [charOffsets, List.getElem?_cons_succ, ih, List.getElem?_cons_succ, List.take_succ_cons, String.ofList_cons]
      simp [Nat.add_assoc]

/-- Where a text that stands in front of another one ends, a character starts. -/
theorem before?_append (s t : String) : before? (s ++ t) s.utf8ByteSize = some s := by
  have hvalid : String.Pos.Raw.isValid (s ++ t) ⟨s.utf8ByteSize⟩ = true := by
    rw [String.Pos.Raw.isValid_eq_true_iff, String.Pos.Raw.isValid_iff_exists_append]
    exact ⟨s, t, rfl, rfl⟩
  have hbytes : (s ++ t).toByteArray.extract 0 s.utf8ByteSize = s.toByteArray := by
    rw [String.toByteArray_append]
    exact ByteArray.extract_append_eq_left String.size_toByteArray.symm
  rw [before?, if_pos hvalid, hbytes, String.fromUTF8?, dif_pos s.isValidUTF8]
  rfl

end EchoEngine.Text
