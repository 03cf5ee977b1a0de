import EchoEngine.Proofs.Text.Pieces
import EchoEngine.Text.Lines

/-!
# Lines of texts

Lines are what a text is made of with their ends (`Lined`): a newline ends a line and takes a carriage return just
before it along, and the end of the text ends a line that is not empty.  Cutting at newlines finds them
(`lined_lineChars`), so no character of a text is in two lines or in none.
-/

namespace EchoEngine.Text

/-- A text, put together from its lines and their ends. -/
inductive Lined : List Char → List (List Char) → Prop
  | nil : Lined [] []
  | last {line : List Char} (hne : line ≠ []) (hline : '\n' ∉ line) : Lined line [line]
  | newline {line rest : List Char} {lines : List (List Char)} (hline : '\n' ∉ line)
      (hreturn : line.getLast? ≠ some '\r') (h : Lined rest lines) : Lined (line ++ '\n' :: rest) (line :: lines)
  | returned {line rest : List Char} {lines : List (List Char)} (hline : '\n' ∉ line) (h : Lined rest lines) :
      Lined (line ++ '\r' :: '\n' :: rest) (line :: lines)

/-- A piece in front of a newline is a line, less the carriage return at its end. -/
theorem Lined.cons {piece rest : List Char} {lines : List (List Char)} (hpiece : '\n' ∉ piece) (h : Lined rest lines) :
    Lined (piece ++ '\n' :: rest) (dropReturn piece :: lines) := by
  rw [dropReturn]
  split
  · rename_i hreturn
    obtain ⟨line, rfl⟩ := List.getLast?_eq_some_iff.1 hreturn
    rw [List.dropLast_concat, List.append_assoc]
    exact .returned (fun hline => hpiece (List.mem_append_left _ hline)) h
  · rename_i hreturn
    exact .newline hpiece hreturn h

theorem lined_linesOfPieces {pieces : List (List Char)} (h : ∀ piece ∈ pieces, '\n' ∉ piece) :
    Lined (['\n'].intercalate pieces) (linesOfPieces pieces) := by
  induction pieces with
  | nil => exact .nil
  | cons piece pieces ih =>
    rw [List.forall_mem_cons] at h
    cases pieces with
    | nil =>
      rw [linesOfPieces, List.intercalate_singleton]
      cases piece with
      | nil => exact .nil
      | cons c cs => exact .last (List.cons_ne_nil c cs) h.1
    | cons next pieces =>
      rw [linesOfPieces, List.intercalate_cons_cons, List.append_assoc]
      · exact (ih h.2).cons h.1
      · nofun

theorem lined_lineChars (cs : List Char) : Lined cs (lineChars cs) := by
  have hnone : ∀ piece ∈ splitChars (· == '\n') cs, '\n' ∉ piece := by
    intro piece hpiece hnewline
    simpa using eq_false_of_mem_splitChars hpiece '\n' hnewline
  have hlined := lined_linesOfPieces hnone
  rwa [splitChars_eq_splitOn, List.intercalate_splitOn, ← splitChars_eq_splitOn] at hlined

theorem map_toList_lines (s : String) : (lines s).map String.toList = lineChars s.toList := by
  simp [lines, Function.comp_def]

end EchoEngine.Text
