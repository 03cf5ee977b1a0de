import EchoEngine.Proofs.Engine.Runs
import EchoEngine.Proofs.Text.Beginnings

/-!
# Summaries

A summary shows the beginnings of two texts.  Of the first line of a text it has as many characters as there is room
for, and three dots behind them if there are more.  The line is cut at a byte, and a character starts there
(`clipBytes?_eq`).  What has been cut is not cut shorter: it neither starts nor ends with white space, and what is too
much of it are the three dots (`clip_clip`).

So what is remembered of a task is one line with a bound on its length, whatever its input and output are
(`brief_run`).
-/

namespace EchoEngine

namespace MemoryEntry

open Text

/-- The first line of a text without white space around it, cut at the byte where the character starts that is one too
many. -/
def clipBytes? (limit : Nat) (s : String) : Option String :=
  let line := firstLine s
  match (charOffsets 0 line.toList)[limit]? with
  | some (offset, _) => (before? line offset).map (· ++ "...")
  | none => some line

theorem clip_eq (limit : Nat) (s : String) : clip limit s =
    if (firstLine s).length ≤ limit then firstLine s
    else String.ofList ((firstLine s).toList.take limit) ++ "..." := by
  have hline : (firstLine s).toList = trimChars ((lineChars s.toList).head?.getD []) := by
    rw [firstLine_eq, String.toList_ofList, List.headD_eq_head?_getD]
  rw [clip, clipChars, ← hline, ← String.length_toList]
  by_cases hlimit : (firstLine s).toList.length ≤ limit
  · rw [if_neg (Nat.not_lt.2 hlimit), if_pos hlimit, String.ofList_toList]
  · rw [if_pos (Nat.not_le.1 hlimit), if_neg hlimit, String.ofList_append]

/-- There is a character to cut at if and only if there are too many. -/
theorem clipBytes?_eq (limit : Nat) (s : String) : clipBytes? limit s = some (clip limit s) := by
  rw [clip_eq, clipBytes?]
  generalize firstLine s = line
  have hbyte := getElem?_charOffsets 0 line.toList limit
  by_cases hlimit : line.length ≤ limit
  · have hnone : line.toList[limit]? = none := List.getElem?_eq_none (by rwa [String.length_toList])
    rw [hbyte, hnone, if_pos hlimit]
    rfl
  · have hsome : limit < line.toList.length := by rwa [String.length_toList, ← Nat.not_le]
    have hparts : line = String.ofList (line.toList.take limit) ++ String.ofList (line.toList.drop limit) := by
      rw [← String.ofList_append, List.take_append_drop, String.ofList_toList]
    have hbefore : before? line (String.ofList (line.toList.take limit)).utf8ByteSize
        = some (String.ofList (line.toList.take limit)) := by
      conv => lhs; arg 1; rw [hparts]
      exact before?_append _ _
    rw [hbyte, List.getElem?_eq_getElem hsome, if_neg hlimit, Option.map_some, Nat.zero_add]
    dsimp only
    rw [hbefore, Option.map_some]

/-- The cut falls at the sixth byte, behind four characters. -/
example : clipBytes? 4 "h\u00e9llo w\u00f6rld\n!" = some "h\u00e9ll..." := by decide +kernel

/-! ### What is cut -/

/-- Dots behind a part of a line do not make it start or end with white space. -/
theorem bare_clip (limit : Nat) (s : String) : Bare (clip limit s).toList := by
  have hline := (startsWithLine_firstLine s).toBare
  rw [clip_eq]
  split
  · exact hline
  · rw [String.toList_append, String.toList_ofList]
    constructor
    case newline =>
      rw [List.mem_append, not_or]
      exact ⟨fun hmem => hline.newline (List.mem_of_mem_take hmem), by decide⟩
    case head =>
      intro c hc
      rw [List.head?_append, List.head?_take, Option.mem_def, Option.or_eq_some_iff] at hc
      rcases hc with hc | ⟨-, hc⟩
      · split at hc
        · cases hc
        · exact hline.head c hc
      · cases hc
        rfl
    case last =>
      intro c hc
      rw [List.getLast?_append_of_ne_nil _ (by decide)] at hc
      cases hc
      rfl

theorem length_clip_le (limit : Nat) (s : String) : (clip limit s).length ≤ limit + 3 := by
  rw [clip_eq]
  split
  · omega
  · have hdots : "...".length = 3 := rfl
    rw [String.length_append, String.length_ofList, List.length_take, hdots]
    omega

/-- What has been cut has three characters too many, and is cut where it was cut before. -/
theorem clip_clip (limit : Nat) (s : String) : clip limit (clip limit s) = clip limit s := by
  have hself : firstLine (clip limit s) = clip limit s := by
    have hbare := (bare_clip limit s).firstLine_eq
    rwa [String.ofList_toList] at hbare
  rw [clip_eq limit (clip limit s), hself]
  split
  · rfl
  · rename_i hcut
    rw [clip_eq] at hcut ⊢
    split at hcut
    · contradiction
    · rename_i hlong
      have htake : ((firstLine s).toList.take limit).length = limit := by
        rw [List.length_take, String.length_toList]
        omega
      rw [if_neg hlong, String.toList_append, String.toList_ofList, List.take_left' htake]

/-- The first line of a text, cut behind so many characters. -/
structure Clips (limit : Nat) (s clipped : String) : Prop where
  /-- What is cut is the text up to its first newline, without white space around it. -/
  line : StartsWithLine s (firstLine s)
  eq : clipped = if (firstLine s).length ≤ limit then firstLine s
    else String.ofList ((firstLine s).toList.take limit) ++ "..."
  /-- The byte to cut at is never within a character. -/
  bytes : clipBytes? limit s = some clipped
  newline : '\n' ∉ clipped.toList
  again : clip limit clipped = clipped

theorem clips_clip (limit : Nat) (s : String) : Clips limit s (clip limit s) where
  line := startsWithLine_firstLine s
  eq := clip_eq limit s
  bytes := clipBytes?_eq limit s
  newline := (bare_clip limit s).newline
  again := clip_clip limit s

/-! ### Summaries of tasks -/

/-- A memory with one line of bounded length. -/
structure Brief (m : MemoryEntry) : Prop where
  newline : '\n' ∉ m.summary.toList
  length_le : m.summary.length ≤ 261

/-- Two texts cut behind 80 and 160 characters, each with three dots, the longest name of a type and two marks. -/
theorem brief_entry (c : Completion) : Brief c.entry where
  newline := by
    have hname : '\n' ∉ c.task.type.name.toList := by cases c.task.type <;> decide
    have hmarks : '\n' ∉ ": ".toList ∧ '\n' ∉ " => ".toList := by decide
    have hinput := (bare_clip inputLimit c.task.input).newline
    have houtput := (bare_clip outputLimit c.output).newline
    simp only [Completion.entry, summarize, String.toList_append, List.mem_append, not_or]
    exact ⟨⟨⟨⟨hname, hmarks.1⟩, hinput⟩, hmarks.2⟩, houtput⟩
  length_le := by
    have hname : c.task.type.name.length ≤ 9 := by cases c.task.type <;> decide
    have hmarks : ": ".length = 2 ∧ " => ".length = 4 := by decide
    have hinput := length_clip_le inputLimit c.task.input
    have houtput := length_clip_le outputLimit c.output
    simp only [Completion.entry, summarize, String.length_append]
    rw [inputLimit] at hinput
    rw [outputLimit] at houtput
    simp only [inputLimit, outputLimit]
    omega

end MemoryEntry

namespace Engine

open MemoryEntry

/-- A text is cut behind so many characters of its first line, at the start of a character, into one line that is not
cut again.  So every completed task adds one line of at most 261 characters to what its agent remembers, and in no run
that starts without agents does one ever remember anything else. -/
theorem brief_run (settings : AgentSettings) (e : Engine) (he : e.agents = .new settings) (es : List EngineEvent) :
    (∀ limit s, Clips limit s (clip limit s)) ∧
    (∀ (state : AgentState) (c : Completion), Brief c.entry ∧
      ∃ kept, kept <:+ state.memory ∧ (state.commit c.task c.output c.time).memory = kept ++ [c.entry]) ∧
    ∀ id a, (e.run es).agents.get? id = some a → ∀ m ∈ a.state.memory, Brief m := by
  refine ⟨clips_clip, fun state c => ⟨brief_entry c, ?_⟩, fun id a ha m hm => ?_⟩
  · exact AgentState.exists_keepNewest state.memoryCapacity state.memory c.entry
  · rw [get?_run he, Option.map_eq_some_iff] at ha
    obtain ⟨b, -, rfl⟩ := ha
    obtain ⟨c, -, rfl⟩ := AgentState.exists_of_mem_memory_recalled hm
    exact brief_entry c

/-- A task with two lines, the first of them in white space. -/
def twoLines : Task :=
  .new "task-1" .analyze " read\r\nall of it" ⟨"agent-1"⟩

def twoLinesEvents : List EngineEvent :=
  [.createAgent ⟨"agent-1"⟩ .general "reader" ⟨0, 0⟩, .execute twoLines ⟨"agent-1"⟩ ⟨none, false⟩ ⟨1, 0⟩]

theorem brief_run_twoLines :
    sampleEngine.agents = .new .standard ∧ clip 2 " read\r\nall of it" = "re..." ∧
      clipBytes? 2 " read\r\nall of it" = some "re..." ∧
      ∃ a m, (sampleEngine.run twoLinesEvents).agents.get? ⟨"agent-1"⟩ = some a ∧ a.state.memory = [m] ∧
        m.summary = "analyze: read => read" ∧ Brief m := by
  obtain ⟨hclips, -, hbrief⟩ := brief_run .standard sampleEngine rfl twoLinesEvents
  have hcompleted : sampleEngine.completedBy ⟨"agent-1"⟩ twoLinesEvents
      = [⟨twoLines, " read\r\nall of it", ⟨1, 0⟩⟩] := rfl
  have hclip : clip 2 " read\r\nall of it" = "re..." := by decide
  have hagent := get?_run (e := sampleEngine) rfl twoLinesEvents ⟨"agent-1"⟩
  rw [hcompleted] at hagent
  refine ⟨rfl, hclip, hclip ▸ (hclips 2 _).bytes, _, _, hagent, rfl, by decide, ?_⟩
  exact hbrief _ _ hagent _ List.mem_cons_self

end Engine

end EchoEngine
