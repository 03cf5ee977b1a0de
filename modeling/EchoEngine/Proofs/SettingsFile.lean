import EchoEngine.Proofs.Files.Walk
import EchoEngine.Proofs.Toml.Documents
import EchoEngine.SettingsFile

/-!
# Settings that are kept in their file

What `Settings.toToml` writes is read back as the same settings, whatever the strings and the share are and whether
the memories of an agent are bounded or not, as long as every number fits into 64 bits with a sign
(`Settings.ofToml?_toToml`).  A larger number has no text, and then no other setting has one either: the text is empty,
which stands for the standard settings (`Settings.toToml_eq_empty`).

Each section says for itself that it is kept (`Kept`): which numbers are in its table, that the table can be read, and
that the section is read from it as it was.
-/

namespace EchoEngine

open Json.Reader Toml

/-! ### Reading records -/

/-- A record with known members only is taken as it is. -/
@[simp]
theorem Reading.fields?_obj (r : Reading) {names : List String} {members : List (String × Json)}
    (h : (members.map Prod.fst).Sublist names) (hnames : names.Nodup) :
    r.fields? names (.obj members) = some ⟨members, false⟩ := by
  have hknown : members.filter (fun m => names.contains m.1) = members := by
    refine List.filter_eq_self.2 fun m hm => ?_
    exact List.contains_iff_mem.2 (h.subset (List.mem_map_of_mem hm))
  simp only [fields?, Json.Fields.of?, hknown, if_pos (hnames.sublist h)]

namespace Json.Fields

variable {α : Type} (members : List (String × Json)) (byPlace : Bool) (read : Json.Reader α) (fallback : α)

@[simp]
theorem defaulted_nil (name : String) : defaulted ⟨[], byPlace⟩ name read fallback = some fallback :=
  rfl

@[simp]
theorem defaulted_cons_self (name : String) (v : Json) :
    defaulted ⟨(name, v) :: members, byPlace⟩ name read fallback = read v := by
  simp only [defaulted, List.lookup_cons_self]

@[simp]
theorem defaulted_cons_of_ne {name key : String} (h : name ≠ key) (v : Json) :
    defaulted ⟨(key, v) :: members, byPlace⟩ name read fallback =
      defaulted ⟨members, byPlace⟩ name read fallback := by
  simp only [defaulted, List.lookup_cons, beq_false_of_ne h]

end Json.Fields

namespace Json.Reader

theorem word_int {n : Nat} (h : n < 2 ^ 64) : word (.int n) = some n := by
  have hbound : (0 : Int) ≤ n ∧ (n : Int) < (Nat.pow 2 64 : Nat) := ⟨Int.natCast_nonneg n, Int.ofNat_lt.2 h⟩
  rw [word, natBelow, if_pos hbound, Int.toNat_natCast]

@[simp]
theorem nullable_int {α : Type} (read : Json.Reader α) (n : Int) :
    nullable read (.int n) = (read (.int n)).map some :=
  rfl

@[simp]
theorem bool_bool (b : Bool) : bool (.bool b) = some b :=
  rfl

@[simp]
theorem float_float (x : Float) : float (.float x) = some x :=
  rfl

@[simp]
theorem list_ofStrings (ss : List String) : list string (.ofStrings ss) = some ss := by
  change (ss.map Json.str).mapM string = some ss
  induction ss with
  | nil => rfl
  | cons s ss ih =>
    rw [List.map_cons, List.mapM_cons, ih]
    rfl

end Json.Reader

/-! ### Sections -/

/-- The members of an object that are written: those that are set. -/
def Json.setMembers : Json → List (String × Json)
  | .obj members => members.filter fun m => match m.2 with
    | .null => false
    | _ => true
  | _ => []

/-- A section is read from its table as it was, and the table can be written if the numbers in it have a text. -/
structure Kept {α : Type} (s : α) (toJson : Json) (numbers : List Nat) (read : Reading → Json.Reader α) : Prop where
  tabular : Tabular toJson.setMembers
  writable : (∀ m ∈ toJson.setMembers, (write? m.2).isSome = true) ↔ ∀ n ∈ numbers, n < 2 ^ 63
  read_eq : (∀ n ∈ numbers, word (.int n) = some n) → ∀ r, read r (.obj toJson.setMembers) = some s

/-- The numbers of a section, as far as they are set. -/
def AgentSettings.numbers (s : AgentSettings) : List Nat :=
  s.contextCapacity :: (s.memoryCapacity.toList ++ [s.handlerItems])

theorem AgentSettings.kept (s : AgentSettings) : Kept s s.toJson s.numbers read := by
  obtain ⟨context, memory, items⟩ := s
  cases memory with
  | none =>
    have hmembers : (toJson ⟨context, none, items⟩).setMembers =
        [("context_capacity", .int context), ("handler_context_items", .int items)] := rfl
    constructor <;> simp only [hmembers, numbers, Option.toList, List.nil_append]
    case tabular => exact ⟨by simp, by simp [IsKey, isBare], by simp⟩
    case writable => simp
    case read_eq =>
      intro h r
      simp only [List.forall_mem_cons] at h
      -- Left to computation, a step would open `word` and count down from its bound.
      simp -implicitDefEqProofs [read, h, standard]
  | some memory =>
    have hmembers : (toJson ⟨context, some memory, items⟩).setMembers = [("context_capacity", .int context),
        ("memory_capacity", .int memory), ("handler_context_items", .int items)] := rfl
    constructor <;> simp only [hmembers, numbers, Option.toList, List.cons_append, List.nil_append]
    case tabular => exact ⟨by simp, by simp [IsKey, isBare], by simp⟩
    case writable => simp
    case read_eq =>
      intro h r
      simp only [List.forall_mem_cons] at h
      simp -implicitDefEqProofs [read, h]

def ExecutionSettings.numbers (s : ExecutionSettings) : List Nat :=
  [s.timeout]

theorem ExecutionSettings.kept (s : ExecutionSettings) : Kept s s.toJson s.numbers read := by
  have hmembers : s.toJson.setMembers = [("default_timeout_ms", .int s.timeout)] := rfl
  constructor <;> simp only [hmembers, numbers]
  case tabular => exact ⟨by simp, by simp [IsKey, isBare], by simp⟩
  case writable => simp
  case read_eq =>
    intro h r
    simp only [List.forall_mem_cons] at h
    simp -implicitDefEqProofs [read, h]

def IntrospectionSettings.numbers (s : IntrospectionSettings) : List Nat :=
  [s.halfLife, s.maxDepth]

theorem IntrospectionSettings.kept (s : IntrospectionSettings) : Kept s s.toJson s.numbers read := by
  have hmembers : s.toJson.setMembers = [("attention_percentile", .float s.percentile),
      ("half_life_secs", .int s.halfLife), ("max_depth", .int s.maxDepth), ("skip_hidden", .bool s.skipHidden),
      ("ignore", .ofStrings s.ignore)] := rfl
  constructor <;> simp only [hmembers, numbers]
  case tabular => exact ⟨by simp, by simp [IsKey, isBare], by simp⟩
  case writable => simp [write?]
  case read_eq =>
    intro h r
    simp only [List.forall_mem_cons] at h
    simp -implicitDefEqProofs [read, h]

def GraphSettings.numbers (s : GraphSettings) : List Nat :=
  [s.minSharedTopics, s.maxTopicFanout, s.memoryCapacity]

theorem GraphSettings.kept (s : GraphSettings) : Kept s s.toJson s.numbers read := by
  have hmembers : s.toJson.setMembers = [("ancestry_edges", .bool s.ancestryEdges), ("topic_edges", .bool s.topicEdges),
      ("min_shared_topics", .int s.minSharedTopics), ("max_topic_fanout", .int s.maxTopicFanout),
      ("memory_capacity", .int s.memoryCapacity)] := rfl
  constructor <;> simp only [hmembers, numbers]
  case tabular => exact ⟨by simp, by simp [IsKey, isBare], by simp⟩
  case writable => simp [write?]
  case read_eq =>
    intro h r
    simp only [List.forall_mem_cons] at h
    simp -implicitDefEqProofs [read, h]

def CognitionSettings.numbers (s : CognitionSettings) : List Nat :=
  [s.outcomeWindow, s.introspectionHistory]

theorem CognitionSettings.kept (s : CognitionSettings) : Kept s s.toJson s.numbers read := by
  have hmembers : s.toJson.setMembers = [("outcome_window", .int s.outcomeWindow),
      ("introspection_history", .int s.introspectionHistory)] := rfl
  constructor <;> simp only [hmembers, numbers]
  case tabular => exact ⟨by simp, by simp [IsKey, isBare], by simp⟩
  case writable => simp
  case read_eq =>
    intro h r
    simp only [List.forall_mem_cons] at h
    simp -implicitDefEqProofs [read, h]

namespace Settings

/-- The numbers in all sections. -/
def numbers (s : Settings) : List Nat :=
  s.agents.numbers ++ s.execution.numbers ++ s.introspection.numbers ++ s.graph.numbers ++ s.cognition.numbers

section

variable (s : Settings)

theorem sections_eq : s.sections =
    [("agents", s.agents.toJson.setMembers), ("execution", s.execution.toJson.setMembers),
      ("introspection", s.introspection.toJson.setMembers), ("graph", s.graph.toJson.setMembers),
      ("cognition", s.cognition.toJson.setMembers)] :=
  rfl

theorem sectioned : Sectioned s.sections := by
  rw [sections_eq]
  constructor
  case nodup_names => simp
  case isKey_name => simp [IsKey, isBare]
  case tabular =>
    simp [s.agents.kept.tabular, s.execution.kept.tabular, s.introspection.kept.tabular, s.graph.kept.tabular,
      s.cognition.kept.tabular]

/-- Settings have a text if each of their numbers has one. -/
theorem isSome_writeSections?_iff :
    (writeSections? s.sections).isSome = true ↔ ∀ n ∈ s.numbers, n < 2 ^ 63 := by
  rw [isSome_writeSections?, sections_eq, numbers]
  simp only [List.forall_mem_cons, List.forall_mem_append, s.agents.kept.writable, s.execution.kept.writable,
    s.introspection.kept.writable, s.graph.kept.writable, s.cognition.kept.writable, List.not_mem_nil, false_implies,
    implies_true, and_true, and_assoc]

variable {s}

/-- Numbers may be as large as a word when they are read. -/
theorem read_sections (h : ∀ n ∈ s.numbers, n < 2 ^ 64) (r : Reading) :
    read r (.obj (s.sections.map fun part => (part.1, .obj part.2))) = some s := by
  have hwords : ∀ n ∈ s.numbers, word (.int n) = some n := fun n hn => word_int (h n hn)
  simp only [numbers, List.forall_mem_append] at hwords
  obtain ⟨⟨⟨⟨hagents, hexecution⟩, hintrospection⟩, hgraph⟩, hcognition⟩ := hwords
  rw [sections_eq]
  simp [read, s.agents.kept.read_eq hagents, s.execution.kept.read_eq hexecution,
    s.introspection.kept.read_eq hintrospection, s.graph.kept.read_eq hgraph, s.cognition.kept.read_eq hcognition]

theorem ofToml?_empty : ofToml? "" = some standard := by
  have hparse : parse? "" = some (.obj []) := by rfl
  rw [ofToml?, hparse, Option.bind_some]
  simp [read, standard]

/-- Settings come back from their text. -/
theorem ofToml?_toToml (h : ∀ n ∈ s.numbers, n < 2 ^ 63) : ofToml? s.toToml = some s := by
  obtain ⟨text, htext⟩ := Option.isSome_iff_exists.1 ((isSome_writeSections?_iff s).2 h)
  rw [toToml, htext, Option.getD_some, ofToml?, parse?_writeSections? htext (sectioned s), Option.bind_some]
  exact read_sections (fun n hn => (h n hn).trans (by decide)) .lenient

/-- One number without a text takes the text of everything else. -/
theorem toToml_eq_empty (h : ∃ n ∈ s.numbers, 2 ^ 63 ≤ n) : s.toToml = "" := by
  have hnone : writeSections? s.sections = none := by
    rw [← Option.not_isSome_iff_eq_none, isSome_writeSections?_iff]
    exact fun hall => let ⟨n, hn, hle⟩ := h; absurd (hall n hn) (Nat.not_lt.2 hle)
  rw [toToml, hnone, Option.getD_none]

theorem standard_ne (h : ∃ n ∈ s.numbers, 2 ^ 63 ≤ n) : standard ≠ s := by
  rintro rfl
  revert h
  decide

/-- A file with the text of settings can always be read.  The settings in it are the ones that were written if all their
numbers fit into 64 bits with a sign; otherwise the file is empty, and the standard settings take their place. -/
theorem load_toToml {w : Files.World} {path : String} (h : w.readText path = .ok s.toToml) :
    ofToml? s.toToml = some (load w path) ∧ ((∀ n ∈ s.numbers, n < 2 ^ 63) → load w path = s) ∧
      ((∃ n ∈ s.numbers, 2 ^ 63 ≤ n) → s.toToml = "" ∧ load w path = standard ∧ load w path ≠ s) := by
  have hload : load w path = (ofToml? s.toToml).getD standard := by rw [load, h]
  by_cases hfit : ∀ n ∈ s.numbers, n < 2 ^ 63
  · have hread := ofToml?_toToml hfit
    have heq : load w path = s := by rw [hload, hread, Option.getD_some]
    refine ⟨by rw [heq, hread], fun _ => heq, ?_⟩
    rintro ⟨n, hn, hle⟩
    exact absurd (hfit n hn) (Nat.not_lt.2 hle)
  · have hlarge : ∃ n ∈ s.numbers, 2 ^ 63 ≤ n := by simpa using hfit
    have htext := toToml_eq_empty hlarge
    have heq : load w path = standard := by rw [hload, htext, ofToml?_empty, Option.getD_some]
    refine ⟨by rw [heq, htext, ofToml?_empty], fun h => absurd h hfit, fun _ => ⟨htext, heq, ?_⟩⟩
    rw [heq]
    exact standard_ne hlarge

end

/-- Settings with strings that need several kinds of quotes. -/
def sampleSettings : Settings :=
  { standard with
    agents := ⟨4, some 100, 2⟩
    introspection := ⟨0.5, 3600, 8, false, ["it's", "a \"b\"", "C:\\new", "\t"]⟩ }

/-- Nothing but a settings file with this text. -/
def sampleHome (text : String) : Files.World where
  top := .dir [("deeptree.toml", .file text.toUTF8 0)]
  current := []

theorem readText_sampleHome (text : String) : (sampleHome text).readText "deeptree.toml" = .ok text := by
  have hreaches : (sampleHome text).Reaches "deeptree.toml" ["deeptree.toml"] :=
    ⟨by decide, 0, Nat.zero_le _, .down rfl (by decide) (by decide) rfl (fun _ => nofun) (.done _)⟩
  have hnode : (sampleHome text).node? "deeptree.toml" = some (.file text.toUTF8 0) := hreaches.node?_eq
  have hutf : String.fromUTF8? text.toUTF8 = some text := dif_pos text.isValidUTF8
  rw [Files.World.readText, hnode]
  simp only [hutf]

theorem load_toToml_sampleSettings : (∀ n ∈ sampleSettings.numbers, n < 2 ^ 63) ∧
    (sampleHome sampleSettings.toToml).readText "deeptree.toml" = .ok sampleSettings.toToml ∧
    load (sampleHome sampleSettings.toToml) "deeptree.toml" = sampleSettings := by
  have hfit : ∀ n ∈ sampleSettings.numbers, n < 2 ^ 63 := by decide
  have hread := readText_sampleHome sampleSettings.toToml
  exact ⟨hfit, hread, (load_toToml hread).2.1 hfit⟩

/-- The largest deadline of all, with which no handler is given up. -/
def endlessSettings : Settings :=
  { standard with execution := ⟨2 ^ 64 - 1⟩ }

/-- A number of 64 bits is not kept, and neither is any other setting. -/
theorem toToml_endlessSettings : (∀ n ∈ endlessSettings.numbers, n < 2 ^ 64) ∧ endlessSettings.toToml = "" ∧
    ofToml? endlessSettings.toToml = some standard ∧ standard ≠ endlessSettings := by
  have hlarge : ∃ n ∈ endlessSettings.numbers, 2 ^ 63 ≤ n := by decide
  have htext := toToml_eq_empty hlarge
  exact ⟨by decide, htext, by rw [htext, ofToml?_empty], standard_ne hlarge⟩

end Settings

end EchoEngine
