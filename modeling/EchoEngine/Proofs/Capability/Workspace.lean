import EchoEngine.Capability.ReadFile
import EchoEngine.Proofs.Files.Resolution

/-!
# Confinement to a workspace

A path is looked up in a workspace with its links followed, and the place that it leads to decides: inside of
the root it is found there, outside it is refused, and a path that leads nowhere is missing (`Confines`).  So
whatever `read` shows is the text of a file inside of the root.

All of this holds of any files at the time of the lookup, whatever has become of those that were there when the
workspace was made: the root is a list of names settled then.
-/

namespace EchoEngine

open Files World

/-- What succeeds one after the other succeeds one by one. -/
theorem exists_of_bind_eq_ok {ε α β : Type} {x : Except ε α} {f : α → Except ε β} {b : β}
    (h : x >>= f = .ok b) : ∃ a, x = .ok a ∧ f a = .ok b := by
  cases x with
  | error e => cases h
  | ok a => exact ⟨a, rfl, h⟩

namespace Workspace

/-- What a workspace answers about paths when its root is a list of names. -/
structure Confines (ws : Workspace) (base : List String) : Prop where
  found_iff : ∀ path found, ws.existing path = .ok found ↔
    ∃ place, ws.world.Reaches (Path.join ws.root path) place ∧ base <+: place ∧ found = Path.absolute place
  missing_iff : ∀ path, (∃ missing, ws.existing path = .error (.pathNotFound missing)) ↔
    ¬∃ place, ws.world.Reaches (Path.join ws.root path) place
  refused_iff : ∀ path, (∃ reason, ws.existing path = .error (.invalidParameter reason)) ↔
    ∃ place, ws.world.Reaches (Path.join ws.root path) place ∧ ¬base <+: place
  /-- What is found is really there, and its path leads nowhere else. -/
  canonical : ∀ path found, ws.existing path = .ok found →
    ∃ place, found = Path.absolute place ∧ ws.world.top.Real place ∧ ws.world.Reaches found place
  /-- What is read is the text of a file inside. -/
  read_inside : ∀ p shown, ReadFile.read ws p = .ok shown →
    ∃ place bytes modified text first limit, base <+: place ∧ ws.world.top.Real place ∧
      ws.world.top.find? place = some (.file bytes modified) ∧ String.fromUTF8? bytes = some text ∧
      shown = ReadFile.page first limit text

theorem root_new {w : World} {root : String} {base : List String} (h : w.Reaches root base) :
    (Workspace.new w root).root = Path.absolute base := by
  rw [Workspace.new, canonical?, resolve?_eq_some_iff.2 h]
  rfl

/-! ### Looking up -/

section

variable {ws : Workspace} {base place : List String} {path found : String}

theorem existing_of_not_reaches (h : ¬∃ place, ws.world.Reaches (Path.join ws.root path) place) :
    ws.existing path = .error (.pathNotFound (Path.join ws.root path)) := by
  rw [existing]
  simp only [canonical?, resolve?_eq_none_iff.2 h, Option.map_none]

/-- A lookup answers by the text of the place that a path leads to. -/
theorem existing_of_reaches_join (h : ws.world.Reaches (Path.join ws.root path) place) :
    ws.existing path = if Path.isWithin ws.root (Path.absolute place) then .ok (Path.absolute place)
      else .error (.invalidParameter ("path escapes workspace: " ++ path)) := by
  rw [existing]
  simp only [canonical?, resolve?_eq_some_iff.2 h, Option.map_some]

/-- What is found lies at the end of the path and, as a text, within the root. -/
theorem existing_eq_ok_iff_isWithin : ws.existing path = .ok found ↔
    ∃ place, ws.world.Reaches (Path.join ws.root path) place ∧ Path.isWithin ws.root (Path.absolute place) = true ∧
      found = Path.absolute place := by
  constructor
  · intro hok
    by_cases hreaches : ∃ place, ws.world.Reaches (Path.join ws.root path) place
    · obtain ⟨place, hreaches⟩ := hreaches
      rw [existing_of_reaches_join hreaches] at hok
      split at hok
      · rename_i hin
        exact ⟨place, hreaches, hin, (Except.ok.inj hok).symm⟩
      · cases hok
    · rw [existing_of_not_reaches hreaches] at hok
      cases hok
  · rintro ⟨place, hreaches, hin, rfl⟩
    rw [existing_of_reaches_join hreaches, if_pos hin]

variable (hroot : ws.root = Path.absolute base) (hbase : Names base)

include hroot

/-- Seen from an absolute path, a path leads to names, wherever the program runs. -/
theorem names_of_reaches (h : ws.world.Reaches (Path.join ws.root path) place) : Names place := by
  rw [hroot] at h
  exact h.names_of_isAbsolute (Path.isAbsolute_join base path)

include hbase

/-- A lookup answers by the place that a path leads to. -/
theorem existing_of_reaches (h : ws.world.Reaches (Path.join ws.root path) place) :
    ws.existing path = if base <+: place then .ok (Path.absolute place)
      else .error (.invalidParameter ("path escapes workspace: " ++ path)) := by
  have hplace := names_of_reaches hroot h
  rw [existing_of_reaches_join h, hroot]
  by_cases hin : base <+: place
  · rw [if_pos hin, if_pos ((Path.isWithin_absolute hbase hplace).2 hin)]
  · rw [if_neg hin, if_neg fun hwithin => hin ((Path.isWithin_absolute hbase hplace).1 hwithin)]

theorem existing_eq_ok_iff : ws.existing path = .ok found ↔
    ∃ place, ws.world.Reaches (Path.join ws.root path) place ∧ base <+: place ∧
      found = Path.absolute place := by
  rw [existing_eq_ok_iff_isWithin]
  refine exists_congr fun place => and_congr_right fun hreaches => and_congr_left fun _ => ?_
  rw [hroot, Path.isWithin_absolute hbase (names_of_reaches hroot hreaches)]

theorem existing_eq_pathNotFound_iff : (∃ missing, ws.existing path = .error (.pathNotFound missing)) ↔
    ¬∃ place, ws.world.Reaches (Path.join ws.root path) place := by
  refine ⟨?_, fun hnone => ⟨_, existing_of_not_reaches hnone⟩⟩
  rintro ⟨missing, hmissing⟩ ⟨place, hreaches⟩
  rw [existing_of_reaches hroot hbase hreaches] at hmissing
  split at hmissing <;> cases hmissing

theorem existing_eq_invalidParameter_iff :
    (∃ reason, ws.existing path = .error (.invalidParameter reason)) ↔
      ∃ place, ws.world.Reaches (Path.join ws.root path) place ∧ ¬base <+: place := by
  constructor
  · rintro ⟨reason, hreason⟩
    by_cases hreaches : ∃ place, ws.world.Reaches (Path.join ws.root path) place
    · obtain ⟨place, hreaches⟩ := hreaches
      refine ⟨place, hreaches, fun hin => ?_⟩
      rw [existing_of_reaches hroot hbase hreaches, if_pos hin] at hreason
      cases hreason
    · rw [existing_of_not_reaches hreaches] at hreason
      cases hreason
  · rintro ⟨place, hreaches, hout⟩
    exact ⟨_, (existing_of_reaches hroot hbase hreaches).trans (if_neg hout)⟩

/-- What is found is inside, and its path leads to it through no link. -/
theorem exists_real_of_existing (h : ws.existing path = .ok found) :
    ∃ place, base <+: place ∧ found = Path.absolute place ∧ ws.world.top.Real place ∧
      ws.world.Reaches found place := by
  obtain ⟨place, hreaches, hin, rfl⟩ := (existing_eq_ok_iff hroot hbase).1 h
  exact ⟨place, hin, rfl, hreaches.real, hreaches.absolute (names_of_reaches hroot hreaches)⟩

end

/-! ### Reading -/

/-- What is read is the text of a file that has been looked up. -/
theorem exists_existing_of_read {ws : Workspace} {p : Parameters} {shown : String}
    (h : ReadFile.read ws p = .ok shown) :
    ∃ path file text first limit, ws.existing path = .ok file ∧ ws.world.readText file = .ok text ∧
      shown = ReadFile.page first limit text := by
  unfold ReadFile.read at h
  obtain ⟨given, -, h⟩ := exists_of_bind_eq_ok h
  extract_lets rest at h
  have hrest : ∃ path, rest path = .ok shown := by
    split at h
    · exact ⟨_, h⟩
    · obtain ⟨path, -, h⟩ := exists_of_bind_eq_ok h
      exact ⟨path, h⟩
  obtain ⟨path, h⟩ := hrest
  obtain ⟨first, -, h⟩ := exists_of_bind_eq_ok h
  obtain ⟨limit, -, h⟩ := exists_of_bind_eq_ok h
  obtain ⟨file, hfile, h⟩ := exists_of_bind_eq_ok h
  split at h
  · rename_i text htext
    cases h
    exact ⟨path, file, text, _, _, hfile, htext, rfl⟩
  · cases h

/-- A path found inside is the path of a file if its text can be read. -/
theorem exists_file_of_readText {w : World} {place : List String} {found text : String}
    (h : w.Reaches found place) (htext : w.readText found = .ok text) :
    ∃ bytes modified, w.top.find? place = some (.file bytes modified) ∧ String.fromUTF8? bytes = some text := by
  have hnode : w.node? found = w.top.find? place := by
    rw [node?, resolve?_eq_some_iff.2 h, Option.bind_some]
  unfold readText at htext
  rw [hnode] at htext
  split at htext
  · rename_i bytes modified hfind
    split at htext
    · rename_i text' hutf
      cases htext
      exact ⟨bytes, modified, hfind, hutf⟩
    · cases htext
  · cases htext
  · cases htext

/-- A workspace made of a directory that is there confines what is looked up and read in it, whatever files
there are at that time. -/
theorem confines_new {w : World} (hcurrent : Names w.current) {root : String} {base : List String}
    (hroot : w.Reaches root base) (after : World) :
    Confines { Workspace.new w root with world := after } base := by
  have hbase : Names base := hroot.names hcurrent
  have hws : ({ Workspace.new w root with world := after } : Workspace).root = Path.absolute base :=
    root_new hroot
  constructor
  case found_iff => exact fun path found => existing_eq_ok_iff hws hbase
  case missing_iff => exact fun path => existing_eq_pathNotFound_iff hws hbase
  case refused_iff => exact fun path => existing_eq_invalidParameter_iff hws hbase
  case canonical =>
    intro path found hok
    obtain ⟨place, -, h⟩ := exists_real_of_existing hws hbase hok
    exact ⟨place, h⟩
  case read_inside =>
    intro p shown hread
    obtain ⟨path, file, text, first, limit, hok, htext, rfl⟩ := exists_existing_of_read hread
    obtain ⟨place, hin, rfl, hreal, hreaches⟩ := exists_real_of_existing hws hbase hok
    obtain ⟨bytes, modified, hfile, hutf⟩ := exists_file_of_readText hreaches htext
    exact ⟨place, bytes, modified, text, first, limit, hin, hreal, hfile, hutf, rfl⟩

/-- A directory with a file and with a link to a directory beside it. -/
def sampleWorld : World where
  top := .dir [
    ("work", .dir [("inside.txt", .file "i".toUTF8 0), ("link", .link "../outside")]),
    ("outside", .dir [("secret.txt", .file "s".toUTF8 0)])]
  current := ["work"]

theorem names_sampleWorld : Names sampleWorld.current := by
  intro s hs
  rw [List.mem_singleton.1 hs]
  exact ⟨by decide, by decide, by decide, by decide⟩

theorem reaches_sampleWorld : sampleWorld.Reaches "/work" ["work"] :=
  ⟨by decide, 0, Nat.zero_le _, .down rfl (by decide) (by decide) rfl (fun _ => nofun) (.done _)⟩

theorem confines_new_sampleWorld : Names sampleWorld.current ∧ sampleWorld.Reaches "/work" ["work"] ∧
    Confines { Workspace.new sampleWorld "/work" with world := sampleWorld } ["work"] :=
  ⟨names_sampleWorld, reaches_sampleWorld, confines_new names_sampleWorld reaches_sampleWorld sampleWorld⟩

end Workspace

end EchoEngine
