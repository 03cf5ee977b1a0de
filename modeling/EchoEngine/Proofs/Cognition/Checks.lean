import EchoEngine.Cognition.Diagnostics
import Mathlib.Algebra.Group.Nat.Defs
import Mathlib.Data.List.Nodup

/-!
# What the checks say

Whatever the state, the same checks are made in the same order, each under a name of its own, so a diagnosis holds
the check of a name at its place (`check?_eq`).  What a check results in is read off the fields it looks at.
-/

namespace EchoEngine

namespace Diagnostics

/-- The names of the checks, in the order in which they are made. -/
def names : List String :=
  ["capability_registry", "agent_pool", "cognitive_state_ranges", "integrations", "cognitive_core",
    "memory_resonance"]

theorem names_checks (s : State Float) (i : Inventory) : (checks s i).map (·.name) = names := by
  have hagents : (agentPool i).name = "agent_pool" := by
    unfold agentPool
    split <;> rfl
  have hintegrations : (integrations s).name = "integrations" := by
    unfold integrations
    split <;> rfl
  have hcore : (cognitiveCore s).name = "cognitive_core" := by
    unfold cognitiveCore
    split <;> rfl
  have hresonance : (memoryResonance s).name = "memory_resonance" := by
    unfold memoryResonance
    dsimp only
    split
    · rfl
    · split <;> rfl
  simp [checks, names, hagents, hintegrations, hcore, hresonance, capabilityRegistry, stateRanges]

/-- A diagnosis holds the check of a name at the place of the name. -/
theorem check?_eq (s : State Float) (i : Inventory) (now : Timestamp) {k : Nat} {name : String}
    (h : names[k]? = some name) : (run s i now).check? name = (checks s i)[k]? := by
  have hnodup : ((checks s i).map (·.name)).Nodup := by
    rw [names_checks]
    decide
  rw [← names_checks s i, List.getElem?_map, Option.map_eq_some_iff] at h
  obtain ⟨c, hc, hname⟩ := h
  rw [hc]
  have hmem : c ∈ checks s i := List.mem_of_getElem? hc
  obtain ⟨c', hc'⟩ : ∃ c', (checks s i).find? (fun c => c.name = name) = some c' := by
    rw [← Option.isSome_iff_exists, List.find?_isSome]
    exact ⟨c, hmem, decide_eq_true hname⟩
  have hname' : c'.name = name := by simpa using List.find?_some hc'
  rw [Diagnosis.check?, run, hc',
    List.inj_on_of_nodup_map hnodup (List.mem_of_find?_eq_some hc') hmem (hname'.trans hname.symm)]

theorem check?_stateRanges (s : State Float) (i : Inventory) (now : Timestamp) :
    (run s i now).check? "cognitive_state_ranges" = some (stateRanges s) :=
  check?_eq s i now (k := 2) rfl

theorem check?_integrations (s : State Float) (i : Inventory) (now : Timestamp) :
    (run s i now).check? "integrations" = some (integrations s) :=
  check?_eq s i now (k := 3) rfl

theorem check?_cognitiveCore (s : State Float) (i : Inventory) (now : Timestamp) :
    (run s i now).check? "cognitive_core" = some (cognitiveCore s) :=
  check?_eq s i now (k := 4) rfl

theorem check?_memoryResonance (s : State Float) (i : Inventory) (now : Timestamp) :
    (run s i now).check? "memory_resonance" = some (memoryResonance s) :=
  check?_eq s i now (k := 5) rfl

/-! ### Results -/

variable {α : Type} {s : State α}

theorem status_integrations_eq_fail_iff :
    (integrations s).status = .fail ↔ s.integrations.requiredDown ≠ [] := by
  unfold integrations
  cases s.integrations.requiredDown with
  | nil => cases unsettled s.integrations <;> exact iff_of_false nofun fun h => h rfl
  | cons name down => exact iff_of_true rfl nofun

theorem status_cognitiveCore_eq_pass_iff :
    (cognitiveCore s).status = .pass ↔ s.core = .active ∧ s.health ≠ .critical := by
  unfold cognitiveCore
  cases s.core <;> cases s.health <;> simp

/-- The product of the check fits 64 bits if there are at most two to the power of 32 nodes. -/
theorem maxConnections_eq {nodes : Nat} (h : nodes ≤ 2 ^ 32) : maxConnections nodes = nodes * (nodes - 1) / 2 := by
  have hfits : nodes * (nodes - 1) ≤ Nat.pow 2 64 - 1 :=
    calc nodes * (nodes - 1) ≤ 2 ^ 32 * (2 ^ 32 - 1) := Nat.mul_le_mul h (Nat.sub_le_sub_right h 1)
      _ ≤ Nat.pow 2 64 - 1 := by decide
  rw [maxConnections, Nat.min_eq_left hfits]

/-- A graph in which every connection is a pair of nodes passes the check unless it is empty. -/
theorem status_memoryResonance (hnodes : s.resonance.nodes ≤ 2 ^ 32)
    (h : s.resonance.connections ≤ s.resonance.nodes * (s.resonance.nodes - 1) / 2) :
    (memoryResonance s).status = if s.resonance.nodes = 0 then .warn else .pass := by
  rw [← maxConnections_eq hnodes] at h
  rw [memoryResonance, if_neg (Nat.not_lt.2 h)]
  split <;> rfl

end Diagnostics

end EchoEngine
