import EchoEngine.Engine.Basic
import EchoEngine.Proofs.Capability.Registry
import EchoEngine.Proofs.Capability.Workspace

/-!
# Default registration

Default handlers are registered one after another, up to the first name that is taken (`Fills`).  If all names are
free the registry holds these handlers besides what it held before.  If not, it keeps those that came before the
first name taken, so it is as it was only if that is the name of the very first handler (`Fills.eq_iff`).  From then
on that handler's name is taken in any case, and a further attempt adds nothing (`Fills.again`).
-/

namespace EchoEngine

namespace Registry

variable {r r' : Registry} {h : Handler} {hs : List Handler} {x : Registry × Option Error}

/-- A registry binds what another one does, and handlers to their names where that one binds nothing. -/
structure Adds (r : Registry) (hs : List Handler) (r' : Registry) : Prop where
  kind_eq : r'.kind = r.kind
  get?_eq : ∀ name, r'.get? name = (r.get? name).or (hs.find? fun h => h.name = name)

theorem Adds.eq_of_nil (h : Adds r [] r') : r' = r :=
  eq_of_get?_eq h.kind_eq fun name => (h.get?_eq name).trans Option.or_none

theorem Adds.cons (hadds : Adds (r.step (.register h)) hs r') : Adds r (h :: hs) r' := by
  refine ⟨hadds.kind_eq.trans (kind_step _ _), fun name => ?_⟩
  rw [hadds.get?_eq, get?_register, Option.or_assoc, List.find?_cons]
  by_cases hname : h.name = name <;> simp [hname]

theorem Adds.contains_head (hadds : Adds r (h :: hs) r') : r'.contains h.name = true := by
  have hfirst : (h :: hs).find? (fun h' => h'.name = h.name) = some h := List.find?_cons_of_pos (decide_eq_true rfl)
  rw [contains_eq_isSome, hadds.get?_eq, hfirst]
  cases r.get? h.name <;> rfl

/-- What becomes of a registry when handlers are registered one after another. -/
inductive Fills (r : Registry) (hs : List Handler) : Registry × Option Error → Prop
  /-- All names are free, and all handlers are added. -/
  | all {r' : Registry} (hfree : ∀ h ∈ hs, r.contains h.name = false) (hadds : Adds r hs r') : Fills r hs (r', none)
  /-- A name is taken, the first one that is, and the handlers before it are added. -/
  | upTo {before after : List Handler} {h : Handler} {r' : Registry} (hsplit : hs = before ++ h :: after)
    (hfree : ∀ h' ∈ before, r.contains h'.name = false) (htaken : r.contains h.name = true)
    (hadds : Adds r before r') : Fills r hs (r', some (.duplicateName r.kind.noun h.name))

theorem Fills.cons (hfree : r.contains h.name = false) (hnames : h.name ∉ hs.map Handler.name)
    (hfills : Fills (r.step (.register h)) hs x) : Fills r (h :: hs) x := by
  -- the handler added in front takes no name that another one needs
  have hsame : ∀ h' ∈ hs, (r.step (.register h)).contains h'.name = r.contains h'.name := by
    intro h' hmem
    have hne : h.name ≠ h'.name := fun heq => hnames (List.mem_map.2 ⟨h', hmem, heq.symm⟩)
    rw [contains_eq_isSome, contains_eq_isSome, get?_register, if_neg hne, Option.or_none]
  cases hfills with
  | all hrest hadds =>
    refine .all ?_ hadds.cons
    intro h' hmem
    rcases List.mem_cons.1 hmem with rfl | hmem
    · exact hfree
    · rw [← hsame h' hmem]
      exact hrest h' hmem
  | @upTo before after h' _ hsplit hrest htaken hadds =>
    have hsub : ∀ h'' ∈ before, h'' ∈ hs := fun h'' hmem => hsplit ▸ List.mem_append_left _ hmem
    have hmem : h' ∈ hs := hsplit ▸ List.mem_append_right _ (.head _)
    rw [kind_step]
    have hsplit' : h :: hs = (h :: before) ++ h' :: after := congrArg _ hsplit
    refine .upTo hsplit' ?_ (hsame h' hmem ▸ htaken) hadds.cons
    intro h'' hmem'
    rcases List.mem_cons.1 hmem' with rfl | hmem'
    · exact hfree
    · rw [← hsame h'' (hsub h'' hmem')]
      exact hrest h'' hmem'

theorem fills_registerAll (hnames : (hs.map Handler.name).Nodup) (r : Registry) : Fills r hs (r.registerAll hs) := by
  induction hs generalizing r with
  | nil => exact .all (List.forall_mem_nil _) ⟨rfl, fun _ => Option.or_none.symm⟩
  | cons h hs ih =>
    rw [List.map_cons, List.nodup_cons] at hnames
    cases htaken : r.contains h.name with
    | true =>
      rw [registerAll, register_of_contains htaken]
      have hsplit : h :: hs = [] ++ h :: hs := rfl
      exact .upTo hsplit (List.forall_mem_nil _) htaken ⟨rfl, fun _ => Option.or_none.symm⟩
    | false =>
      have hstep : r.registerAll (h :: hs) = (r.step (.register h)).registerAll hs := by
        rw [registerAll, step, register_of_free htaken]
        rfl
      rw [hstep]
      exact (ih hnames.2 _).cons htaken hnames.1

/-- A registration that fails leaves the registry as it was only if it fails at once. -/
theorem Fills.eq_iff (hfills : Fills r (h :: hs) x) (hfailed : x.2.isSome = true) :
    x.1 = r ↔ r.contains h.name = true := by
  cases hfills with
  | all => cases hfailed
  | @upTo before _ _ r' hsplit hfree htaken hadds =>
    cases before with
    | nil =>
      obtain ⟨rfl, -⟩ := List.cons_eq_cons.1 hsplit
      exact iff_of_true hadds.eq_of_nil htaken
    | cons =>
      obtain ⟨rfl, -⟩ := List.cons_eq_cons.1 hsplit
      have hnone := Bool.eq_false_iff.1 (hfree h (.head _))
      refine iff_of_false (fun heq : r' = r => ?_) hnone
      exact hnone (heq ▸ hadds.contains_head)

/-- Whether or not it has failed, registration fails at once when it is repeated. -/
theorem Fills.again (hfills : Fills r (h :: hs) x) :
    x.1.registerAll (h :: hs) = (x.1, some (.duplicateName r.kind.noun h.name)) := by
  have hagain : x.1.kind = r.kind ∧ x.1.contains h.name = true := by
    cases hfills with
    | all _ hadds => exact ⟨hadds.kind_eq, hadds.contains_head⟩
    | @upTo before _ _ _ hsplit _ htaken hadds =>
      cases before with
      | nil =>
        obtain ⟨rfl, -⟩ := List.cons_eq_cons.1 hsplit
        exact ⟨hadds.kind_eq, hadds.eq_of_nil ▸ htaken⟩
      | cons =>
        obtain ⟨rfl, -⟩ := List.cons_eq_cons.1 hsplit
        exact ⟨hadds.kind_eq, hadds.contains_head⟩
  rw [registerAll, register_of_contains hagain.2, hagain.1]

end Registry

namespace Defaults

open Registry

theorem nodup_names_tools (ws : Workspace) : ((tools ws).map Handler.name).Nodup := by
  change ["text_stats", "text_transform", "read", "glob"].Nodup
  decide

theorem nodup_names_plugins : (plugins.map Handler.name).Nodup := by
  change ["data_analysis", "text_processing"].Nodup
  decide

theorem fills_registerTools (r : Registry) (ws : Workspace) : Fills r (tools ws) (registerTools r ws) :=
  fills_registerAll (nodup_names_tools ws) r

theorem fills_registerPlugins (r : Registry) : Fills r plugins (registerPlugins r) :=
  fills_registerAll nodup_names_plugins r

/-- Default handlers fill a registry, and nothing else of an engine changes.  A failure leaves the registry as it was
exactly if the first name of all is taken, and a second attempt changes nothing and fails. -/
theorem fills_registerDefaults (e : Engine) (world : Files.World) (root : String) :
    (∃ x, e.registerDefaultTools world root = ({ e with tools := x.1 }, x.2) ∧
      Fills e.tools (tools (.new world root)) x ∧
      (x.2.isSome → (x.1 = e.tools ↔ e.tools.contains "text_stats" = true)) ∧
      registerTools x.1 (.new world root) = (x.1, some (.duplicateName e.tools.kind.noun "text_stats"))) ∧
    ∃ x, e.registerDefaultPlugins = ({ e with plugins := x.1 }, x.2) ∧
      Fills e.plugins plugins x ∧
      (x.2.isSome → (x.1 = e.plugins ↔ e.plugins.contains "data_analysis" = true)) ∧
      registerPlugins x.1 = (x.1, some (.duplicateName e.plugins.kind.noun "data_analysis")) := by
  have htools := fills_registerTools e.tools (.new world root)
  have hplugins := fills_registerPlugins e.plugins
  exact ⟨⟨_, rfl, htools, htools.eq_iff, htools.again⟩, _, rfl, hplugins, hplugins.eq_iff, hplugins.again⟩

/-- A registry that has a tool of its own under the name of the last default one. -/
def sampleRegistry : Registry :=
  (Registry.empty .tool).step (.register (sampleHandler "glob" "their own"))

/-- All default tools but the last one are added before the registration fails. -/
theorem registerTools_taken_sampleRegistry :
    (registerTools sampleRegistry (.new Workspace.sampleWorld "/work")).2 = some (.duplicateName "tool" "glob") ∧
      sampleRegistry.contains "text_stats" = false ∧
      (registerTools sampleRegistry (.new Workspace.sampleWorld "/work")).1.contains "text_stats" = true := by
  have htaken : ∀ name, sampleRegistry.contains name = true ↔ "glob" = name := fun name => by
    have hget := get?_register (Registry.empty .tool) (sampleHandler "glob" "their own") name
    change sampleRegistry.get? name = if "glob" = name then some _ else none at hget
    rw [contains_iff_get?, hget]
    split <;> simp [*]
  have hfree : sampleRegistry.contains "text_stats" = false :=
    Bool.eq_false_iff.2 fun h => absurd ((htaken _).1 h) (by decide)
  generalize Workspace.new Workspace.sampleWorld "/work" = ws
  have hfills := fills_registerTools sampleRegistry ws
  generalize registerTools sampleRegistry ws = x at hfills
  cases hfills with
  | all hall =>
    have hlast := hall (FindFiles.tool ws) (by simp [tools])
    exact absurd ((htaken "glob").2 rfl) (Bool.eq_false_iff.1 hlast)
  | @upTo before after h r' hsplit _ hbound hadds =>
    cases before with
    | nil =>
      obtain ⟨rfl, -⟩ := List.cons_eq_cons.1 hsplit
      exact absurd ((htaken _).1 hbound) (by decide)
    | cons first before =>
      obtain ⟨rfl, -⟩ := List.cons_eq_cons.1 hsplit
      rw [← (htaken h.name).1 hbound]
      exact ⟨rfl, hfree, hadds.contains_head⟩

end Defaults

end EchoEngine
