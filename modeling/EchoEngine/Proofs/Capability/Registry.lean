import EchoEngine.Capability.Registry
import EchoEngine.Proofs.Text.ByteOrder
import Mathlib.Data.List.Induction
import Mathlib.Data.List.Nodup

/-!
# Registries through a run

A registry lives through registrations and removals.  At the end of any run it is the map that its past describes: a
handler is bound to a name if its registration was accepted and the name has not been removed since (`Binds`).  As a
name that is bound is refused, no later registration can have been accepted, so this is the last one that was.

All that a registry is asked, single names as well as lists, agrees with that map (`Shows`, `refines_run`).  Lists go
by the names under which handlers are kept, and these are their own names (`Keyed`).
-/

namespace EchoEngine

open Std (ExtTreeMap)

/-- The values of a map stand in the order of its keys. -/
theorem values_eq_map_toList {β : Type} (m : ExtTreeMap String β) : m.values = m.toList.map Prod.snd := by
  obtain ⟨⟨q⟩⟩ := m
  induction q using Quotient.ind with
  | _ t =>
    change t.inner.values = (Std.DTreeMap.Internal.Impl.Const.toList t.inner).map Prod.snd
    rw [Std.DTreeMap.Internal.Impl.values_eq_map_snd,
      Std.DTreeMap.Internal.Impl.Const.toList_eq_toListModel_map, List.map_map]
    rfl

/-- What happens to a registry. -/
inductive RegistryEvent where
  | register (h : Handler)
  | remove (name : String)

namespace Registry

/-- The registry after an event; a registration that is refused changes nothing. -/
def step (r : Registry) : RegistryEvent → Registry
  | .register h => (r.register h).toOption.getD r
  | .remove name => (r.remove name).1

def run (kind : HandlerKind) (es : List RegistryEvent) : Registry :=
  es.foldl step (.empty kind)

theorem run_concat (kind : HandlerKind) (es : List RegistryEvent) (e : RegistryEvent) :
    run kind (es ++ [e]) = (run kind es).step e :=
  List.foldl_concat ..

/-! ### One event -/

variable {r : Registry} {h : Handler} {name : String}

theorem contains_eq_isSome (r : Registry) (name : String) : r.contains name = (r.get? name).isSome :=
  ExtTreeMap.contains_eq_isSome_getElem?

theorem contains_iff_get? : r.contains name = true ↔ ∃ h, r.get? name = some h := by
  rw [contains_eq_isSome, Option.isSome_iff_exists]

theorem not_contains_iff_get? : r.contains name = false ↔ r.get? name = none := by
  rw [contains_eq_isSome, Option.isSome_eq_false_iff, Option.isNone_iff_eq_none]

theorem register_of_contains (hbound : r.contains h.name = true) :
    r.register h = .error (.duplicateName r.kind.noun h.name) :=
  if_pos hbound

theorem register_of_free (hfree : r.contains h.name = false) :
    r.register h = .ok { r with handlers := r.handlers.insert h.name h } :=
  if_neg (Bool.eq_false_iff.1 hfree)

/-- A registration adds a binding where there is none. -/
theorem get?_register (r : Registry) (h : Handler) (name : String) :
    (r.step (.register h)).get? name = (r.get? name).or (if h.name = name then some h else none) := by
  cases hbound : r.contains h.name with
  | true =>
    have hsame : r.step (.register h) = r := by
      rw [step, register_of_contains hbound]
      rfl
    rw [hsame]
    split
    · rename_i heq
      obtain ⟨h', hget⟩ := contains_iff_get?.1 (heq ▸ hbound)
      rw [hget]
      rfl
    · rw [Option.or_none]
  | false =>
    have hinsert : (r.step (.register h)).get? name = (r.handlers.insert h.name h)[name]? := by
      rw [step, register_of_free hbound]
      rfl
    rw [hinsert, ExtTreeMap.getElem?_insert]
    simp only [Std.compare_eq_iff_eq]
    split
    · rename_i heq
      rw [not_contains_iff_get?.1 (heq ▸ hbound)]
      rfl
    · rw [Option.or_none]
      rfl

theorem get?_remove (r : Registry) (removed name : String) :
    (r.step (.remove removed)).get? name = if removed = name then none else r.get? name := by
  change (r.handlers.erase removed)[name]? = _
  rw [ExtTreeMap.getElem?_erase]
  simp only [Std.compare_eq_iff_eq]
  rfl

theorem kind_step (r : Registry) (e : RegistryEvent) : (r.step e).kind = r.kind := by
  cases e with
  | remove => rfl
  | register h =>
    cases hbound : r.contains h.name with
    | true => rw [step, register_of_contains hbound]; rfl
    | false => rw [step, register_of_free hbound]; rfl

theorem kind_run (kind : HandlerKind) (es : List RegistryEvent) : (run kind es).kind = kind := by
  induction es using List.reverseRecOn with
  | nil => rfl
  | append_singleton es e ih => rw [run_concat, kind_step, ih]

/-- Registries of one kind are the same if they bind the same. -/
theorem eq_of_get?_eq {r r' : Registry} (hkind : r'.kind = r.kind) (hget : ∀ name, r'.get? name = r.get? name) :
    r' = r := by
  cases r
  cases r'
  cases hkind
  exact congrArg _ (ExtTreeMap.ext_getElem? fun name => hget name)

/-! ### What is bound -/

/-- A handler has been registered under a name, and the name has not been removed since.  Only a registration that
was accepted counts. -/
def Binds (kind : HandlerKind) (es : List RegistryEvent) (name : String) (h : Handler) : Prop :=
  ∃ before after, es = before ++ .register h :: after ∧ h.name = name ∧
    (∃ r, (run kind before).register h = .ok r) ∧ .remove name ∉ after

theorem exists_register_iff : (∃ r', r.register h = .ok r') ↔ r.get? h.name = none := by
  rw [← not_contains_iff_get?]
  cases hbound : r.contains h.name with
  | true => simp [register_of_contains hbound]
  | false => simp [register_of_free hbound]

theorem binds_concat {kind : HandlerKind} {es : List RegistryEvent} {e : RegistryEvent} :
    Binds kind (es ++ [e]) name h ↔ Binds kind es name h ∧ e ≠ .remove name ∨
      e = .register h ∧ h.name = name ∧ (run kind es).get? name = none := by
  constructor
  · rintro ⟨before, after, hes, rfl, haccepted, hkept⟩
    rcases List.eq_nil_or_concat after with rfl | ⟨rest, last, rfl⟩
    · obtain ⟨rfl, hlast⟩ := List.append_inj' hes rfl
      obtain rfl : e = .register h := List.singleton_inj.1 hlast
      exact .inr ⟨rfl, rfl, exists_register_iff.1 haccepted⟩
    · have hsplit : es ++ [e] = (before ++ .register h :: rest) ++ [last] := by simpa using hes
      obtain ⟨rfl, hlast⟩ := List.append_inj' hsplit rfl
      obtain rfl : e = last := List.singleton_inj.1 hlast
      simp only [List.concat_eq_append, List.mem_append, List.mem_singleton, not_or] at hkept
      exact .inl ⟨⟨before, rest, rfl, rfl, haccepted, hkept.1⟩, fun heq => hkept.2 heq.symm⟩
  · rintro (⟨⟨before, after, rfl, rfl, haccepted, hkept⟩, hne⟩ | ⟨rfl, rfl, hfree⟩)
    · refine ⟨before, after ++ [e], by simp, rfl, haccepted, ?_⟩
      simp only [List.mem_append, List.mem_singleton, not_or]
      exact ⟨hkept, fun heq => hne heq.symm⟩
    · exact ⟨es, [], rfl, rfl, exists_register_iff.2 hfree, List.not_mem_nil⟩

/-- A registry holds what its past has bound. -/
theorem get?_run_eq_some_iff {kind : HandlerKind} {es : List RegistryEvent} :
    (run kind es).get? name = some h ↔ Binds kind es name h := by
  induction es using List.reverseRecOn generalizing h with
  | nil =>
    refine ⟨nofun, ?_⟩
    rintro ⟨before, after, hes, -⟩
    exact absurd hes (by simp)
  | append_singleton es e ih =>
    rw [run_concat, binds_concat, ← ih]
    cases e with
    | register h' =>
      rw [get?_register]
      cases hget : (run kind es).get? name with
      | some => simp
      | none =>
        simp only [Option.none_or, Option.ite_none_right_eq_some, reduceCtorEq, false_and, false_or,
          RegistryEvent.register.injEq, and_true, Option.some_inj]
        constructor
        · rintro ⟨hname, rfl⟩
          exact ⟨rfl, hname⟩
        · rintro ⟨rfl, hname⟩
          exact ⟨hname, rfl⟩
    | remove removed =>
      rw [get?_remove]
      by_cases heq : removed = name <;> simp [heq]

/-! ### Lists -/

/-- Handlers are kept under their own names. -/
def Keyed (r : Registry) : Prop :=
  ∀ name h, r.get? name = some h → h.name = name

theorem keyed_run (kind : HandlerKind) (es : List RegistryEvent) : (run kind es).Keyed := by
  intro name h hget
  obtain ⟨-, -, -, hname, -⟩ := get?_run_eq_some_iff.1 hget
  exact hname

theorem mem_toList_handlers : (name, h) ∈ r.handlers.toList ↔ r.get? name = some h :=
  ExtTreeMap.mem_toList_iff_getElem?_eq_some

theorem mem_names : name ∈ r.names ↔ ∃ h, r.get? name = some h := by
  rw [← contains_iff_get?]
  exact ExtTreeMap.mem_keys

theorem pairwise_names (r : Registry) : r.names.Pairwise fun a b => Text.utf8 a < Text.utf8 b := by
  refine ExtTreeMap.ordered_keys.imp ?_
  intro a b hlt
  exact Text.lt_iff_utf8_lt.1 (compare_lt_iff_lt.1 hlt)

theorem Keyed.map_name_toList (hkeyed : r.Keyed) : r.toList.map Handler.name = r.names := by
  have hnames : ∀ entry ∈ r.handlers.toList, (Handler.name ∘ Prod.snd) entry = entry.1 := by
    rintro ⟨name, h⟩ hentry
    exact hkeyed name h (mem_toList_handlers.1 hentry)
  rw [toList, values_eq_map_toList, List.map_map, List.map_congr_left hnames]
  exact ExtTreeMap.map_fst_toList_eq_keys

theorem Keyed.get?_of_mem_toList (hkeyed : r.Keyed) (hmem : h ∈ r.toList) : r.get? h.name = some h := by
  rw [toList, values_eq_map_toList] at hmem
  obtain ⟨⟨name, h⟩, hentry, rfl⟩ := List.mem_map.1 hmem
  have hget := mem_toList_handlers.1 hentry
  rwa [hkeyed name h hget]

theorem sublist_readOnlyNames (r : Registry) : r.readOnlyNames.Sublist r.names := by
  have hfirst : r.handlers.toList.map Prod.fst = r.names := ExtTreeMap.map_fst_toList_eq_keys
  rw [readOnlyNames, ← hfirst]
  exact List.filter_sublist.map _

theorem mem_readOnlyNames : name ∈ r.readOnlyNames ↔ ∃ h, r.get? name = some h ∧ h.readOnly = true := by
  simp only [readOnlyNames, List.mem_map, List.mem_filter, Prod.exists, mem_toList_handlers]
  constructor
  · rintro ⟨_, h, ⟨hget, hreads⟩, rfl⟩
    exact ⟨h, hget, hreads⟩
  · rintro ⟨h, hget, hreads⟩
    exact ⟨name, h, ⟨hget, hreads⟩, rfl⟩

/-! ### Capabilities -/

/-- An entry of a list of capabilities says what a handler says of itself: a list of operations if there are any, and
a schema if it publishes one. -/
structure Describes (entry : Json) (h : Handler) : Prop where
  name : entry.member? "name" = some (.str h.name)
  description : entry.member? "description" = some (.str h.description)
  operations : entry.member? "operations" = if h.operations = [] then none else some (.arr (h.operations.map .str))
  schema : entry.member? "input_schema" = h.schema

theorem describes_capability (h : Handler) : Describes h.capability h where
  name := rfl
  description := rfl
  operations := by
    obtain ⟨name, description, operations, schema, readOnly, enabled, run⟩ := h
    cases operations <;> cases schema <;> rfl
  schema := by
    obtain ⟨name, description, operations, schema, readOnly, enabled, run⟩ := h
    cases operations <;> cases schema <;> rfl

/-- There is an entry for each name that is listed, in that order. -/
theorem Keyed.forall₂_describes (hkeyed : r.Keyed) :
    List.Forall₂ (fun name entry => ∃ h, r.get? name = some h ∧ Describes entry h) r.names
      (r.toList.map Handler.capability) := by
  rw [← hkeyed.map_name_toList, List.forall₂_map_left_iff, List.forall₂_map_right_iff, List.forall₂_same]
  exact fun h hmem => ⟨h, hkeyed.get?_of_mem_toList hmem, describes_capability h⟩

theorem Keyed.map_member?_toList (hkeyed : r.Keyed) :
    (r.toList.map Handler.capability).map (Json.member? "name") = r.names.map fun name => some (.str name) := by
  rw [← hkeyed.map_name_toList, List.map_map, List.map_map]
  exact List.map_congr_left fun h _ => (describes_capability h).name

/-! ### Runs -/

/-- A registry answers every question as a map from names to handlers would. -/
structure Shows (r : Registry) (bound : String → Handler → Prop) : Prop where
  get?_eq_some_iff : ∀ name h, r.get? name = some h ↔ bound name h
  contains_iff : ∀ name, r.contains name = true ↔ ∃ h, bound name h
  find_eq_ok_iff : ∀ name h, r.find name = .ok h ↔ bound name h
  find_eq_error_iff : ∀ name e, r.find name = .error e ↔ e = .notFound r.kind.noun name ∧ ∀ h, ¬bound name h
  mem_names_iff : ∀ name, name ∈ r.names ↔ ∃ h, bound name h
  /-- Names are listed in the order of their bytes, each once. -/
  ascending : r.names.Pairwise fun a b => Text.utf8 a < Text.utf8 b
  /-- Capabilities have the names that are listed, in that order, each with what the handler that is bound to it says of
  itself. -/
  capabilities_eq : ∃ entries, r.capabilities = .arr entries ∧
    entries.map (Json.member? "name") = (r.names.map fun name => some (.str name)) ∧
    List.Forall₂ (fun name entry => ∃ h, bound name h ∧ Describes entry h) r.names entries
  readOnly_sublist : r.readOnlyNames.Sublist r.names
  mem_readOnlyNames_iff : ∀ name, name ∈ r.readOnlyNames ↔ ∃ h, bound name h ∧ h.readOnly = true

theorem Keyed.shows (hkeyed : r.Keyed) : r.Shows fun name h => r.get? name = some h where
  get?_eq_some_iff _ _ := Iff.rfl
  contains_iff _ := contains_iff_get?
  find_eq_ok_iff name h := by cases hget : r.get? name <;> simp [find, hget]
  find_eq_error_iff name e := by cases hget : r.get? name <;> simp [find, hget, eq_comm]
  mem_names_iff _ := mem_names
  ascending := r.pairwise_names
  capabilities_eq := ⟨_, rfl, hkeyed.map_member?_toList, hkeyed.forall₂_describes⟩
  readOnly_sublist := r.sublist_readOnlyNames
  mem_readOnlyNames_iff _ := mem_readOnlyNames

/-- Handlers with names of their own find the same names free in any order. -/
theorem foldl_register_perm {hs hs' : List Handler} (hperm : hs'.Perm hs) (hnames : (hs.map Handler.name).Nodup)
    (r : Registry) : (hs'.map .register).foldl step r = (hs.map .register).foldl step r := by
  rw [List.foldl_map, List.foldl_map]
  refine (hperm.symm.foldl_eq' ?_ r).symm
  intro h hh h' hh' r
  by_cases heq : h = h'
  · rw [heq]
  · have hne : h.name ≠ h'.name := fun hname => heq (List.inj_on_of_nodup_map hnames hh hh' hname)
    refine eq_of_get?_eq ?_ fun name => ?_
    · simp only [kind_step]
    · simp only [get?_register, Option.or_assoc]
      congr 1
      by_cases hfirst : h.name = name
      · rw [if_neg fun hsecond : h'.name = name => hne (hfirst.trans hsecond.symm), Option.none_or, Option.or_none]
      · rw [if_neg hfirst, Option.none_or, Option.or_none]

/-- At the end of a run the registry is the map that its past describes.  A registration is refused exactly if the
name is bound, and leaves the registry as it is; several of different names lead to one registry in any order. -/
theorem refines_run (kind : HandlerKind) (es : List RegistryEvent) :
    (run kind es).Shows (Binds kind es) ∧
      (∀ h e, (run kind es).register h = .error e ↔
        e = .duplicateName kind.noun h.name ∧ ∃ h', Binds kind es h.name h') ∧
      (∀ h e, (run kind es).register h = .error e → run kind (es ++ [.register h]) = run kind es) ∧
      ∀ hs hs' : List Handler, hs'.Perm hs → (hs.map Handler.name).Nodup →
        run kind (es ++ hs'.map .register) = run kind (es ++ hs.map .register) := by
  refine ⟨?shows, ?refused, ?unchanged, ?ordered⟩
  case shows =>
    have hbinds : Binds kind es = fun name h => (run kind es).get? name = some h :=
      funext₂ fun _ _ => propext get?_run_eq_some_iff.symm
    rw [hbinds]
    exact (keyed_run kind es).shows
  case refused =>
    intro h e
    simp only [← get?_run_eq_some_iff, ← contains_iff_get?]
    cases hbound : (run kind es).contains h.name with
    | true => simp [register_of_contains hbound, kind_run, eq_comm]
    | false => simp [register_of_free hbound]
  case unchanged =>
    intro h e hrefused
    rw [run_concat, step, hrefused]
    rfl
  case ordered =>
    intro hs hs' hperm hnames
    rw [run, run, List.foldl_append, List.foldl_append]
    exact foldl_register_perm hperm hnames _

def sampleHandler (name description : String) : Handler :=
  { (default : Handler) with name, description }

/-- A name is bound, removed, bound anew and then refused. -/
def sampleEvents : List RegistryEvent :=
  [.register (sampleHandler "read" "old"), .remove "read", .register (sampleHandler "read" "new"),
    .register (sampleHandler "read" "newer")]

def sampleHandlers : List Handler :=
  [sampleHandler "grep" "", sampleHandler "glob" ""]

theorem refines_run_sampleEvents :
    (run .tool sampleEvents).get? "read" = some (sampleHandler "read" "new") ∧
      (run .tool sampleEvents).register (sampleHandler "read" "newest") = .error (.duplicateName "tool" "read") ∧
      sampleHandlers.reverse.Perm sampleHandlers ∧ (sampleHandlers.map Handler.name).Nodup ∧
      run .tool (sampleEvents ++ sampleHandlers.reverse.map .register) =
        run .tool (sampleEvents ++ sampleHandlers.map .register) ∧
      ∃ entries, (run .tool (sampleEvents ++ sampleHandlers.map .register)).capabilities = .arr entries ∧
        entries.map (Json.member? "name") = [some (.str "glob"), some (.str "grep"), some (.str "read")] := by
  obtain ⟨hshows, hrefused, -, hordered⟩ := refines_run .tool sampleEvents
  have hperm : sampleHandlers.reverse.Perm sampleHandlers := List.reverse_perm _
  have hnames : (sampleHandlers.map Handler.name).Nodup := by decide
  have hbinds : Binds .tool sampleEvents "read" (sampleHandler "read" "new") := by
    refine ⟨[.register (sampleHandler "read" "old"), .remove "read"], [.register (sampleHandler "read" "newer")],
      rfl, rfl, exists_register_iff.2 ?_, by simp⟩
    exact (get?_remove _ "read" "read").trans (if_pos rfl)
  obtain ⟨entries, hentries, hlist, -⟩ :=
    (refines_run .tool (sampleEvents ++ sampleHandlers.map .register)).1.capabilities_eq
  have hlisted : (run .tool (sampleEvents ++ sampleHandlers.map .register)).names = ["glob", "grep", "read"] := by
    decide
  rw [hlisted] at hlist
  exact ⟨(hshows.get?_eq_some_iff _ _).2 hbinds, (hrefused _ _).2 ⟨rfl, _, hbinds⟩, hperm, hnames,
    hordered _ _ hperm hnames, entries, hentries, hlist⟩

end Registry

end EchoEngine
