import EchoEngine.Cognition.Backend
import EchoEngine.Proofs.Parameters

/-!
# What the local backend accepts

The local backend analyzes a text that holds more than white space, if the parameters ask for a known depth or for
none, and for a scope that is text or for none (`Accepts`).  Of what it does not accept it blames the first fault, in
this order (`Refuses`).  Everything is either accepted or refused, and the analysis answers accordingly
(`analyzeLocally_of_accepts`, `analyzeLocally_of_refuses`).

An analysis says how deep it went before it says anything of the text, so it is never blank, not even that of a text
without terms or sentences.
-/

namespace EchoEngine

theorem Text.isBlankText_append (a b : String) : isBlankText (a ++ b) = (isBlankText a && isBlankText b) := by
  rw [isBlankText, String.toList_append, List.all_append]
  rfl

namespace Backend

variable {s : String} {p : Parameters} {err : Error}

/-- A text holds a character that is not white space. -/
def Visible (s : String) : Prop :=
  ∃ c ∈ s.toList, ¬Text.isBlank c

/-- A depth is asked for by its name, or not at all. -/
def AsksDepth (p : Parameters) : Prop :=
  p.get? "depth_level" = none ∨ ∃ level ∈ ["surface", "deep", "recursive"], p.get? "depth_level" = some (.text level)

/-- A scope is asked for by a text, or not at all. -/
def AsksScope (p : Parameters) : Prop :=
  p.get? "analysis_scope" = none ∨ ∃ scope, p.get? "analysis_scope" = some (.text scope)

/-- The texts and parameters that are analyzed. -/
structure Accepts (s : String) (p : Parameters) : Prop where
  visible : Visible s
  depth : AsksDepth p
  scope : AsksScope p

/-- The texts and parameters that are not analyzed, with the error that the first fault is blamed with. -/
inductive Refuses (s : String) (p : Parameters) : Error → Prop
  | blank (hblank : ¬Visible s) : Refuses s p (.invalidParameter "nothing to analyze: input is empty")
  | depthKind {v : ParamValue} (hvisible : Visible s) (hdepth : p.get? "depth_level" = some v)
      (hkind : ∀ level, v ≠ .text level) : Refuses s p (.parameterType "depth_level" "string" v.typeName)
  | depthName {level : String} (hvisible : Visible s) (hdepth : p.get? "depth_level" = some (.text level))
      (hunknown : level ∉ ["surface", "deep", "recursive"]) : Refuses s p (.invalidParameter
        ("depth_level must be surface, deep or recursive, got '" ++ level ++ "'"))
  | scopeKind {v : ParamValue} (hvisible : Visible s) (hdepth : AsksDepth p)
      (hscope : p.get? "analysis_scope" = some v) (hkind : ∀ scope, v ≠ .text scope) :
      Refuses s p (.parameterType "analysis_scope" "string" v.typeName)

/-- A parameter is absent, a text, or of another kind. -/
private theorem absent_or_text_or_other (p : Parameters) (key : String) : p.get? key = none ∨
    (∃ s, p.get? key = some (.text s)) ∨ ∃ v, p.get? key = some v ∧ ∀ s, v ≠ .text s := by
  cases hget : p.get? key with
  | none => exact .inl rfl
  | some v =>
    cases v with
    | text s => exact .inr (.inl ⟨s, rfl⟩)
    | _ => exact .inr (.inr ⟨_, rfl, nofun⟩)

theorem accepts_or_refuses (s : String) (p : Parameters) : Accepts s p ∨ ∃ err, Refuses s p err := by
  by_cases hvisible : Visible s
  · by_cases hdepth : AsksDepth p
    · rcases absent_or_text_or_other p "analysis_scope" with hscope | hscope | ⟨v, hscope, hkind⟩
      · exact .inl ⟨hvisible, hdepth, .inl hscope⟩
      · exact .inl ⟨hvisible, hdepth, .inr hscope⟩
      · exact .inr ⟨_, .scopeKind hvisible hdepth hscope hkind⟩
    · rcases absent_or_text_or_other p "depth_level" with hget | ⟨level, hget⟩ | ⟨v, hget, hkind⟩
      · exact absurd (.inl hget) hdepth
      · exact .inr ⟨_, .depthName hvisible hget fun hmem => hdepth (.inr ⟨level, hmem, hget⟩)⟩
      · exact .inr ⟨_, .depthKind hvisible hget hkind⟩
  · exact .inr ⟨_, .blank hvisible⟩

/-- No fault is blamed with an error of a handler. -/
theorem Refuses.kind_ne_handler (h : Refuses s p err) : err.kind ≠ .handler := by
  cases h <;> exact nofun

/-! ### The analysis -/

theorem isBlankText_eq_false_iff : Text.isBlankText s = false ↔ Visible s := by
  simp [Text.isBlankText, Visible]

theorem ofParameters_of_asksDepth (h : AsksDepth p) : ∃ depth, DepthLevel.ofParameters p = .ok depth := by
  rcases h with habsent | ⟨level, hmem, hget⟩
  · have hdepth : p.optText "depth_level" = .ok none := Parameters.optAs_of_absent habsent
    rw [DepthLevel.ofParameters, hdepth]
    exact ⟨_, rfl⟩
  · have hdepth : p.optText "depth_level" = .ok (some level) := Parameters.optAs_of_get? hget rfl
    rw [DepthLevel.ofParameters, hdepth]
    simp only [List.mem_cons, List.not_mem_nil, or_false] at hmem
    rcases hmem with rfl | rfl | rfl <;> exact ⟨_, rfl⟩

theorem optText_of_asksScope (h : AsksScope p) : ∃ scope, p.optText "analysis_scope" = .ok scope := by
  rcases h with habsent | ⟨scope, hget⟩
  · exact ⟨none, Parameters.optAs_of_absent habsent⟩
  · exact ⟨some scope, Parameters.optAs_of_get? hget rfl⟩

/-- What is accepted is summed up. -/
theorem analyzeLocally_of_accepts (h : Accepts s p) :
    ∃ depth scope, analyzeLocally s p = .ok (summarize s depth scope) := by
  have hblank : Text.isBlankText s = false := isBlankText_eq_false_iff.2 h.visible
  obtain ⟨depth, hdepth⟩ := ofParameters_of_asksDepth h.depth
  obtain ⟨scope, hscope⟩ := optText_of_asksScope h.scope
  refine ⟨depth, scope.getD "focused", ?_⟩
  rw [analyzeLocally, hblank, hdepth, hscope]
  rfl

theorem analyzeLocally_of_refuses (h : Refuses s p err) : analyzeLocally s p = .error err := by
  cases h with
  | blank hblank =>
    rw [← isBlankText_eq_false_iff, Bool.not_eq_false] at hblank
    rw [analyzeLocally, hblank]
    rfl
  | @depthKind v hvisible hget hkind =>
    have hdepth : p.optText "depth_level" = .error (.parameterType "depth_level" "string" v.typeName) :=
      Parameters.optAs_of_mismatch hget (ParamValue.asText?_eq_none hkind)
    rw [analyzeLocally, isBlankText_eq_false_iff.2 hvisible, DepthLevel.ofParameters, hdepth]
    rfl
  | @depthName level hvisible hget hunknown =>
    have hdepth : p.optText "depth_level" = .ok (some level) := Parameters.optAs_of_get? hget rfl
    have hnone : (DepthLevel.all.find? fun l => l.name = level) = none := by
      rw [List.find?_eq_none]
      intro l _ hname
      refine hunknown ?_
      rw [← of_decide_eq_true hname]
      cases l <;> decide
    rw [analyzeLocally, isBlankText_eq_false_iff.2 hvisible, DepthLevel.ofParameters, hdepth]
    simp only [bind, Except.bind, hnone]
    rfl
  | @scopeKind v hvisible hdepth hget hkind =>
    obtain ⟨depth, hdepth⟩ := ofParameters_of_asksDepth hdepth
    have hscope : p.optText "analysis_scope" = .error (.parameterType "analysis_scope" "string" v.typeName) :=
      Parameters.optAs_of_mismatch hget (ParamValue.asText?_eq_none hkind)
    rw [analyzeLocally, isBlankText_eq_false_iff.2 hvisible, hdepth, hscope]
    rfl

/-- What is refused is not accepted. -/
theorem Refuses.not_accepts (h : Refuses s p err) : ¬Accepts s p := by
  intro haccepts
  obtain ⟨depth, scope, hok⟩ := analyzeLocally_of_accepts haccepts
  rw [analyzeLocally_of_refuses h] at hok
  cases hok

/-- There is one first fault. -/
theorem Refuses.unique {err' : Error} (h : Refuses s p err) (h' : Refuses s p err') : err = err' :=
  Except.error.inj ((analyzeLocally_of_refuses h).symm.trans (analyzeLocally_of_refuses h'))

/-- A summary is never blank, whatever it sums up. -/
theorem isBlankText_summarize (s : String) (depth : DepthLevel) (scope : String) :
    Text.isBlankText (summarize s depth scope) = false := by
  have hstart : Text.isBlankText "analysis [depth=" = false := by decide
  unfold summarize
  repeat rw [Text.isBlankText_append]
  rw [hstart]
  simp only [Bool.false_and]

end Backend

end EchoEngine
