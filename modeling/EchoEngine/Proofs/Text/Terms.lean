import EchoEngine.Text.Terms
import Mathlib.Data.List.Induction

/-!
# Counting terms

A tally maps the terms that occur to how often they do (`getElem?_tally`).
-/

namespace EchoEngine.Text

open Std (ExtTreeMap)

theorem tally_concat (terms : List String) (t : String) :
    tally (terms ++ [t]) = (tally terms).alter t fun n => some (n.getD 0 + 1) := by
  simp [tally]

theorem getElem?_tally (terms : List String) (t : String) :
    (tally terms)[t]? = if t ∈ terms then some (terms.count t) else none := by
  induction terms using List.reverseRecOn with
  | nil => simp [tally]
  | append_singleton terms u ih =>
    rw [tally_concat, ExtTreeMap.getElem?_alter]
    simp only [Std.compare_eq_iff_eq]
    by_cases h : u = t
    · subst h
      rw [ih]
      by_cases hmem : u ∈ terms
      · simp [hmem, List.count_append]
      · simp [hmem, List.count_append, List.count_eq_zero_of_not_mem]
    · simp [h, ih, List.count_append, Ne.symm h]

end EchoEngine.Text
