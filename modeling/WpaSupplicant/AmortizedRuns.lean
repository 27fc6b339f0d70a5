import WpaSupplicant.StepSystem
import Mathlib.Algebra.BigOperators.Group.List.Basic
import Mathlib.Algebra.GroupWithZero.Nat

/-!
# Steps that are paid for

A potential is saved up by some steps of a run and spent by others.  If each step
is paid for by its label and by what the potential loses, then all of a run is paid
for by its labels and by the potential at the start.

* `Run.length_add_le`: this rule, under an invariant and a condition on histories.
-/

namespace WpaSupplicant
namespace StepSystem

universe u v

variable {σ : Type u} {ι : Type v}
variable {step : σ → ι → Option σ} {A : σ → ι → Prop} {s₀ : σ}

/-- What has been spent and what is left are together what has been paid in. -/
theorem Run.length_add_le
    (price : ι → Nat) (potential : List ι → σ → Nat) {I : σ → Prop} {C : List ι → Prop}
    (hstart : I s₀)
    (hfront : ∀ {hist l}, C (hist ++ [l]) → C hist)
    (hstep : ∀ {hist s l s'}, I s → C (hist ++ [l]) → step s l = some s' →
      I s' ∧ potential (hist ++ [l]) s' + 1 ≤ potential hist s + price l)
    {hist : List ι} {s : σ} (hrun : Run step A s₀ hist s) (hC : C hist) :
    I s ∧ hist.length + potential hist s ≤ potential [] s₀ + (hist.map price).sum := by
  induction hrun with
  | start =>
      exact ⟨hstart, le_of_eq (by simp)⟩
  | snoc prev allowed h ih =>
      obtain ⟨hinv, hpaid⟩ := ih (hfront hC)
      obtain ⟨hinv', hstep'⟩ := hstep hinv hC h
      refine ⟨hinv', ?_⟩
      rw [List.length_append, List.length_singleton, List.map_append, List.sum_append,
        List.map_singleton, List.sum_singleton]
      omega

end StepSystem
end WpaSupplicant
