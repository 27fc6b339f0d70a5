import WpaSupplicant.StepSystem

/-!
# Refinement of labelled step systems

A run shows its environment what its steps show, in order.  A system refines
another one when each of its steps is matched by a run of the other one, possibly
an empty one, that shows the same.

* `Run.append`: runs are put together;
* `Run.restrict`: a condition on a history is one on each step;
* `Run.trace_append`: and so is what they show;
* `Run.refines`: with a step refined, so is every run.
-/

namespace WpaSupplicant
namespace StepSystem

universe u v w

variable {σ : Type u} {ι : Type v} {ω : Type w}
variable {step : σ → ι → Option σ} {A : σ → ι → Prop} {s₀ : σ}

/-- A run from where another one ends makes it longer. -/
theorem Run.append
    {xs ys : List ι} {m s : σ}
    (hxs : Run step A s₀ xs m) (hys : Run step A m ys s) :
    Run step A s₀ (xs ++ ys) s := by
  induction hys with
  | start =>
      rwa [List.append_nil]
  | snoc prev allowed h ih =>
      rw [← List.append_assoc]
      exact .snoc ih allowed h

/-- A condition on the labels of a history holds of the steps of its run. -/
theorem Run.restrict
    {B : σ → ι → Prop} {hist : List ι} {s : σ} (hrun : Run step A s₀ hist s)
    (h : ∀ s, ∀ l ∈ hist, A s l → B s l) :
    Run step B s₀ hist s := by
  induction hrun with
  | start =>
      exact .start
  | snoc prev allowed hstep ih =>
      refine .snoc (ih fun s l hl => h s l (List.mem_append_left _ hl)) ?_ hstep
      exact h _ _ (List.mem_append_right _ (List.mem_singleton_self _)) allowed

/-- What the steps of a run show. -/
def trace (step : σ → ι → Option σ) (observe : σ → ι → σ → List ω) :
    σ → List ι → List ω
  | _, [] => []
  | s, l :: hist =>
      match step s l with
      | some s' => observe s l s' ++ trace step observe s' hist
      | none => []

variable {observe : σ → ι → σ → List ω}

@[simp] theorem trace_nil (s : σ) : trace step observe s [] = [] := rfl

theorem trace_cons
    {s s' : σ} {l : ι} (hstep : step s l = some s') (hist : List ι) :
    trace step observe s (l :: hist) = observe s l s' ++ trace step observe s' hist := by
  rw [trace, hstep]

/-- A run shows what its parts show. -/
theorem Run.trace_append
    {xs : List ι} {m : σ} (hxs : Run step A s₀ xs m) (ys : List ι) :
    trace step observe s₀ (xs ++ ys) =
      trace step observe s₀ xs ++ trace step observe m ys := by
  induction hxs generalizing ys with
  | start =>
      rfl
  | @snoc hist s s' l prev allowed hstep ih =>
      rw [List.append_assoc, List.singleton_append, ih, ih, trace_cons hstep,
        trace_cons hstep]
      simp

theorem Run.trace_concat
    {hist : List ι} {s s' : σ} {l : ι} (hrun : Run step A s₀ hist s)
    (hstep : step s l = some s') :
    trace step observe s₀ (hist ++ [l]) =
      trace step observe s₀ hist ++ observe s l s' := by
  rw [hrun.trace_append, trace_cons hstep, trace_nil, List.append_nil]

section Refinement

variable {σ' : Type*} {ι' : Type*}
variable (step' : σ' → ι' → Option σ') (A' : σ' → ι' → Prop)
variable (observe' : σ' → ι' → σ' → List ω)

/--
If every step is matched by a run of another system that shows the same, then
every run is.
-/
theorem Run.refines
    (R : List ι → σ → σ' → Prop) (t₀ : σ')
    (hstart : R [] s₀ t₀)
    (hstep : ∀ {hist s l s' t}, Run step A s₀ hist s → A s l → step s l = some s' →
      R hist s t →
      ∃ hist' t', Run step' A' t hist' t' ∧ R (hist ++ [l]) s' t' ∧
        trace step' observe' t hist' = observe s l s')
    {hist : List ι} {s : σ}
    (hrun : Run step A s₀ hist s) :
    ∃ hist' t, Run step' A' t₀ hist' t ∧ R hist s t ∧
      trace step' observe' t₀ hist' = trace step observe s₀ hist := by
  induction hrun with
  | start =>
      exact ⟨[], t₀, .start, hstart, rfl⟩
  | @snoc hist s s' l prev allowed h ih =>
      obtain ⟨hist₁, t, hrun₁, hR, htrace⟩ := ih
      obtain ⟨hist₂, t', hrun₂, hR', hshown⟩ := hstep prev allowed h hR
      refine ⟨hist₁ ++ hist₂, t', hrun₁.append hrun₂, hR', ?_⟩
      rw [hrun₁.trace_append, htrace, hshown, prev.trace_concat h]

end Refinement

end StepSystem
end WpaSupplicant
