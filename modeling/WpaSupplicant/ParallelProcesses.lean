import WpaSupplicant.StepSystem
import Mathlib.Logic.Function.Basic

/-!
# Processes with shared state

Processes come and go under names of their own.  A process that runs has a state that
only its own steps change; all of them work on one shared state.

* `step_cases`: what an action does to one process and to the shared state;
* `run_parallel`: what every process keeps, and what none of the others can break, holds
  of every process in every run.
-/

namespace WpaSupplicant

open StepSystem

universe u v w x y

/-- The processes that run, and the state that they share. -/
structure Parallel (ι : Type u) (σ : Type v) (τ : Type w) where
  procs : ι → Option σ
  shared : τ

namespace Parallel

variable {ι : Type u} {σ : Type v} {τ : Type w} {α : Type x} {β : Type y}

/-- A process is launched with an argument, takes a step or ends. -/
inductive Action (ι : Type u) (α : Type x) (β : Type y)
  | launch (i : ι) (b : β)
  | act (i : ι) (a : α)
  | finish (i : ι)
deriving DecidableEq

/-- No process yet. -/
def start (t : τ) : Parallel ι σ τ :=
  ⟨fun _ => none, t⟩

variable [DecidableEq ι] (init : β → σ) (exec : ι → σ × τ → α → Option (σ × τ))

/-- One action; a name is used again only after its process has ended. -/
def step (p : Parallel ι σ τ) : Action ι α β → Option (Parallel ι σ τ)
  | .launch i b =>
      match p.procs i with
      | none => some { p with procs := Function.update p.procs i (some (init b)) }
      | some _ => none
  | .act i a =>
      match p.procs i with
      | none => none
      | some s =>
          (exec i (s, p.shared) a).map fun r =>
            ⟨Function.update p.procs i (some r.1), r.2⟩
  | .finish i =>
      match p.procs i with
      | none => none
      | some _ => some { p with procs := Function.update p.procs i none }

variable {init exec}

/-- What an action does: one process changes, and the shared state by its step only. -/
inductive StepCases
    (init : β → σ)
    (exec : ι → σ × τ → α → Option (σ × τ))
    (p : Parallel ι σ τ) :
    Action ι α β → Parallel ι σ τ → Prop
  | launch
      {i : ι} (b : β)
      (hnone : p.procs i = none) :
      StepCases init exec p (.launch i b)
        { p with procs := Function.update p.procs i (some (init b)) }
  | act
      {i : ι} {s s' : σ} {t' : τ} {a : α}
      (hsome : p.procs i = some s)
      (hexec : exec i (s, p.shared) a = some (s', t')) :
      StepCases init exec p (.act i a) ⟨Function.update p.procs i (some s'), t'⟩
  | finish
      {i : ι} {s : σ}
      (hsome : p.procs i = some s) :
      StepCases init exec p (.finish i) { p with procs := Function.update p.procs i none }

theorem step_cases
    {p p' : Parallel ι σ τ} {a : Action ι α β} (h : step init exec p a = some p') :
    StepCases init exec p a p' := by
  cases a with
  | launch i b =>
      cases hi : p.procs i with
      | none =>
          simp only [step, hi, Option.some.injEq] at h
          exact h ▸ .launch b hi
      | some _ =>
          simp [step, hi] at h
  | act i a =>
      cases hi : p.procs i with
      | none =>
          simp [step, hi] at h
      | some s =>
          simp only [step, hi, Option.map_eq_some_iff] at h
          obtain ⟨⟨s', t'⟩, hexec, rfl⟩ := h
          exact .act hi hexec
  | finish i =>
      cases hi : p.procs i with
      | none =>
          simp [step, hi] at h
      | some s =>
          simp only [step, hi, Option.some.injEq] at h
          exact h ▸ .finish hi

/--
The rule for processes that share state.  `I i` is about the process `i` and the shared
state; a step of `i` changes the shared state as `G i` allows, and what the others may do
leaves `I i` as it is.
-/
theorem run_parallel
    {A : Parallel ι σ τ → Action ι α β → Prop} {t₀ : τ}
    (I : ι → Option σ → τ → Prop) (G : ι → τ → τ → Prop)
    (hstart : ∀ i, I i none t₀)
    (hlaunch : ∀ {i b p}, A p (.launch i b) → I i none p.shared →
      I i (some (init b)) p.shared)
    (hact : ∀ {i a s s' t' p}, A p (.act i a) → p.procs i = some s →
      I i (some s) p.shared → exec i (s, p.shared) a = some (s', t') →
      I i (some s') t' ∧ G i p.shared t')
    (hfinish : ∀ {i s t}, I i (some s) t → I i none t)
    (hstable : ∀ {i j q t t'}, i ≠ j → G j t t' → I i q t → I i q t')
    {hist : List (Action ι α β)} {p : Parallel ι σ τ}
    (hrun : Run (step init exec) A (start t₀) hist p) (i : ι) :
    I i (p.procs i) p.shared := by
  refine hrun.invariant (I := fun _ p => ∀ i, I i (p.procs i) p.shared) hstart ?_ i
  intro hist p a p' ih hallowed hstep i
  cases step_cases hstep with
  | @launch j b hnone =>
      by_cases hij : i = j
      · subst hij
        simp only [Function.update_self]
        exact hlaunch hallowed (hnone ▸ ih i)
      · simpa only [Function.update_of_ne hij] using ih i
  | @act j s s' t' a hsome hexec =>
      obtain ⟨hown, hchange⟩ := hact hallowed hsome (hsome ▸ ih j) hexec
      by_cases hij : i = j
      · subst hij
        simpa only [Function.update_self] using hown
      · simpa only [Function.update_of_ne hij] using hstable hij hchange (ih i)
  | @finish j s hsome =>
      by_cases hij : i = j
      · subst hij
        simp only [Function.update_self]
        exact hfinish (hsome ▸ ih i)
      · simpa only [Function.update_of_ne hij] using ih i

end Parallel
end WpaSupplicant
