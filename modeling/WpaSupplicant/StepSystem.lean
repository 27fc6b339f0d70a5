import Mathlib.Data.List.Basic
import Mathlib.Order.WellFounded

/-!
# Labelled step systems

A system is a partial step function on states and labels.  A run from a fixed
start records the labels it took, oldest first, and every step of it satisfies
a side condition on the state it starts from and its label: the condition is
where an environment assumption goes.

* `Run.invariant`: what the start satisfies and every step preserves holds at
  the end of every run;
* `Run.split`: a run of a concatenation passes through a middle state;
* `Run.simulate`: a system whose steps are steps of another one has its runs;
* `countSteps`: how many steps of a run are of some kind;
* `Run.from_end`: what no step can regain holds all along a run that ends with it;
* `run_of_run?`: a history can be executed;
* `Schedule.eventually`: in an infinite run a rank that is lowered again and again
  runs out.
-/

namespace WpaSupplicant
namespace StepSystem

universe u v

variable {σ : Type u} {ι : Type v}
variable {step : σ → ι → Option σ} {A : σ → ι → Prop} {s₀ : σ}

/-- Runs from `s₀` whose steps all satisfy `A`, with their label history. -/
inductive Run (step : σ → ι → Option σ) (A : σ → ι → Prop) (s₀ : σ) :
    List ι → σ → Prop
  | start : Run step A s₀ [] s₀
  | snoc
      {hist : List ι} {s s' : σ} {l : ι}
      (prev : Run step A s₀ hist s)
      (allowed : A s l)
      (hstep : step s l = some s') :
      Run step A s₀ (hist ++ [l]) s'

/-- The induction rule for invariants that may mention the label history. -/
theorem Run.invariant
    {I : List ι → σ → Prop}
    (hstart : I [] s₀)
    (hstep : ∀ {hist s l s'}, I hist s → A s l → step s l = some s' →
      I (hist ++ [l]) s')
    {hist : List ι} {s : σ}
    (hrun : Run step A s₀ hist s) :
    I hist s := by
  induction hrun with
  | start =>
      exact hstart
  | snoc prev allowed h ih =>
      exact hstep ih allowed h

/-- A run of a concatenated history passes through a middle state. -/
theorem Run.split
    {xs ys : List ι} {s : σ}
    (hrun : Run step A s₀ (xs ++ ys) s) :
    ∃ m, Run step A s₀ xs m ∧ Run step A m ys s := by
  generalize hzs : xs ++ ys = zs at hrun
  induction hrun generalizing ys with
  | start =>
      obtain ⟨rfl, rfl⟩ := List.append_eq_nil_iff.mp hzs
      exact ⟨s₀, .start, .start⟩
  | @snoc hist s s' l prev allowed hstep ih =>
      rcases List.eq_nil_or_concat ys with rfl | ⟨ys', y, rfl⟩
      · rw [List.append_nil] at hzs
        subst hzs
        exact ⟨s', .snoc prev allowed hstep, .start⟩
      · rw [List.concat_eq_append, ← List.append_assoc] at hzs
        obtain ⟨hhist, hy⟩ := List.append_inj' hzs rfl
        obtain ⟨m, hxs, hys⟩ := ih hhist
        cases hy
        refine ⟨m, hxs, ?_⟩
        rw [List.concat_eq_append]
        exact .snoc hys allowed hstep

/-- A run whose history is one label is one step. -/
theorem Run.single
    {l : ι} {s : σ}
    (hrun : Run step A s₀ [l] s) :
    A s₀ l ∧ step s₀ l = some s := by
  generalize hls : [l] = ls at hrun
  cases hrun with
  | start =>
      cases hls
  | @snoc hist s₁ s' l' prev allowed hstep =>
      rw [← List.nil_append [l]] at hls
      obtain ⟨hhist, hl⟩ := List.append_inj' hls rfl
      cases hl
      generalize hist = h at prev hhist
      cases prev with
      | start =>
          exact ⟨allowed, hstep⟩
      | snoc =>
          simp at hhist

/-- A first step and a run from where it leads are a run. -/
theorem Run.cons
    {l : ι} {s₁ s : σ} {hist : List ι}
    (hallowed : A s₀ l) (hstep : step s₀ l = some s₁) (hrun : Run step A s₁ hist s) :
    Run step A s₀ (l :: hist) s := by
  induction hrun with
  | start =>
      exact Run.snoc .start hallowed hstep
  | snoc prev allowed h ih =>
      exact Run.snoc ih allowed h

/-- What no step regains, under an invariant, was there before every step. -/
theorem Run.from_end
    {I P : σ → Prop}
    (hinv : ∀ {hist s}, Run step A s₀ hist s → I s)
    (hback : ∀ {s l s'}, I s → step s l = some s' → P s' → P s)
    {hist : List ι} {s : σ}
    (hrun : Run step A s₀ hist s) (hend : P s) :
    Run step (fun s l => A s l ∧ P s) s₀ hist s := by
  induction hrun with
  | start =>
      exact .start
  | snoc prev allowed h ih =>
      have hprev := hback (hinv prev) h hend
      exact .snoc (ih hprev) ⟨allowed, hprev⟩ h

/-- The number of steps of the run with a given history that satisfy `p`. -/
def countSteps (step : σ → ι → Option σ) (p : σ → ι → Bool) : σ → List ι → Nat
  | _, [] => 0
  | s, l :: hist =>
      (p s l).toNat +
        match step s l with
        | some s' => countSteps step p s' hist
        | none => 0

theorem Run.countSteps_concat
    {p : σ → ι → Bool} {hist : List ι} {s : σ} (hrun : Run step A s₀ hist s) (l : ι) :
    countSteps step p s₀ (hist ++ [l]) = countSteps step p s₀ hist + (p s l).toNat := by
  induction hist generalizing s₀ with
  | nil =>
      obtain rfl : s = s₀ := by
        generalize hnil : ([] : List ι) = hist at hrun
        cases hrun with
        | start =>
            rfl
        | snoc =>
            simp at hnil
      simp only [List.nil_append, countSteps]
      cases step s l <;> simp
  | cons l₀ hist ih =>
      have hsplit : Run step A s₀ ([l₀] ++ hist) s := hrun
      obtain ⟨m, hfirst, hrest⟩ := hsplit.split
      obtain ⟨_, hstep⟩ := hfirst.single
      simp only [List.cons_append, countSteps, hstep]
      rw [ih hrest, Nat.add_assoc]

/-- Steps that are told by their label are counted in the history. -/
theorem Run.countSteps_label
    {p : ι → Bool} {hist : List ι} {s : σ} (hrun : Run step A s₀ hist s) :
    countSteps step (fun _ l => p l) s₀ hist = hist.countP p := by
  induction hrun with
  | start =>
      rfl
  | @snoc hist s s' l prev allowed hstep ih =>
      rw [prev.countSteps_concat, ih, List.countP_append, List.countP_singleton]
      cases p l <;> rfl

section Simulation

variable {σ' : Type*} {ι' : Type*}
variable (step' : σ' → ι' → Option σ') (A' : σ' → ι' → Prop)

/--
If every step is a step of another system between the abstractions of its states,
under an invariant, then every run is one of that system, step for step.
-/
theorem Run.simulate
    (I : σ → Prop) (abstraction : σ → σ') (label : σ → ι → ι')
    (hstart : I s₀)
    (hstep : ∀ {s l s'}, I s → A s l → step s l = some s' →
      I s' ∧ A' (abstraction s) (label s l) ∧
        step' (abstraction s) (label s l) = some (abstraction s'))
    {hist : List ι} {s : σ}
    (hrun : Run step A s₀ hist s) :
    I s ∧ ∃ hist', Run step' A' (abstraction s₀) hist' (abstraction s) ∧
      ∀ (p : σ → ι → Bool) (p' : σ' → ι' → Bool),
        (∀ {s l s'}, I s → A s l → step s l = some s' →
          p' (abstraction s) (label s l) = p s l) →
        countSteps step' p' (abstraction s₀) hist' = countSteps step p s₀ hist := by
  induction hrun with
  | start =>
      exact ⟨hstart, [], .start, fun _ _ _ => rfl⟩
  | @snoc hist s s' l prev allowed h ih =>
      obtain ⟨hinv, hist', hprev, hcount⟩ := ih
      obtain ⟨hinv', hallowed, h'⟩ := hstep hinv allowed h
      refine ⟨hinv', hist' ++ [label s l], .snoc hprev hallowed h', fun p p' hp => ?_⟩
      rw [hprev.countSteps_concat, prev.countSteps_concat, hcount p p' hp, hp hinv allowed h]

end Simulation

section Executable

variable [∀ s l, Decidable (A s l)]

/-- The end of a run with a given history, if there is one. -/
def run? (step : σ → ι → Option σ) (A : σ → ι → Prop) [∀ s l, Decidable (A s l)]
    (s₀ : σ) : List ι → Option σ
  | [] => some s₀
  | l :: hist => if A s₀ l then (step s₀ l).bind fun s => run? step A s hist else none

theorem run_of_run?
    {hist : List ι} {s : σ} (h : run? step A s₀ hist = some s) :
    Run step A s₀ hist s := by
  induction hist generalizing s₀ with
  | nil =>
      cases h
      exact .start
  | cons l hist ih =>
      rw [run?] at h
      split at h
      · next hallowed =>
          obtain ⟨s₁, hstep, hrest⟩ := Option.bind_eq_some_iff.mp h
          exact .cons hallowed hstep (ih hrest)
      · cases h

end Executable

/-- An infinite run from `s₀`. -/
structure Schedule (step : σ → ι → Option σ) (s₀ : σ) where
  state : Nat → σ
  label : Nat → ι
  start : state 0 = s₀
  next : ∀ n, step (state n) (label n) = some (state (n + 1))

namespace Schedule

variable (r : Schedule step s₀)

/-- The first labels of an infinite run are those of a run. -/
theorem run (n : Nat) :
    Run step (fun _ _ => True) s₀ ((List.range n).map r.label) (r.state n) := by
  induction n with
  | zero =>
      rw [r.start]
      exact .start
  | succ n ih =>
      rw [List.range_succ, List.map_append]
      exact .snoc ih trivial (r.next n)

/--
If no step raises the rank, helpful steps lower it, and there is always another
helpful step to come, then the goal is reached.
-/
theorem eventually
    {α : Type*} [Preorder α] [WellFoundedLT α] (rank : σ → α)
    {Goal : σ → Prop} (Helps : σ → ι → Prop) (start : Nat)
    (hrank : ∀ n, start ≤ n → ¬ Goal (r.state n) → ¬ Goal (r.state (n + 1)) →
      rank (r.state (n + 1)) ≤ rank (r.state n))
    (hlower : ∀ n, start ≤ n → ¬ Goal (r.state n) → ¬ Goal (r.state (n + 1)) →
      Helps (r.state n) (r.label n) → rank (r.state (n + 1)) < rank (r.state n))
    (hfair : ∀ n, start ≤ n → ¬ Goal (r.state n) →
      ∃ m, n ≤ m ∧ Helps (r.state m) (r.label m)) :
    ∃ n, Goal (r.state n) := by
  by_contra hnever
  rw [not_exists] at hnever
  have hmono : ∀ {n m}, start ≤ n → n ≤ m → rank (r.state m) ≤ rank (r.state n) := by
    intro n m hn hnm
    induction m, hnm using Nat.le_induction with
    | base =>
        exact le_rfl
    | succ m hm ih =>
        exact (hrank m (hn.trans hm) (hnever m) (hnever (m + 1))).trans ih
  -- the rank is least at some time, and lower at a later one
  obtain ⟨_, ⟨n, hn, rfl⟩, hleast⟩ := wellFounded_lt.has_min
    {a | ∃ n, start ≤ n ∧ rank (r.state n) = a} ⟨_, start, le_rfl, rfl⟩
  obtain ⟨m, hm, hhelps⟩ := hfair n hn (hnever n)
  have hlt := hlower m (hn.trans hm) (hnever m) (hnever (m + 1)) hhelps
  exact hleast _ ⟨m + 1, by omega, rfl⟩ (hlt.trans_le (hmono hn hm))

end Schedule

end StepSystem
end WpaSupplicant
