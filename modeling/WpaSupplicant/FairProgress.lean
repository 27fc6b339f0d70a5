import WpaSupplicant.TraceRefinement

/-!
# Progress of several parties under fairness

An infinite run in which parties move by turns.  In each state one of them is the
helpful one: its next move lowers a rank, and until then no step raises the rank or
makes another party the helpful one.  If the helpful party always gets to move, the
goal is reached.

* `Schedule.eventually_of_helpful`: this rule;
* `Schedule.ofHistory`: a finite run that then idles.
-/

namespace WpaSupplicant
namespace StepSystem

universe u v

variable {σ : Type u} {ι : Type v} {step : σ → ι → Option σ} {s₀ : σ}

namespace Schedule

variable (r : Schedule step s₀)

/-- The first labels of an infinite run. -/
def history (n : Nat) : List ι :=
  (List.range n).map r.label

@[simp] theorem history_zero : r.history 0 = [] := rfl

theorem history_succ (n : Nat) : r.history (n + 1) = r.history n ++ [r.label n] := by
  simp [history, List.range_succ]

/-- A condition on all steps holds in the run up to any time. -/
theorem run_of
    {A : σ → ι → Prop} (h : ∀ n, A (r.state n) (r.label n)) (n : Nat) :
    Run step A s₀ (r.history n) (r.state n) := by
  induction n with
  | zero =>
      rw [r.start]
      exact .start
  | succ n ih =>
      rw [r.history_succ]
      exact .snoc ih (h n) (r.next n)

/--
The rule of the helpful party.  At least one step must be taken from where the rank
is least; the helpful party there stays so, and its move would lower the rank.
-/
theorem eventually_of_helpful
    {κ : Type*} {α : Type*} [Preorder α] [WellFoundedLT α]
    {Goal : Nat → Prop} (rank : Nat → α) (helpful : Nat → κ)
    (Moves : Nat → κ → Prop) (start : Nat)
    (hstep : ∀ n, start ≤ n → ¬ Goal n → ¬ Goal (n + 1) →
      rank (n + 1) < rank n ∨
        rank (n + 1) ≤ rank n ∧ helpful (n + 1) = helpful n ∧ ¬ Moves n (helpful n))
    (hfair : ∀ n, start ≤ n → ¬ Goal n → ∃ m, n ≤ m ∧ Moves m (helpful n)) :
    ∃ n, Goal n := by
  by_contra hnever
  rw [not_exists] at hnever
  obtain ⟨_, ⟨n, hn, rfl⟩, hleast⟩ := wellFounded_lt.has_min
    {a | ∃ n, start ≤ n ∧ rank n = a} ⟨_, start, le_rfl, rfl⟩
  -- from there on the rank and the helpful party stay
  have hstays : ∀ m, n ≤ m → rank m ≤ rank n ∧ helpful m = helpful n := by
    intro m hm
    induction m, hm using Nat.le_induction with
    | base =>
        exact ⟨le_rfl, rfl⟩
    | succ m hm ih =>
        rcases hstep m (hn.trans hm) (hnever m) (hnever (m + 1)) with hlt | ⟨hle, hsame, _⟩
        · exact absurd (hlt.trans_le ih.1) (hleast _ ⟨m + 1, by omega, rfl⟩)
        · exact ⟨hle.trans ih.1, hsame.trans ih.2⟩
  obtain ⟨m, hm, hmoves⟩ := hfair n hn (hnever n)
  obtain ⟨hle, hsame⟩ := hstays m hm
  rcases hstep m (hn.trans hm) (hnever m) (hnever (m + 1)) with hlt | ⟨_, _, hidle⟩
  · exact hleast _ ⟨m + 1, by omega, rfl⟩ (hlt.trans_le hle)
  · rw [hsame] at hidle
    exact hidle hmoves

section History

variable (step s₀)

/-- The state after the first labels of a history, each of which can be taken. -/
def stateAt (hist : List ι) (n : Nat) : σ :=
  (hist.take n).foldl (fun s l => (step s l).getD s) s₀

variable {step s₀} {A : σ → ι → Prop} {hist : List ι}

theorem stateAt_succ
    {n : Nat} {l : ι} (hl : hist[n]? = some l) :
    stateAt step s₀ hist (n + 1) =
      (step (stateAt step s₀ hist n) l).getD (stateAt step s₀ hist n) := by
  rw [stateAt, List.take_add_one, hl, List.foldl_append]
  rfl

theorem stateAt_of_length_le
    {n : Nat} (h : hist.length ≤ n) :
    stateAt step s₀ hist n = stateAt step s₀ hist hist.length := by
  rw [stateAt, stateAt, List.take_of_length_le h, List.take_length]

variable [∀ s l, Decidable (A s l)]

/-- Each label of a history that can be executed is allowed and taken. -/
theorem taken_of_run?
    {s : σ} (hrun : run? step A s₀ hist = some s) {n : Nat} {l : ι} (hl : hist[n]? = some l) :
    A (stateAt step s₀ hist n) l ∧
      step (stateAt step s₀ hist n) l = some (stateAt step s₀ hist (n + 1)) := by
  suffices h : A (stateAt step s₀ hist n) l ∧ (step (stateAt step s₀ hist n) l).isSome by
    obtain ⟨s', hs'⟩ := Option.isSome_iff_exists.mp h.2
    rw [stateAt_succ hl, hs']
    exact ⟨h.1, rfl⟩
  induction hist generalizing s₀ n with
  | nil =>
      simp at hl
  | cons l₀ hist ih =>
      rw [run?] at hrun
      split at hrun
      · next hallowed =>
          obtain ⟨s₁, hstep, hrest⟩ := Option.bind_eq_some_iff.mp hrun
          cases n with
          | zero =>
              cases hl
              exact ⟨hallowed, by simp [stateAt, hstep]⟩
          | succ n =>
              have hnext := ih hrest hl
              simpa [stateAt, hstep] using hnext
      · cases hrun

/-- A run with a given history that stays where it has come to. -/
def ofHistory
    {s : σ} (hrun : run? step A s₀ hist = some s) (idle : ι)
    (hidle : ∀ s, step s idle = some s) :
    Schedule step s₀ where
  state := stateAt step s₀ hist
  label n := hist[n]?.getD idle
  start := rfl
  next n := by
    cases hl : hist[n]? with
    | some l =>
        exact (taken_of_run? hrun hl).2
    | none =>
        have hn : hist.length ≤ n := List.getElem?_eq_none_iff.mp hl
        rw [Option.getD_none, hidle, stateAt_of_length_le hn,
          stateAt_of_length_le (hn.trans (Nat.le_succ n))]

theorem allowed_ofHistory
    {s : σ} (hrun : run? step A s₀ hist = some s) {idle : ι}
    (hidle : ∀ s, step s idle = some s) (hallowed : ∀ s, A s idle) (n : Nat) :
    A ((ofHistory hrun idle hidle).state n) ((ofHistory hrun idle hidle).label n) := by
  simp only [ofHistory]
  cases hl : hist[n]? with
  | some l =>
      exact (taken_of_run? hrun hl).1
  | none =>
      exact hallowed _

end History

end Schedule

end StepSystem
end WpaSupplicant
