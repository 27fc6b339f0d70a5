import Mathlib.Data.List.Basic

/-!
# The shortest front with a given number of hits

`upTo p k xs` is the length of the shortest front of `xs` that holds `k` elements
with `p`, or of all of `xs` when there are fewer.

* `upTo_of_countP_lt`, `upTo_append_of_le`: it grows with the list until the `k`-th
  such element has come, and then stays;
* `upTo_le_iff`: it is the least front with `k` of them.
-/

namespace WpaSupplicant

variable {α : Type*} (p : α → Bool)

/-- How many elements come up to the `k`-th one with `p`. -/
def upTo : Nat → List α → Nat
  | 0, _ => 0
  | _ + 1, [] => 0
  | k + 1, x :: xs => if p x then upTo k xs + 1 else upTo (k + 1) xs + 1

@[simp] theorem upTo_zero (xs : List α) : upTo p 0 xs = 0 := by
  cases xs <;> rfl

@[simp] theorem upTo_nil (k : Nat) : upTo p k [] = 0 := by
  cases k <;> rfl

variable {p}

theorem upTo_le_length (k : Nat) (xs : List α) : upTo p k xs ≤ xs.length := by
  fun_induction upTo p k xs with
  | case1 | case2 =>
      simp
  | case3 k x xs hx ih | case4 k x xs hx ih =>
      simpa using ih

/-- With too few hits the front is all of the list. -/
theorem upTo_of_countP_lt
    {k : Nat} {xs : List α} (h : xs.countP p < k) :
    upTo p k xs = xs.length := by
  fun_induction upTo p k xs with
  | case1 =>
      simp at h
  | case2 =>
      rfl
  | case3 k x xs hx ih =>
      rw [ih (by simpa [List.countP_cons, hx] using h), List.length_cons]
  | case4 k x xs hx ih =>
      rw [ih (by simpa [List.countP_cons, hx] using h), List.length_cons]

/-- Once there are enough hits the front stays. -/
theorem upTo_append_of_le
    {k : Nat} {xs : List α} (h : k ≤ xs.countP p) (ys : List α) :
    upTo p k (xs ++ ys) = upTo p k xs := by
  fun_induction upTo p k xs with
  | case1 =>
      simp
  | case2 =>
      simp at h
  | case3 k x xs hx ih =>
      rw [List.countP_cons, if_pos hx] at h
      rw [List.cons_append, upTo, if_pos hx, ih (Nat.le_of_succ_le_succ h)]
  | case4 k x xs hx ih =>
      rw [List.countP_cons, if_neg hx, Nat.add_zero] at h
      rw [List.cons_append, upTo, if_neg hx, ih h]

/-- The front is the least one with that many hits. -/
theorem upTo_le_iff
    {k : Nat} {xs : List α} (h : k ≤ xs.countP p) (n : Nat) :
    upTo p k xs ≤ n ↔ k ≤ (xs.take n).countP p := by
  fun_induction upTo p k xs generalizing n with
  | case1 =>
      simp
  | case2 =>
      simp at h
  | case3 k x xs hx ih =>
      rw [List.countP_cons, if_pos hx] at h
      cases n with
      | zero =>
          simp
      | succ n =>
          rw [Nat.add_le_add_iff_right, ih (Nat.le_of_succ_le_succ h) n,
            List.take_succ_cons, List.countP_cons, if_pos hx, Nat.succ_le_succ_iff]
  | case4 k x xs hx ih =>
      rw [List.countP_cons, if_neg hx, Nat.add_zero] at h
      cases n with
      | zero =>
          simp
      | succ n =>
          rw [Nat.add_le_add_iff_right, ih h n, List.take_succ_cons, List.countP_cons,
            if_neg hx]
          exact Iff.rfl

end WpaSupplicant
