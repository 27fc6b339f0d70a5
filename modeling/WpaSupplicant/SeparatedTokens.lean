import Mathlib.Data.List.Basic
import Mathlib.Data.List.Infix
import Mathlib.Tactic.Common

/-!
# Fixed fronts and separated tokens

A text format reads a line by the fixed front it has and by the non-empty
pieces between separators.

* `dropPrefix?_eq_some_append`, `dropPrefix?_eq_none`: what is left of a list
  behind a front that is there, and that nothing is left without it;
* `not_isPrefix_append`: two fronts that disagree exclude each other;
* `append_cons_inj_of_not_mem`: the first separator can be read back;
* `isPrefix_of_isPrefix_append_cons`: a front without separators ends before the
  first one;
* `flatten_tokens`, `tokens_append_of_two`: what the pieces hold, and which of
  them stay when more is added behind.
-/

namespace WpaSupplicant

universe u

variable {α : Type u}

section Fronts

/-- A front that disagrees with another one does not start what follows that one. -/
theorem not_isPrefix_append
    {p q : List α} (hpq : ¬ p <+: q) (hqp : ¬ q <+: p) (rest : List α) :
    ¬ p <+: q ++ rest := by
  intro h
  rcases List.prefix_or_prefix_of_prefix h (List.prefix_append q rest) with h | h
  · exact hpq h
  · exact hqp h

/-- What stands in front of the first separator and behind it is determined. -/
theorem append_cons_inj_of_not_mem
    {sep : α} {xs xs' ys ys' : List α} (hxs : sep ∉ xs) (hxs' : sep ∉ xs')
    (h : xs ++ sep :: ys = xs' ++ sep :: ys') : xs = xs' ∧ ys = ys' := by
  induction xs generalizing xs' with
  | nil =>
      cases xs' with
      | nil =>
          exact ⟨rfl, (List.cons.inj h).2⟩
      | cons x' xs' =>
          exact absurd (List.cons.inj h).1 (List.ne_of_not_mem_cons hxs')
  | cons x xs ih =>
      cases xs' with
      | nil =>
          exact absurd (List.cons.inj h).1.symm (List.ne_of_not_mem_cons hxs)
      | cons x' xs' =>
          obtain ⟨rfl, htail⟩ := List.cons.inj h
          obtain ⟨rfl, hys⟩ := ih (List.not_mem_of_not_mem_cons hxs)
            (List.not_mem_of_not_mem_cons hxs') htail
          exact ⟨rfl, hys⟩

/-- A prefix of `xs ++ c :: ys` that avoids `c` is a prefix of `xs`. -/
theorem isPrefix_of_isPrefix_append_cons
    {p xs ys : List α} {c : α}
    (hc : c ∉ p) (h : p <+: xs ++ c :: ys) :
    p <+: xs := by
  rcases List.prefix_or_prefix_of_prefix h (List.prefix_append xs (c :: ys)) with
    hp | ⟨t, rfl⟩
  · exact hp
  · cases t with
    | nil =>
        simp
    | cons a t =>
        rw [List.prefix_append_right_inj] at h
        obtain ⟨rfl, _⟩ := List.cons_prefix_cons.mp h
        simp at hc

/-- A suffix of `xs ++ c :: ys` that avoids `c` is a suffix of `ys`. -/
theorem suffix_of_suffix_append_cons
    {p xs ys : List α} {c : α}
    (hc : c ∉ p) (h : p <:+ xs ++ c :: ys) :
    p <:+ ys := by
  rcases List.suffix_or_suffix_of_suffix h
      (List.suffix_append xs (c :: ys)) with hp | hp
  · rcases List.suffix_cons_iff.mp hp with rfl | hp
    · simp at hc
    · exact hp
  · exact absurd (hp.subset (by simp)) hc

variable [DecidableEq α]

theorem dropPrefix?_append (p rest : List α) :
    (p ++ rest).dropPrefix? p = some rest :=
  List.dropPrefix?_append_of_beq rest (by simp)

theorem dropPrefix?_eq_some_append {xs p rest : List α} :
    xs.dropPrefix? p = some rest ↔ xs = p ++ rest := by
  simp [List.dropPrefix?_eq_some_iff]

theorem dropPrefix?_eq_none {xs p : List α} (h : ¬ p <+: xs) :
    xs.dropPrefix? p = none := by
  rw [Option.eq_none_iff_forall_ne_some]
  intro rest hrest
  rw [dropPrefix?_eq_some_append] at hrest
  exact h ⟨rest, hrest.symm⟩

/-- Nothing is left behind a front that another one excludes. -/
theorem dropPrefix?_append_eq_none
    {p q : List α} (hpq : ¬ p <+: q) (hqp : ¬ q <+: p) (rest : List α) :
    (q ++ rest).dropPrefix? p = none :=
  dropPrefix?_eq_none (not_isPrefix_append hpq hqp rest)

end Fronts

section Tokens

variable [DecidableEq α]

/-- The non-empty pieces between separators. -/
def tokens (sep : α) (xs : List α) : List (List α) :=
  (xs.splitOn sep).filter (· ≠ [])

variable {sep : α}

@[simp] theorem tokens_nil : tokens sep [] = [] := by
  simp [tokens]

theorem tokens_append_sep (xs ys : List α) :
    tokens sep (xs ++ sep :: ys) = tokens sep xs ++ tokens sep ys := by
  rw [tokens, List.splitOn_append_cons_self, List.filter_append]
  rfl

@[simp] theorem tokens_cons_sep (xs : List α) :
    tokens sep (sep :: xs) = tokens sep xs := by
  simpa using tokens_append_sep [] xs

theorem tokens_of_not_mem
    {w : List α} (hne : w ≠ []) (hw : sep ∉ w) : tokens sep w = [w] := by
  simp [tokens, List.splitOn_eq_singleton hw, hne]

/-- What the pieces hold is everything but the separators. -/
theorem flatten_tokens (xs : List α) :
    (tokens sep xs).flatten = xs.filter (· ≠ sep) := by
  have hsplit : (xs.splitOn sep).flatten = xs.filter (· ≠ sep) := by
    induction xs with
    | nil =>
        simp
    | cons x xs ih =>
        rw [List.splitOn_cons_eq_if_modifyHead]
        by_cases hx : x = sep
        · simpa [hx] using ih
        · have hne := List.splitOn_ne_nil sep xs
          generalize xs.splitOn sep = pieces at ih hne
          cases pieces with
          | nil =>
              exact absurd rfl hne
          | cons piece pieces =>
              simpa [hx] using ih
  rw [tokens, List.flatten_filter_ne_nil, hsplit]

theorem tokens_of_forall_eq {xs : List α} (h : ∀ x ∈ xs, x = sep) :
    tokens sep xs = [] := by
  induction xs with
  | nil =>
      exact tokens_nil
  | cons x xs ih =>
      rw [h x (by simp), tokens_cons_sep]
      exact ih fun y hy => h y (List.mem_cons_of_mem _ hy)

/-- Separators added behind change nothing. -/
theorem tokens_append_of_forall_eq
    (xs : List α) {ys : List α} (h : ∀ y ∈ ys, y = sep) :
    tokens sep (xs ++ ys) = tokens sep xs := by
  cases ys with
  | nil =>
      rw [List.append_nil]
  | cons y ys =>
      rw [h y (by simp), tokens_append_sep,
        tokens_of_forall_eq fun z hz => h z (List.mem_cons_of_mem _ hz), List.append_nil]

/-- The first of several pieces ends at a separator. -/
theorem exists_of_tokens_eq_cons_cons
    {xs a b : List α} {l : List (List α)} (h : tokens sep xs = a :: b :: l) :
    ∃ front rest, xs = front ++ sep :: rest ∧ tokens sep front = [a] ∧
      tokens sep rest = b :: l := by
  induction xs with
  | nil =>
      simp at h
  | cons x xs ih =>
      by_cases hx : x = sep
      · subst hx
        rw [tokens_cons_sep] at h
        obtain ⟨front, rest, rfl, hfront, hrest⟩ := ih h
        exact ⟨x :: front, rest, rfl, by simpa using hfront, hrest⟩
      · -- the piece that starts here ends at the first separator behind it
        have hmem : sep ∈ xs := by
          by_contra hmem
          have hall : sep ∉ x :: xs := by
            simp [Ne.symm hx, hmem]
          rw [tokens_of_not_mem (by simp) hall] at h
          simp at h
        obtain ⟨front, rest, rfl, hfront⟩ := List.eq_append_cons_of_mem hmem
        have hnot : sep ∉ x :: front := by
          simp [Ne.symm hx, hfront]
        rw [← List.cons_append, tokens_append_sep, tokens_of_not_mem (by simp) hnot,
          List.singleton_append] at h
        obtain ⟨ha, hrest⟩ := List.cons.inj h
        refine ⟨x :: front, rest, rfl, ?_, hrest⟩
        rw [tokens_of_not_mem (by simp) hnot, ha]

/-- The first of several pieces stays when more is added behind. -/
theorem tokens_append_of_two
    {xs a b : List α} (h : tokens sep xs = [a, b]) (ys : List α) :
    ∃ l, tokens sep (xs ++ ys) = a :: l ∧ l.flatten = b ++ ys.filter (· ≠ sep) := by
  obtain ⟨front, rest, rfl, hfront, hrest⟩ := exists_of_tokens_eq_cons_cons h
  refine ⟨tokens sep (rest ++ ys), ?_, ?_⟩
  · rw [List.append_assoc, List.cons_append, tokens_append_sep, hfront]
    rfl
  · rw [flatten_tokens, List.filter_append, ← flatten_tokens rest, hrest]
    simp

end Tokens

end WpaSupplicant
