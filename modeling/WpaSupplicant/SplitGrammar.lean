import WpaSupplicant.PatternTrim

/-!
# What splitting and trimming recognise

A text is split into pieces and trimmed of patterns by functions.  Each of them is also a
relation that says how the text is put together.

* `splitOn_eq_iff`: pieces joined by separators;
* `tokens_eq_iff`: pieces among separators (`Spaced`);
* `PatternSet.trimStart_eq_iff`, `PatternSet.trimEnd_eq_iff`: a text behind patterns, or
  before them.
-/

namespace WpaSupplicant

universe u

variable {α : Type u}

/-- Pieces without separators, and separators around and between them. -/
inductive Spaced (sep : α) : List α → List (List α) → Prop
  | nil : Spaced sep [] []
  | sep
      {xs : List α} {ws : List (List α)}
      (h : Spaced sep xs ws) :
      Spaced sep (sep :: xs) ws
  | last
      {w : List α} (hne : w ≠ []) (hw : sep ∉ w) :
      Spaced sep w [w]
  | piece
      {w xs : List α} {ws : List (List α)}
      (hne : w ≠ []) (hw : sep ∉ w) (h : Spaced sep xs ws) :
      Spaced sep (w ++ sep :: xs) (w :: ws)

section Splitting

variable [DecidableEq α] {sep : α} {xs : List α}

theorem not_mem_of_mem_splitOn {w : List α} (h : w ∈ xs.splitOn sep) : sep ∉ w := by
  induction xs generalizing w with
  | nil =>
      rw [List.splitOn_nil, List.mem_singleton] at h
      simp [h]
  | cons x xs ih =>
      rw [List.splitOn_cons_eq_if_modifyHead] at h
      by_cases hx : x = sep
      · rw [if_pos (by simpa using hx)] at h
        rcases List.mem_cons.mp h with rfl | h
        · exact List.not_mem_nil
        · exact ih h
      · rw [if_neg (by simpa using hx)] at h
        have hne := List.splitOn_ne_nil sep xs
        generalize xs.splitOn sep = pieces at h ih hne
        cases pieces with
        | nil =>
            exact absurd rfl hne
        | cons piece pieces =>
            rcases List.mem_cons.mp h with rfl | h
            · have := ih (List.mem_cons_self (a := piece))
              simp [Ne.symm hx, this]
            · exact ih (List.mem_cons_of_mem _ h)

/-- The pieces of a text are those that it joins. -/
theorem splitOn_eq_iff {ls : List (List α)} :
    xs.splitOn sep = ls ↔ ls ≠ [] ∧ (∀ l ∈ ls, sep ∉ l) ∧ xs = [sep].intercalate ls := by
  constructor
  · rintro rfl
    exact ⟨List.splitOn_ne_nil sep xs, fun l hl => not_mem_of_mem_splitOn hl,
      (List.intercalate_splitOn sep).symm⟩
  · rintro ⟨hne, hls, rfl⟩
    exact List.splitOn_intercalate sep hls hne

theorem splitOn_eq_pair_iff {a b : List α} :
    xs.splitOn sep = [a, b] ↔ xs = a ++ sep :: b ∧ sep ∉ a ∧ sep ∉ b := by
  rw [splitOn_eq_iff]
  simp [List.intercalate_cons_cons, and_comm]

theorem spaced_tokens (xs : List α) : Spaced sep xs (tokens sep xs) := by
  induction h : xs.length using Nat.strongRecOn generalizing xs with
  | ind n ih =>
      by_cases hmem : sep ∈ xs
      · obtain ⟨w, rest, rfl, hw⟩ := List.eq_append_cons_of_mem hmem
        have hrest : Spaced sep rest (tokens sep rest) := by
          rw [List.length_append, List.length_cons] at h
          exact ih rest.length (by omega) rest rfl
        rw [tokens_append_sep]
        by_cases hne : w = []
        · rw [hne, tokens_nil]
          exact .sep hrest
        · rw [tokens_of_not_mem hne hw]
          exact .piece hne hw hrest
      · by_cases hne : xs = []
        · rw [hne, tokens_nil]
          exact .nil
        · rw [tokens_of_not_mem hne hmem]
          exact .last hne hmem

/-- The pieces of a text are those that stand in it among separators. -/
theorem tokens_eq_iff {ws : List (List α)} : tokens sep xs = ws ↔ Spaced sep xs ws := by
  constructor
  · rintro rfl
    exact spaced_tokens xs
  · intro h
    induction h with
    | nil =>
        exact tokens_nil
    | sep h ih =>
        rw [tokens_cons_sep, ih]
    | last hne hw =>
        exact tokens_of_not_mem hne hw
    | piece hne hw h ih =>
        rw [tokens_append_sep, tokens_of_not_mem hne hw, ih, List.singleton_append]

end Splitting

namespace PatternSet

variable (P : PatternSet α)

/-- Patterns and nothing else. -/
def Run (xs : List α) : Prop :=
  ∃ ws : List (List α), (∀ w ∈ ws, w ∈ P.pats) ∧ xs = ws.flatten

variable [DecidableEq α] {xs ys : List α}

theorem trimStart_eq_iff :
    P.trimStart xs = ys ↔ P.NoneAhead ys ∧ ∃ run, P.Run run ∧ xs = run ++ ys := by
  constructor
  · rintro rfl
    obtain ⟨ws, hws, hahead, hxs⟩ := P.exists_trimStart xs
    exact ⟨hahead, _, ⟨ws, hws, rfl⟩, hxs⟩
  · rintro ⟨hahead, _, ⟨ws, hws, rfl⟩, rfl⟩
    exact P.trimStart_flatten_append hws hahead

theorem trimEnd_eq_iff :
    P.trimEnd xs = ys ↔ P.NoneBehind ys ∧ ∃ run, P.Run run ∧ xs = ys ++ run := by
  constructor
  · rintro rfl
    obtain ⟨ws, hws, hbehind, hxs⟩ := P.exists_trimEnd xs
    exact ⟨hbehind, _, ⟨ws, hws, rfl⟩, hxs⟩
  · rintro ⟨hbehind, _, ⟨ws, hws, rfl⟩, rfl⟩
    exact P.trimEnd_append_flatten hws hbehind

end PatternSet
end WpaSupplicant
