import WpaSupplicant.SeparatedTokens

/-!
# Trimming patterns off the ends of a list

The patterns are non-empty lists none of which is a proper prefix or a proper
suffix of another, such as the encodings of a set of characters.  Trimming
removes patterns from one end until none is left there.  What is trimmed does
not depend on how the patterns are searched:

* `trimStart_flatten_append`, `trimEnd_append_flatten`: a run of patterns in
  front of (behind) a list that offers none is exactly what is removed;
* `exists_trimStart`, `exists_trimEnd`: every list splits that way;
* `trimEnd_append_cons`: an element that is in no pattern stops the trimming.
-/

namespace WpaSupplicant

universe u

/-- Non-empty patterns, none a proper prefix or suffix of another. -/
structure PatternSet (α : Type u) where
  pats : List (List α)
  ne_nil : ∀ p ∈ pats, p ≠ []
  prefixFree : ∀ p ∈ pats, ∀ q ∈ pats, p <+: q → p = q
  suffixFree : ∀ p ∈ pats, ∀ q ∈ pats, p <:+ q → p = q

namespace PatternSet

variable {α : Type u} (P : PatternSet α)

/-- No pattern begins the list. -/
def NoneAhead (xs : List α) : Prop :=
  ∀ p ∈ P.pats, ¬ p <+: xs

/-- No pattern ends the list. -/
def NoneBehind (xs : List α) : Prop :=
  ∀ p ∈ P.pats, ¬ p <:+ xs

instance [DecidableEq α] (xs : List α) : Decidable (P.NoneAhead xs) :=
  inferInstanceAs (Decidable (∀ p ∈ P.pats, ¬ p <+: xs))

instance [DecidableEq α] (xs : List α) : Decidable (P.NoneBehind xs) :=
  inferInstanceAs (Decidable (∀ p ∈ P.pats, ¬ p <:+ xs))

/-- The patterns read from right to left. -/
def reverse : PatternSet α where
  pats := P.pats.map List.reverse
  ne_nil := by
    intro p hp
    obtain ⟨q, hq, rfl⟩ := List.mem_map.mp hp
    simpa using P.ne_nil q hq
  prefixFree := by
    intro p hp q hq hpq
    obtain ⟨p', hp', rfl⟩ := List.mem_map.mp hp
    obtain ⟨q', hq', rfl⟩ := List.mem_map.mp hq
    rw [P.suffixFree p' hp' q' hq' (List.reverse_prefix.mp hpq)]
  suffixFree := by
    intro p hp q hq hpq
    obtain ⟨p', hp', rfl⟩ := List.mem_map.mp hp
    obtain ⟨q', hq', rfl⟩ := List.mem_map.mp hq
    rw [P.prefixFree p' hp' q' hq' (List.reverse_suffix.mp hpq)]

theorem noneAhead_reverse_iff (xs : List α) :
    P.reverse.NoneAhead xs.reverse ↔ P.NoneBehind xs := by
  constructor
  · intro h p hp hsuf
    exact h p.reverse (List.mem_map_of_mem hp) (List.reverse_prefix.mpr hsuf)
  · intro h p hp hpre
    obtain ⟨q, hq, rfl⟩ := List.mem_map.mp hp
    exact h q hq (List.reverse_prefix.mp hpre)

@[simp] theorem noneAhead_nil : P.NoneAhead [] := by
  intro p hp hpre
  exact P.ne_nil p hp (List.prefix_nil.mp hpre)

@[simp] theorem noneBehind_nil : P.NoneBehind [] := by
  intro p hp hsuf
  exact P.ne_nil p hp (List.suffix_nil.mp hsuf)

/-- Every list is a run of patterns and then a list that begins with none. -/
theorem exists_noneAhead (xs : List α) :
    ∃ (ws : List (List α)) (rest : List α), (∀ w ∈ ws, w ∈ P.pats) ∧ P.NoneAhead rest ∧
      xs = ws.flatten ++ rest := by
  induction h : xs.length using Nat.strongRecOn generalizing xs with
  | ind n ih =>
      by_cases hxs : P.NoneAhead xs
      · exact ⟨[], xs, by simp, hxs, rfl⟩
      · simp only [NoneAhead, not_forall, not_not] at hxs
        obtain ⟨p, hp, rest, rfl⟩ := hxs
        have hpos : 0 < p.length := List.length_pos_iff.mpr (P.ne_nil p hp)
        rw [List.length_append] at h
        obtain ⟨ws, rest', hws, hrest', rfl⟩ := ih rest.length (by omega) rest rfl
        refine ⟨p :: ws, rest', ?_, hrest', by simp⟩
        rintro w (_ | ⟨_, hw⟩)
        · exact hp
        · exact hws w hw

theorem noneBehind_append_cons
    {c : α} (hc : ∀ p ∈ P.pats, c ∉ p)
    (xs : List α) {ys : List α} (hys : P.NoneBehind ys) :
    P.NoneBehind (xs ++ c :: ys) := by
  intro p hp hsuf
  exact hys p hp (suffix_of_suffix_append_cons (hc p hp) hsuf)

/-- What stands behind an element that is in no pattern has no effect in front. -/
theorem noneAhead_append_cons
    {c : α} (hc : ∀ p ∈ P.pats, c ∉ p)
    {xs : List α} (hxs : P.NoneAhead xs) (ys : List α) :
    P.NoneAhead (xs ++ c :: ys) := by
  intro p hp hpre
  exact hxs p hp (isPrefix_of_isPrefix_append_cons (hc p hp) hpre)

/-- An element that is in no pattern in front leaves nothing to trim there. -/
theorem noneAhead_cons
    {c : α} (hc : ∀ p ∈ P.pats, c ∉ p) (xs : List α) :
    P.NoneAhead (c :: xs) :=
  P.noneAhead_append_cons hc P.noneAhead_nil xs

section Trimming

variable [DecidableEq α]

/-- At most `n` patterns removed from the front. -/
def trimStartAux : Nat → List α → List α
  | 0, xs => xs
  | n + 1, xs =>
      match P.pats.find? (fun p => p.isPrefixOf xs) with
      | none => xs
      | some p => trimStartAux n (xs.drop p.length)

/-- Patterns removed from the front until none is there. -/
def trimStart (xs : List α) : List α :=
  P.trimStartAux xs.length xs

/-- Patterns removed from the back until none is there. -/
def trimEnd (xs : List α) : List α :=
  (P.reverse.trimStart xs.reverse).reverse

theorem find?_of_noneAhead
    {xs : List α} (h : P.NoneAhead xs) :
    P.pats.find? (fun p => p.isPrefixOf xs) = none := by
  rw [List.find?_eq_none]
  intro p hp hpre
  exact h p hp (List.isPrefixOf_iff_prefix.mp hpre)

/-- Only the pattern in front is found there. -/
theorem find?_append
    {p : List α} (hp : p ∈ P.pats) (xs : List α) :
    P.pats.find? (fun q => q.isPrefixOf (p ++ xs)) = some p := by
  cases hfind : P.pats.find? (fun q => q.isPrefixOf (p ++ xs)) with
  | none =>
      rw [List.find?_eq_none] at hfind
      exact absurd (List.isPrefixOf_iff_prefix.mpr (List.prefix_append p xs))
        (hfind p hp)
  | some q =>
      have hq : q ∈ P.pats := List.mem_of_find?_eq_some hfind
      have hqp : q <+: p ++ xs := by
        have := List.find?_some hfind
        exact List.isPrefixOf_iff_prefix.mp this
      rcases List.prefix_or_prefix_of_prefix hqp (List.prefix_append p xs) with
        h | h
      · rw [P.prefixFree q hq p hp h]
      · rw [P.prefixFree p hp q hq h]

theorem trimStartAux_of_noneAhead
    (n : Nat) {xs : List α} (h : P.NoneAhead xs) :
    P.trimStartAux n xs = xs := by
  cases n with
  | zero =>
      rfl
  | succ n =>
      simp only [trimStartAux, P.find?_of_noneAhead h]

theorem trimStartAux_flatten_append
    {ws : List (List α)} (hws : ∀ w ∈ ws, w ∈ P.pats)
    {xs : List α} (hxs : P.NoneAhead xs)
    {n : Nat} (hn : (ws.flatten ++ xs).length ≤ n) :
    P.trimStartAux n (ws.flatten ++ xs) = xs := by
  induction ws generalizing n with
  | nil =>
      exact P.trimStartAux_of_noneAhead n hxs
  | cons w ws ih =>
      have hw : w ∈ P.pats := hws w (by simp)
      have hpos : 0 < w.length := List.length_pos_iff.mpr (P.ne_nil w hw)
      cases n with
      | zero =>
          simp only [List.length_append, List.flatten_cons] at hn
          omega
      | succ n =>
          rw [List.flatten_cons, List.append_assoc] at hn ⊢
          simp only [trimStartAux, P.find?_append hw, List.drop_left]
          apply ih (fun w' hw' => hws w' (List.mem_cons_of_mem _ hw'))
          rw [List.length_append] at hn
          omega

/-- A run of patterns in front is exactly what is removed. -/
theorem trimStart_flatten_append
    {ws : List (List α)} (hws : ∀ w ∈ ws, w ∈ P.pats)
    {xs : List α} (hxs : P.NoneAhead xs) :
    P.trimStart (ws.flatten ++ xs) = xs :=
  P.trimStartAux_flatten_append hws hxs le_rfl

/-- What `trimStart` removes is a run of patterns, and it leaves none in front. -/
theorem exists_trimStart (xs : List α) :
    ∃ ws : List (List α), (∀ w ∈ ws, w ∈ P.pats) ∧ P.NoneAhead (P.trimStart xs) ∧
      xs = ws.flatten ++ P.trimStart xs := by
  obtain ⟨ws, rest, hws, hrest, rfl⟩ := P.exists_noneAhead xs
  rw [P.trimStart_flatten_append hws hrest]
  exact ⟨ws, hws, hrest, rfl⟩

theorem trimStart_of_noneAhead
    {xs : List α} (h : P.NoneAhead xs) :
    P.trimStart xs = xs :=
  P.trimStartAux_of_noneAhead _ h

/-- A run of patterns behind is exactly what is removed. -/
theorem trimEnd_append_flatten
    {ws : List (List α)} (hws : ∀ w ∈ ws, w ∈ P.pats)
    {xs : List α} (hxs : P.NoneBehind xs) :
    P.trimEnd (xs ++ ws.flatten) = xs := by
  have hrev : ∀ w ∈ (ws.map List.reverse).reverse, w ∈ P.reverse.pats := by
    intro w hw
    obtain ⟨v, hv, rfl⟩ := List.mem_map.mp (List.mem_reverse.mp hw)
    exact List.mem_map_of_mem (hws v hv)
  have hahead := (P.noneAhead_reverse_iff xs).mpr hxs
  unfold trimEnd
  rw [List.reverse_append, List.reverse_flatten,
    P.reverse.trimStart_flatten_append hrev hahead, List.reverse_reverse]

/-- What `trimEnd` removes is a run of patterns, and it leaves none behind. -/
theorem exists_trimEnd (xs : List α) :
    ∃ ws : List (List α), (∀ w ∈ ws, w ∈ P.pats) ∧ P.NoneBehind (P.trimEnd xs) ∧
      xs = P.trimEnd xs ++ ws.flatten := by
  obtain ⟨ws, hws, hahead, hxs⟩ := P.reverse.exists_trimStart xs.reverse
  refine ⟨(ws.map List.reverse).reverse, ?_, ?_, ?_⟩
  · intro w hw
    obtain ⟨v, hv, rfl⟩ := List.mem_map.mp (List.mem_reverse.mp hw)
    obtain ⟨q, hq, rfl⟩ := List.mem_map.mp (hws v hv)
    simpa using hq
  · rw [← P.noneAhead_reverse_iff]
    simpa [trimEnd] using hahead
  · have h := congrArg List.reverse hxs
    rw [List.reverse_reverse, List.reverse_append, List.reverse_flatten] at h
    exact h

theorem noneBehind_trimEnd (xs : List α) : P.NoneBehind (P.trimEnd xs) := by
  obtain ⟨_, _, h, _⟩ := P.exists_trimEnd xs
  exact h

theorem trimEnd_of_noneBehind
    {xs : List α} (h : P.NoneBehind xs) :
    P.trimEnd xs = xs := by
  have hnil : ∀ w ∈ ([] : List (List α)), w ∈ P.pats := by simp
  simpa using P.trimEnd_append_flatten hnil h

@[simp] theorem trimEnd_trimEnd (xs : List α) :
    P.trimEnd (P.trimEnd xs) = P.trimEnd xs :=
  P.trimEnd_of_noneBehind (P.noneBehind_trimEnd xs)

/-- A front remains when it ends in no pattern and patterns are all that follows it. -/
theorem trimEnd_append_eq_left_iff (xs ys : List α) :
    P.trimEnd (xs ++ ys) = xs ↔
      P.NoneBehind xs ∧ ∃ ws : List (List α), (∀ w ∈ ws, w ∈ P.pats) ∧ ys = ws.flatten := by
  constructor
  · intro h
    obtain ⟨ws, hws, hbehind, hsplit⟩ := P.exists_trimEnd (xs ++ ys)
    rw [h] at hbehind hsplit
    exact ⟨hbehind, ws, hws, List.append_cancel_left hsplit⟩
  · rintro ⟨hbehind, ws, hws, rfl⟩
    exact P.trimEnd_append_flatten hws hbehind

/-- Patterns added behind do not change what remains. -/
theorem trimEnd_append_of_mem
    {ws : List (List α)} (hws : ∀ w ∈ ws, w ∈ P.pats) (xs : List α) :
    P.trimEnd (xs ++ ws.flatten) = P.trimEnd xs := by
  obtain ⟨vs, hvs, hbehind, hxs⟩ := P.exists_trimEnd xs
  have hall : ∀ w ∈ vs ++ ws, w ∈ P.pats := by
    intro w hw
    rcases List.mem_append.mp hw with h | h
    · exact hvs w h
    · exact hws w h
  calc P.trimEnd (xs ++ ws.flatten)
      = P.trimEnd (P.trimEnd xs ++ (vs ++ ws).flatten) := by
        rw [List.flatten_append, ← List.append_assoc, ← hxs]
    _ = P.trimEnd xs := P.trimEnd_append_flatten hall hbehind

/-- An element that is in no pattern stops the trimming from the back. -/
theorem trimEnd_append_cons
    {c : α} (hc : ∀ p ∈ P.pats, c ∉ p) (xs ys : List α) :
    P.trimEnd (xs ++ c :: ys) = xs ++ c :: P.trimEnd ys := by
  obtain ⟨ws, hws, hbehind, hys⟩ := P.exists_trimEnd ys
  calc P.trimEnd (xs ++ c :: ys)
      = P.trimEnd ((xs ++ c :: P.trimEnd ys) ++ ws.flatten) := by
        rw [List.append_assoc, List.cons_append, ← hys]
    _ = xs ++ c :: P.trimEnd ys :=
        P.trimEnd_append_flatten hws (P.noneBehind_append_cons hc xs hbehind)

end Trimming

end PatternSet
end WpaSupplicant
