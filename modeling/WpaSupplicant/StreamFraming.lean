import Mathlib.Data.List.Basic

/-!
# Deframing a stream

A deframer cuts one message off the front of a stream, or finds that more input
is needed.  Three laws make the cut usable on a stream that arrives in pieces:
a cut consumes input, it does not depend on what follows it, and it answers
`none` on the empty stream.

* `Deframer.parse`: the one-shot parse of a whole stream, with its remainder;
* `Deframer.parse_append`: parsing may stop and resume anywhere;
* `Deframer.parse_encode`: a concatenation of encoded messages parses back.
-/

namespace WpaSupplicant

universe u v

/-- Cuts one message off the front of a stream. -/
structure Deframer (α : Type u) (β : Type v) where
  next? : List α → Option (β × List α)
  shorter : ∀ {xs m rest}, next? xs = some (m, rest) → rest.length < xs.length
  stable : ∀ {xs m rest} (ys : List α),
    next? xs = some (m, rest) → next? (xs ++ ys) = some (m, rest ++ ys)

namespace Deframer

variable {α : Type u} {β : Type v} (d : Deframer α β)

/-- All complete messages of a stream, and the incomplete remainder. -/
def parse (xs : List α) : List β × List α :=
  match _h : d.next? xs with
  | none => ([], xs)
  | some (m, rest) => (m :: (parse rest).1, (parse rest).2)
termination_by xs.length
decreasing_by all_goals exact d.shorter _h

theorem parse_of_none
    {xs : List α} (h : d.next? xs = none) :
    d.parse xs = ([], xs) := by
  rw [parse]
  split
  · rfl
  · simp_all

theorem parse_of_some
    {xs rest : List α} {m : β} (h : d.next? xs = some (m, rest)) :
    d.parse xs = (m :: (d.parse rest).1, (d.parse rest).2) := by
  rw [parse]
  split
  · simp_all
  · simp_all

@[simp] theorem next?_nil : d.next? [] = none := by
  cases h : d.next? [] with
  | none =>
      rfl
  | some p =>
      exact absurd (d.shorter h) (Nat.not_lt_zero _)

@[simp] theorem parse_nil : d.parse [] = ([], []) :=
  d.parse_of_none d.next?_nil

/-- The remainder of a parse holds no complete message. -/
theorem next?_parse_snd (xs : List α) :
    d.next? (d.parse xs).2 = none := by
  fun_induction d.parse xs with
  | case1 xs h =>
      exact h
  | case2 xs m rest h ih =>
      exact ih

/-- Parsing a concatenation resumes from the remainder of the first part. -/
theorem parse_append (xs ys : List α) :
    d.parse (xs ++ ys) =
      ((d.parse xs).1 ++ (d.parse ((d.parse xs).2 ++ ys)).1,
        (d.parse ((d.parse xs).2 ++ ys)).2) := by
  fun_induction d.parse xs with
  | case1 xs h =>
      simp
  | case2 xs m rest h ih =>
      rw [d.parse_of_some (d.stable ys h), ih]
      simp

section Encoding

variable {encode : β → List α}

/-- Encoded messages in front of a stream come off in order. -/
theorem parse_encode_append
    {ms : List β}
    (hround : ∀ m ∈ ms, ∀ rest, d.next? (encode m ++ rest) = some (m, rest))
    (tail : List α) :
    d.parse ((ms.map encode).flatten ++ tail) =
      (ms ++ (d.parse tail).1, (d.parse tail).2) := by
  induction ms with
  | nil =>
      simp
  | cons m ms ih =>
      have hm := hround m (by simp) ((ms.map encode).flatten ++ tail)
      have ih' := ih (fun m' hm' => hround m' (List.mem_cons_of_mem _ hm'))
      rw [List.map_cons, List.flatten_cons, List.append_assoc,
        d.parse_of_some hm, ih']
      rfl

/-- A concatenation of encoded messages parses back, with nothing left. -/
theorem parse_encode
    {ms : List β}
    (hround : ∀ m ∈ ms, ∀ rest, d.next? (encode m ++ rest) = some (m, rest)) :
    d.parse (ms.map encode).flatten = (ms, []) := by
  simpa using d.parse_encode_append hround []

/--
A message cut off an incomplete view of encoded messages is the first of them,
and the view continues with the others.
-/
theorem next?_of_append_eq_encode
    {ms : List β}
    (hround : ∀ m ∈ ms, ∀ rest, d.next? (encode m ++ rest) = some (m, rest))
    {seen unseen rest : List α} {m : β}
    (hview : seen ++ unseen = (ms.map encode).flatten)
    (hcut : d.next? seen = some (m, rest)) :
    ∃ ms', ms = m :: ms' ∧ rest ++ unseen = (ms'.map encode).flatten := by
  have hstable := d.stable unseen hcut
  rw [hview] at hstable
  cases ms with
  | nil =>
      simp at hstable
  | cons m' ms' =>
      rw [List.map_cons, List.flatten_cons, hround m' (by simp)] at hstable
      obtain ⟨rfl, hrest⟩ := Prod.mk.inj (Option.some.inj hstable)
      exact ⟨ms', rfl, hrest.symm⟩

/-- Every prefix of encoded messages is some of them, then an incomplete tail. -/
theorem parse_of_isPrefix_encode
    {ms : List β}
    (hround : ∀ m ∈ ms, ∀ rest, d.next? (encode m ++ rest) = some (m, rest))
    {xs : List α}
    (hfront : xs <+: (ms.map encode).flatten) :
    (d.parse xs).1 <+: ms ∧
      xs = ((d.parse xs).1.map encode).flatten ++ (d.parse xs).2 := by
  induction ms generalizing xs with
  | nil =>
      obtain rfl : xs = [] := by simpa using hfront
      simp
  | cons m ms ih =>
      obtain ⟨unseen, hview⟩ := hfront
      cases hx : d.next? xs with
      | none =>
          rw [d.parse_of_none hx]
          simp
      | some p =>
          obtain ⟨m', rest⟩ := p
          obtain ⟨ms', hms, hrest⟩ :=
            d.next?_of_append_eq_encode hround hview hx
          obtain ⟨rfl, rfl⟩ := List.cons.inj hms
          obtain ⟨ih₁, ih₂⟩ :=
            ih (fun m' hm' => hround m' (List.mem_cons_of_mem _ hm'))
              ⟨unseen, hrest⟩
          have hxs : xs = encode m ++ rest := by
            apply (List.append_left_inj unseen).mp
            rw [hview, List.append_assoc, hrest]
            rfl
          rw [d.parse_of_some hx]
          refine ⟨List.cons_prefix_cons.mpr ⟨rfl, ih₁⟩, ?_⟩
          rw [List.map_cons, List.flatten_cons, List.append_assoc, ← ih₂]
          exact hxs

end Encoding

end Deframer
end WpaSupplicant
