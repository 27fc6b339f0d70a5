import WpaSupplicant.StepSystem
import Mathlib.Data.List.Nodup
import Mathlib.Data.List.InsertIdx

/-!
# Reading a changing list by position

A reader asks for the first element of a list, the second one, and so on, until
there is none.  Between two of its steps elements may come into the list or leave
it at any position, and so move to another one.

* `step_kept`, `run_count`: an element that stays in the list is read once, unless
  changes move it across the position asked for;
* `run_reads`: the reader comes to an end.
-/

namespace WpaSupplicant

universe u

/-- The list, the position asked for next, and what was read, the latest first. -/
structure CursorScan (α : Type u) where
  items : List α
  pos : Nat
  seen : List α
  done : Bool

namespace CursorScan

open StepSystem (Run countSteps)

variable {α : Type u} [DecidableEq α]

/-- A step of the reader, or a change of the list. -/
inductive Action (α : Type u)
  | read
  | insert (i : Nat) (x : α)
  | erase (i : Nat)
  | idle

def Action.isRead : Action α → Bool
  | .read => true
  | _ => false

def Action.isInsert : Action α → Bool
  | .insert _ _ => true
  | _ => false

def start (items : List α) : CursorScan α where
  items := items
  pos := 0
  seen := []
  done := false

def step (s : CursorScan α) : Action α → Option (CursorScan α)
  | .read =>
      if s.done then none
      else
        match s.items[s.pos]? with
        | some x => some { s with pos := s.pos + 1, seen := x :: s.seen }
        | none => some { s with done := true }
  | .insert i x =>
      if i ≤ s.items.length ∧ x ∉ s.items then
        some { s with items := s.items.insertIdx i x }
      else
        none
  | .erase i =>
      if i < s.items.length then some { s with items := s.items.eraseIdx i } else none
  | .idle => some s

/-- The element is in the part of the list that is not asked for any more. -/
def behind (x : α) (s : CursorScan α) : Bool :=
  decide (s.items.idxOf x < s.pos)

/--
While the reader reads, the step moves the element across the position asked for:
out of the part still to be read, or `back` into it.
-/
def crosses (x : α) (back : Bool) (s : CursorScan α) (a : Action α) : Bool :=
  !s.done && (step s a).any fun s' =>
    decide (s.items.idxOf x < s.pos) == back && decide (s'.items.idxOf x < s.pos) == !back

/--
How often the element was read is told by the side it is on, and by how often it
was moved to the other one.
-/
structure Kept (x : α) (passed repeated : Nat) (s : CursorScan α) : Prop where
  nodup : s.items.Nodup
  reading : s.done = false →
    s.seen.count x + passed = (behind x s).toNat + repeated
  done : s.done = true → s.seen.count x + passed = 1 + repeated

section Step

variable {x : α} {s s' : CursorScan α}

/-- A change of the list is all that happens in its step. -/
theorem step_change {a : Action α} (ha : a.isRead = false) (h : step s a = some s') :
    s'.pos = s.pos ∧ s'.seen = s.seen ∧ s'.done = s.done ∧
      (s.items.Nodup → s'.items.Nodup) ∧
      s'.items.length ≤ s.items.length + if a.isInsert then 1 else 0 := by
  cases a with
  | read =>
      cases ha
  | insert i y =>
      simp only [step] at h
      split at h
      · next hi =>
          cases h
          have hperm := List.perm_insertIdx y s.items hi.1
          refine ⟨rfl, rfl, rfl, fun hnodup => ?_, ?_⟩
          · rw [hperm.nodup_iff]
            exact List.nodup_cons.mpr ⟨hi.2, hnodup⟩
          · simpa [Action.isInsert] using Nat.le_of_eq hperm.length_eq
      · cases h
  | erase i =>
      simp only [step] at h
      split at h
      · next hi =>
          cases h
          refine ⟨rfl, rfl, rfl, List.Nodup.eraseIdx i, ?_⟩
          exact List.length_eraseIdx_le s.items i
      · cases h
  | idle =>
      cases h
      exact ⟨rfl, rfl, rfl, id, Nat.le_add_right _ _⟩

/-- A step of the reader takes the element asked for, or finds that there is none. -/
theorem step_read (h : step s .read = some s') :
    s.done = false ∧
      ((∃ y, s.items[s.pos]? = some y ∧
          s' = { s with pos := s.pos + 1, seen := y :: s.seen }) ∨
        (s.items.length ≤ s.pos ∧ s' = { s with done := true })) := by
  simp only [step] at h
  split at h
  · cases h
  · next hdone =>
      refine ⟨by simpa using hdone, ?_⟩
      cases hy : s.items[s.pos]? with
      | some y =>
          rw [hy] at h
          exact .inl ⟨y, rfl, (Option.some.inj h).symm⟩
      | none =>
          rw [hy] at h
          exact .inr ⟨List.getElem?_eq_none_iff.mp hy, (Option.some.inj h).symm⟩

/-- An element is read exactly when the reader stands on it. -/
theorem eq_iff_idxOf_eq
    (hnodup : s.items.Nodup) (hx : x ∈ s.items) {y : α} (hy : s.items[s.pos]? = some y) :
    y = x ↔ s.items.idxOf x = s.pos := by
  obtain ⟨hlt, rfl⟩ := List.getElem?_eq_some_iff.mp hy
  constructor
  · rintro rfl
    exact hnodup.idxOf_getElem s.pos hlt
  · intro h
    have hget := List.getElem?_idxOf hx
    rw [h, hy] at hget
    exact Option.some.inj hget

theorem kept_read
    {passed repeated : Nat} (h : step s .read = some s')
    (hx : s.done = false → x ∈ s.items) (hs : Kept x passed repeated s) :
    Kept x passed repeated s' := by
  obtain ⟨hdone, ⟨y, hy, rfl⟩ | ⟨hlen, rfl⟩⟩ := step_read h
  · have hcount := hs.reading hdone
    refine ⟨hs.nodup, fun _ => ?_, fun h => by simp [hdone] at h⟩
    have hiff := eq_iff_idxOf_eq hs.nodup (hx hdone) hy
    rw [List.count_cons]
    by_cases hyx : y = x
    · have hpos := hiff.mp hyx
      simp [behind, hyx, hpos] at hcount ⊢
      omega
    · have hpos := mt hiff.mpr hyx
      have hside : s.items.idxOf x < s.pos + 1 ↔ s.items.idxOf x < s.pos := by omega
      simpa [behind, hyx, hside] using hcount
  · have hcount := hs.reading hdone
    refine ⟨hs.nodup, fun h => by simp at h, fun _ => ?_⟩
    have hlt := List.idxOf_lt_length_of_mem (hx hdone)
    rwa [behind, decide_eq_true (by omega)] at hcount

/-- A change moves an element in one direction, or in none. -/
theorem toNat_behind
    {a : Action α} (h : step s a = some s') (hdone : s.done = false) (ha : a.isRead = false) :
    (behind x s').toNat + (crosses x true s a).toNat =
      (behind x s).toNat + (crosses x false s a).toNat := by
  obtain ⟨hpos, _⟩ := step_change ha h
  simp only [crosses, behind, hdone, h, Option.any_some, hpos]
  cases decide (s.items.idxOf x < s.pos) <;> cases decide (s'.items.idxOf x < s.pos) <;> rfl

/-- The reader itself moves nothing. -/
theorem crosses_read (h : step s .read = some s') (back : Bool) :
    crosses x back s .read = false := by
  have hitems : s'.items = s.items := by
    obtain ⟨_, ⟨_, _, rfl⟩ | ⟨_, rfl⟩⟩ := step_read h <;> rfl
  rw [crosses, h, Option.any_some, hitems]
  cases decide (s.items.idxOf x < s.pos) <;> cases back <;> simp

theorem step_kept
    {passed repeated : Nat} {a : Action α} (h : step s a = some s')
    (hx : s.done = false → x ∈ s.items) (hs : Kept x passed repeated s) :
    Kept x (passed + (crosses x false s a).toNat) (repeated + (crosses x true s a).toNat)
      s' := by
  cases ha : a.isRead with
  | true =>
      cases a with
      | read =>
          simpa [crosses_read h] using kept_read h hx hs
      | _ =>
          cases ha
  | false =>
      obtain ⟨hpos, hseen, hdone, hnodup, _⟩ := step_change ha h
      refine ⟨hnodup hs.nodup, fun hreading => ?_, fun hended => ?_⟩
      · rw [hdone] at hreading
        have hcount := hs.reading hreading
        have hbehind := toNat_behind (x := x) h hreading ha
        rw [hseen]
        omega
      · rw [hdone] at hended
        simpa [crosses, hended, hseen] using hs.done hended

end Step

section Runs

variable {A : CursorScan α → Action α → Prop} {items : List α} {hist : List (Action α)}
  {s : CursorScan α}

/--
An element that stays in the list is read once, less the times it was moved out of
the part still to be read, and more by the times it was moved back into it.
-/
theorem run_count
    (hnodup : items.Nodup) {x : α}
    (hrun : Run step (fun s _ => s.done = false → x ∈ s.items) (start items) hist s)
    (hdone : s.done = true) :
    s.seen.count x + countSteps step (crosses x false) (start items) hist =
      1 + countSteps step (crosses x true) (start items) hist := by
  have hkept : Kept x (countSteps step (crosses x false) (start items) hist)
      (countSteps step (crosses x true) (start items) hist) s := by
    clear hdone
    induction hrun with
    | start =>
        refine ⟨hnodup, fun _ => ?_, fun h => by cases h⟩
        simp [start, behind, countSteps]
    | snoc prev hx hstep ih =>
        rw [prev.countSteps_concat, prev.countSteps_concat]
        exact step_kept hstep hx ih
  exact hkept.done hdone

/-- Every step of the reader but the last one takes an element, and there are not many. -/
theorem run_reads
    (hrun : Run step A (start items) hist s) :
    hist.countP Action.isRead = s.seen.length + s.done.toNat ∧ s.pos = s.seen.length ∧
      s.items.length ≤ items.length + hist.countP Action.isInsert ∧
      s.seen.length ≤ items.length + hist.countP Action.isInsert := by
  refine hrun.invariant (I := fun hist s =>
    hist.countP Action.isRead = s.seen.length + s.done.toNat ∧ s.pos = s.seen.length ∧
      s.items.length ≤ items.length + hist.countP Action.isInsert ∧
      s.seen.length ≤ items.length + hist.countP Action.isInsert)
    ⟨rfl, rfl, by simp [start], by simp [start]⟩ ?_
  rintro hist s a s' ⟨hreads, hpos, hlen, hseen⟩ _ hstep
  simp only [List.countP_append, List.countP_singleton]
  cases ha : a.isRead with
  | true =>
      cases a with
      | read =>
          obtain ⟨hdone, ⟨y, hy, rfl⟩ | ⟨hend, rfl⟩⟩ := step_read hstep
          · obtain ⟨hlt, _⟩ := List.getElem?_eq_some_iff.mp hy
            simp only [hdone, Bool.toNat_false, List.length_cons, Action.isInsert] at *
            simp only [if_true, Bool.false_eq_true, if_false]
            omega
          · simp only [hdone, Bool.toNat_false, Bool.toNat_true, Action.isInsert] at *
            simp only [if_true, Bool.false_eq_true, if_false]
            omega
      | _ =>
          cases ha
  | false =>
      obtain ⟨hpos', hseen', hdone', _, hlen'⟩ := step_change ha hstep
      rw [hpos', hseen', hdone']
      simp only [Bool.false_eq_true, if_false]
      omega

end Runs

end CursorScan
end WpaSupplicant
