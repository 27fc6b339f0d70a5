import Mathlib.Data.List.Basic
import Mathlib.Tactic.Common

/-!
# Counting extended grapheme clusters

The boundary rules of Unicode text segmentation (GB3 to GB999) over the break
classes of the characters.  Which character has which class is data of the
Unicode version in use, so the rules stand alone here.

* `clustersFrom_append`: clusters are counted from left to right;
* `eq_prepend_of_joined`: only `prepend` characters start no cluster up to a
  `prepend` character;
* `Context.Plain.clustersFrom_eq_zero_iff`: what starts no cluster behind a plain
  character;
* `clusters_eq_run_iff`: which texts have no cluster but those of a run of plain
  characters in it.
-/

namespace WpaSupplicant
namespace Grapheme

/-- Values of the `Grapheme_Cluster_Break` property, with `Extended_Pictographic`. -/
inductive Class
  | cr
  | lf
  | control
  | extend
  | zwj
  | regionalIndicator
  | prepend
  | spacingMark
  | hangulL
  | hangulV
  | hangulT
  | hangulLV
  | hangulLVT
  | pictographic
  | other
deriving DecidableEq

/-- What the rules need to know about the text read so far. -/
structure Context where
  prev : Class
  /-- The text ends in a pictograph, extenders and joiners. -/
  inPictograph : Bool
  /-- The text ends in an odd run of regional indicators. -/
  oddIndicators : Bool

/-- CR, LF and controls are clusters of their own. -/
def Class.breaksAround : Class → Bool
  | .cr | .lf | .control => true
  | _ => false

/-- Hangul syllable sequences (GB6 to GB8). -/
def hangulJoins : Class → Class → Bool
  | .hangulL, .hangulL | .hangulL, .hangulV | .hangulL, .hangulLV
  | .hangulL, .hangulLVT => true
  | .hangulLV, .hangulV | .hangulLV, .hangulT => true
  | .hangulV, .hangulV | .hangulV, .hangulT => true
  | .hangulLVT, .hangulT | .hangulT, .hangulT => true
  | _, _ => false

/-- Extenders, joiners and spacing marks join what precedes them (GB9, GB9a). -/
def Class.joinsBack : Class → Bool
  | .extend | .zwj | .spacingMark => true
  | _ => false

/-- There is no boundary between the text so far and the next character. -/
def joins (ctx : Context) (next : Class) : Bool :=
  if ctx.prev.breaksAround || next.breaksAround then
    -- GB3 is the only exception to GB4 and GB5
    ctx.prev == .cr && next == .lf
  else
    hangulJoins ctx.prev next ||
    next.joinsBack ||
    ctx.prev == .prepend ||
    (ctx.inPictograph && ctx.prev == .zwj && next == .pictographic) ||
    (ctx.oddIndicators && next == .regionalIndicator)

/-- The context after one more character. -/
def Context.push (ctx : Context) (next : Class) : Context where
  prev := next
  inPictograph :=
    match next with
    | .pictographic => true
    | .extend | .zwj => ctx.inPictograph
    | _ => false
  oddIndicators :=
    match next with
    | .regionalIndicator => !ctx.oddIndicators
    | _ => false

/-- The context after the first character of a text. -/
def Context.first (next : Class) : Context where
  prev := next
  inPictograph := next == .pictographic
  oddIndicators := next == .regionalIndicator

/-- Clusters started by further characters. -/
def clustersFrom (ctx : Context) : List Class → Nat
  | [] => 0
  | x :: xs => (if joins ctx x then 0 else 1) + clustersFrom (ctx.push x) xs

/-- The number of extended grapheme clusters of a text. -/
def clusters : List Class → Nat
  | [] => 0
  | x :: xs => 1 + clustersFrom (.first x) xs

/-- The context after a text. -/
def Context.pushAll (ctx : Context) (xs : List Class) : Context :=
  xs.foldl Context.push ctx

theorem clustersFrom_append
    (ctx : Context) (xs ys : List Class) :
    clustersFrom ctx (xs ++ ys) =
      clustersFrom ctx xs + clustersFrom (ctx.pushAll xs) ys := by
  induction xs generalizing ctx with
  | nil =>
      simp [clustersFrom, Context.pushAll]
  | cons x xs ih =>
      simp [clustersFrom, ih, Context.pushAll, Nat.add_assoc]

@[simp] theorem prev_push (ctx : Context) (x : Class) :
    (ctx.push x).prev = x := rfl

/-- A plain character joins only a `prepend` character. -/
theorem joins_other
    {ctx : Context} (h : joins ctx .other = true) :
    ctx.prev = .prepend := by
  revert h
  obtain ⟨prev, inPictograph, oddIndicators⟩ := ctx
  cases prev <;>
    simp [joins, Class.breaksAround, hangulJoins, Class.joinsBack]

/-- A `prepend` character joins only another one. -/
theorem joins_prepend
    {ctx : Context} (h : joins ctx .prepend = true) :
    ctx.prev = .prepend := by
  revert h
  obtain ⟨prev, inPictograph, oddIndicators⟩ := ctx
  cases prev <;>
    simp [joins, Class.breaksAround, hangulJoins, Class.joinsBack]

/-- Plain characters after a plain character each start a cluster. -/
theorem clustersFrom_replicate_other
    {ctx : Context} (hctx : ctx.prev ≠ .prepend) (n : Nat) :
    clustersFrom ctx (List.replicate n .other) = n := by
  induction n generalizing ctx with
  | zero =>
      rfl
  | succ n ih =>
      have hjoin : joins ctx .other = false := by
        rw [Bool.eq_false_iff]
        exact fun h => hctx (joins_other h)
      rw [List.replicate_succ, clustersFrom, hjoin, ih (by simp)]
      simp [Nat.add_comm]

/-- No cluster starts in text up to a `prepend` character only if all of it is `prepend`. -/
theorem eq_prepend_of_joined
    {ctx : Context} {xs : List Class}
    (hxs : clustersFrom ctx xs = 0)
    (hlast : (ctx.pushAll xs).prev = .prepend) :
    ctx.prev = .prepend ∧ ∀ x ∈ xs, x = .prepend := by
  induction xs generalizing ctx with
  | nil =>
      exact ⟨hlast, by simp⟩
  | cons x xs ih =>
      rw [clustersFrom] at hxs
      obtain ⟨hx, hall⟩ := @ih (ctx.push x) (by omega) hlast
      rw [prev_push] at hx
      subst hx
      refine ⟨?_, by simpa using hall⟩
      apply joins_prepend
      by_contra hjoin
      simp [hjoin] at hxs

theorem clustersFrom_of_prepend
    {ctx : Context} (hctx : ctx.prev = .prepend)
    {xs : List Class} (hxs : ∀ x ∈ xs, x = .prepend) :
    clustersFrom ctx xs = 0 ∧ (ctx.pushAll xs).prev = .prepend := by
  induction xs generalizing ctx with
  | nil =>
      exact ⟨rfl, hctx⟩
  | cons x xs ih =>
      obtain rfl := hxs x (by simp)
      have hjoin : joins ctx .prepend = true := by
        simp [joins, hctx, Class.breaksAround]
      obtain ⟨hzero, hlast⟩ := @ih (ctx.push .prepend) rfl
        (fun y hy => hxs y (List.mem_cons_of_mem _ hy))
      refine ⟨?_, hlast⟩
      rw [clustersFrom, if_pos hjoin, hzero]

/-- The text so far ends in a plain character and what joined it. -/
structure Context.Plain (ctx : Context) : Prop where
  prev : ctx.prev = .other ∨ ctx.prev.joinsBack = true
  inPictograph : ctx.inPictograph = false
  oddIndicators : ctx.oddIndicators = false

theorem plain_push_other (ctx : Context) : (ctx.push .other).Plain :=
  ⟨.inl rfl, rfl, rfl⟩

theorem Context.Plain.push
    {ctx : Context} (h : ctx.Plain) {x : Class} (hx : x.joinsBack = true) :
    (ctx.push x).Plain := by
  refine ⟨.inr hx, ?_, ?_⟩
  · cases x <;> simp [Class.joinsBack] at hx <;> simp [Context.push, h.inPictograph]
  · cases x <;> simp [Class.joinsBack] at hx <;> rfl

/-- Behind a plain character only what joins everything is no cluster of its own. -/
theorem Context.Plain.joins_iff
    {ctx : Context} (h : ctx.Plain) (x : Class) : joins ctx x = x.joinsBack := by
  obtain ⟨prev, inPictograph, oddIndicators⟩ := ctx
  obtain ⟨hprev, rfl, rfl⟩ := h
  cases prev <;> simp [Class.joinsBack] at hprev <;> cases x <;> rfl

theorem Context.Plain.clustersFrom_eq_zero_iff
    {ctx : Context} (h : ctx.Plain) (ys : List Class) :
    clustersFrom ctx ys = 0 ↔ ∀ y ∈ ys, y.joinsBack = true := by
  induction ys generalizing ctx with
  | nil =>
      simp [clustersFrom]
  | cons y ys ih =>
      rw [clustersFrom, h.joins_iff, List.forall_mem_cons]
      by_cases hy : y.joinsBack = true
      · simpa [hy] using ih (h.push hy)
      · simp [hy]

/-- What a run of plain characters and the text behind it add. -/
theorem clustersFrom_run
    (ctx : Context) (n : Nat) (ys : List Class) :
    ∃ k, clustersFrom ctx (List.replicate (n + 1) .other ++ ys) =
        (if joins ctx .other then 0 else 1) + n + k ∧
      (k = 0 ↔ ∀ y ∈ ys, y.joinsBack = true) := by
  have hplain : (ctx.pushAll (List.replicate (n + 1) .other)).Plain := by
    rw [List.replicate_succ', Context.pushAll, List.foldl_concat]
    exact plain_push_other _
  refine ⟨_, ?_, hplain.clustersFrom_eq_zero_iff ys⟩
  rw [clustersFrom_append, List.replicate_succ, clustersFrom,
    clustersFrom_replicate_other (by simp)]

/--
A run of plain characters makes up all clusters of a text exactly when nothing
but `prepend` characters stand in front of it, and nothing but characters that
join what precedes them stand behind it.
-/
theorem clusters_eq_run_iff (xs ys : List Class) (n : Nat) :
    clusters (xs ++ (List.replicate (n + 1) .other ++ ys)) = n + 1 ↔
      (∀ x ∈ xs, x = .prepend) ∧ ∀ y ∈ ys, y.joinsBack = true := by
  cases xs with
  | nil =>
      have hplain : ((Context.first .other).pushAll (List.replicate n .other)).Plain := by
        cases n with
        | zero =>
            exact ⟨.inl rfl, rfl, rfl⟩
        | succ n =>
            rw [List.replicate_succ', Context.pushAll, List.foldl_concat]
            exact plain_push_other _
      rw [List.nil_append, List.replicate_succ, List.cons_append, clusters,
        clustersFrom_append, clustersFrom_replicate_other (by simp [Context.first]),
        ← hplain.clustersFrom_eq_zero_iff]
      simp only [List.not_mem_nil, false_implies, implies_true, true_and]
      omega
  | cons x xs =>
      obtain ⟨k, hrun, hk⟩ := clustersFrom_run ((Context.first x).pushAll xs) n ys
      rw [List.cons_append, clusters, clustersFrom_append, hrun, ← hk, List.forall_mem_cons]
      constructor
      · intro h
        have hjoin : joins ((Context.first x).pushAll xs) .other = true := by
          by_contra hjoin
          rw [if_neg hjoin] at h
          omega
        rw [if_pos hjoin] at h
        have hfront := eq_prepend_of_joined (by omega) (joins_other hjoin)
        exact ⟨by simpa [Context.first] using hfront, by omega⟩
      · rintro ⟨⟨rfl, hxs⟩, rfl⟩
        have hfirst : (Context.first .prepend).prev = .prepend := rfl
        obtain ⟨hzero, hlast⟩ := clustersFrom_of_prepend hfirst hxs
        have hjoin : joins ((Context.first .prepend).pushAll xs) .other = true := by
          simp [joins, hlast, Class.breaksAround]
        rw [hzero, if_pos hjoin]
        omega

end Grapheme
end WpaSupplicant
