import WpaSupplicant.ServerHandlers
import Mathlib.Data.Seq.Defs

/-!
# Scanning

`scan/1` and `all_bss/3` as a program of the calling process: a state is what
the caller waits for, a step is what arrives next.  Events arrive in a finite or
infinite sequence, of which the caller consumes a part.

* `afterEvents_eq`: the caller stops at the first event other than the awaited
  one;
* `not_waitsForResults`: so it never stops at the awaited one.
-/

namespace WpaSupplicant
namespace Scan

open Decode (Reply Notif)
open Stream' (Seq)

/-- What the caller of `scan` waits for. -/
inductive State
  | fetchingManager
  | scanning
  | waiting
  | enumerating (count : Nat) (acc : List Reply)
  | returned (result : List Reply)
  | crashed
deriving DecidableEq

/-- What can arrive: replies of the server, events of the stream, a timeout. -/
inductive Input
  | manager (pid : Pid)
  | answer (r : Reply)
  | event (e : WpaEvent)
  | timeout
deriving DecidableEq

/-- `{:wpa_supplicant, pid, :"CTRL-EVENT-SCAN-RESULTS"}`. -/
def scanResults (server : Pid) : WpaEvent :=
  ⟨server, .bare (.lit "CTRL-EVENT-SCAN-RESULTS")⟩

/-- The replies for which `if result` takes its `else` branch. -/
def isNil : Reply → Bool
  | .nil => true
  | _ => false

/-- `scan/1` and `all_bss/3`; `none` when the caller does not take the input. -/
def step (server : Pid) : State → Input → Option State
  | .fetchingManager, .manager _ => some .scanning
  | .scanning, .answer r =>
      if r = .atom .ok ∨ r = .text (lit "FAIL-BUSY") then some .waiting
      else some .crashed
  | .waiting, .event e =>
      -- `take_while` goes on as long as its predicate holds
      if e = scanResults server then some .waiting else some (.enumerating 0 [])
  | .enumerating count acc, .answer r =>
      if isNil r then some (.returned acc) else some (.enumerating (count + 1) (r :: acc))
  | .returned _, _ => none
  | .crashed, _ => none
  | _, .timeout => some .crashed
  | _, _ => none

/-- The request that the caller waits for the answer of. -/
def request? : State → Option Term
  | .scanning => some (.atom (.lit "SCAN"))
  | .enumerating count _ => some (.tuple [.atom (.lit "BSS"), .int count])
  | _ => none

/--
The caller, once `SCAN` is answered, after the first `n` events; an event it does
not take stays in its mailbox.
-/
def afterEvents (server : Pid) (events : Seq WpaEvent) : Nat → State
  | 0 => .waiting
  | n + 1 =>
      match events.get? n with
      | some e =>
          (step server (afterEvents server events n) (.event e)).getD
            (afterEvents server events n)
      | none => afterEvents server events n

/-- The `n`-th event is the first one that reports scan results. -/
def FirstResults (server : Pid) (events : Seq WpaEvent) (n : Nat) : Prop :=
  events.get? n = some (scanResults server) ∧
    ∀ i < n, events.get? i ≠ some (scanResults server)

/--
The caller takes the events up to and including the first scan results, and
then asks for the first scan entry.
-/
def WaitsForResults (server : Pid) (events : Seq WpaEvent) : Prop :=
  ∀ n, FirstResults server events n →
    (∀ k ≤ n, afterEvents server events k = .waiting) ∧
      request? (afterEvents server events (n + 1)) =
        some (.tuple [.atom (.lit "BSS"), .int 0])

section Waiting

variable {server : Pid} {events : Seq WpaEvent}

theorem afterEvents_succ_of_waiting
    {n : Nat} {e : WpaEvent}
    (hn : afterEvents server events n = .waiting) (he : events.get? n = some e) :
    afterEvents server events (n + 1) =
      if e = scanResults server then .waiting else .enumerating 0 [] := by
  rw [afterEvents, he, hn]
  simp only [step]
  split <;> rfl

theorem afterEvents_succ_of_enumerating
    {n : Nat} (hn : afterEvents server events n = .enumerating 0 []) :
    afterEvents server events (n + 1) = .enumerating 0 [] := by
  rw [afterEvents, hn]
  cases events.get? n <;> rfl

/-- The caller waits as long as every event reports scan results. -/
theorem afterEvents_eq (n : Nat) :
    (afterEvents server events n = .waiting ∧
        ∀ i < n, ∀ e ∈ events.get? i, e = scanResults server) ∨
      (afterEvents server events n = .enumerating 0 [] ∧
        ∃ i < n, ∃ e ∈ events.get? i, e ≠ scanResults server) := by
  induction n with
  | zero =>
      exact .inl ⟨rfl, by simp⟩
  | succ n ih =>
      rcases ih with ⟨hwaiting, hall⟩ | ⟨hdone, i, hi, he⟩
      · cases hget : events.get? n with
        | none =>
            left
            refine ⟨by rw [afterEvents, hget, hwaiting], ?_⟩
            intro i hi e he
            rcases Nat.lt_succ_iff_lt_or_eq.mp hi with hlt | rfl
            · exact hall i hlt e he
            · simp [hget] at he
        | some e =>
            rw [afterEvents_succ_of_waiting hwaiting hget]
            by_cases hresults : e = scanResults server
            · left
              rw [if_pos hresults]
              refine ⟨rfl, ?_⟩
              intro i hi e' he'
              rcases Nat.lt_succ_iff_lt_or_eq.mp hi with hlt | rfl
              · exact hall i hlt e' he'
              · rw [hget, Option.mem_some_iff] at he'
                rw [← he', hresults]
            · right
              rw [if_neg hresults]
              exact ⟨rfl, n, n.lt_succ_self, e, hget, hresults⟩
      · exact .inr ⟨afterEvents_succ_of_enumerating hdone, i, hi.trans n.lt_succ_self, he⟩

/-- Scan results that come first are waited out, and any others come too late. -/
theorem not_waitsForResults
    (hresults : ∃ n, events.get? n = some (scanResults server)) :
    ¬ WaitsForResults server events := by
  classical
  intro hwaits
  have hfirst : FirstResults server events (Nat.find hresults) :=
    ⟨Nat.find_spec hresults, fun i hi => Nat.find_min hresults hi⟩
  obtain ⟨hbefore, hafter⟩ := hwaits _ hfirst
  generalize Nat.find hresults = n at hfirst hbefore hafter
  obtain ⟨hget, hmin⟩ := hfirst
  rcases afterEvents_eq n with ⟨hwaiting, hall⟩ | ⟨hdone, _⟩
  · cases n with
    | zero =>
        rw [afterEvents_succ_of_waiting hwaiting hget, if_pos rfl] at hafter
        cases hafter
    | succ n =>
        -- the first event was not the awaited one, and it ended the wait
        obtain ⟨e, he⟩ : ∃ e, events.get? 0 = some e := by
          apply Option.ne_none_iff_exists'.mp
          intro hnone
          simp [events.le_stable (Nat.zero_le (n + 1)) hnone] at hget
        refine hmin 0 (by omega) ?_
        rw [he, hall 0 (by omega) e he]
  · rw [hbefore n le_rfl] at hdone
    cases hdone

/-- Scan results that are the only event are waited out. -/
theorem not_waitsForResults_at_once :
    ¬ WaitsForResults 9 (Seq.ofList [scanResults 9]) :=
  not_waitsForResults ⟨0, rfl⟩

end Waiting

/-- Scan results after the start of the scan find the caller already enumerating. -/
theorem enumerates_when_started :
    ¬ WaitsForResults 9
      (Seq.ofList [⟨9, .bare .scanStarted⟩, scanResults 9]) := by
  intro hwaits
  have hfirst : FirstResults 9
      (Seq.ofList [⟨9, .bare .scanStarted⟩, scanResults 9]) 1 := by
    refine ⟨rfl, fun i hi => ?_⟩
    obtain rfl : i = 0 := by omega
    decide +kernel
  have hone := (hwaits 1 hfirst).1 1 le_rfl
  exact absurd hone (by decide +kernel)

end Scan
end WpaSupplicant
