import WpaSupplicant.AmortizedRuns
import WpaSupplicant.EndOfInput
import WpaSupplicant.InputBufferBounds

/-!
# What pays for the calls of wpa_ex

wpa_ex has loops within loops: over `poll`, over the requests in its buffer, over messages,
over attempts to send and over interrupted calls.  None of them spins: every call is paid
for by something that has come in from outside, under the one assumption that the clock
does not stand still while wpa_ex sleeps.

* `CtrlRequest.Clock`: the assumption on the clock, over any number of requests;
* `CtrlRequest.request_returns`: `wpa_ctrl_request` comes to an end;
* `Main.run_paid`: the calls of a whole run of the program.
-/

namespace WpaSupplicant

open StepSystem (Run run? run_of_run?)
open WpaCtrl (Client Kernel OpenPoint)

namespace CtrlRequest

/-- The earliest time that it can be after a call. -/
def tick (now : Int) : Call → Int
  | .getReltime t => t.micros
  | .sleep => now + 1000000
  | _ => now

/-- What a reading of the clock is at a time. -/
def OnTime (now : Int) : Call → Prop
  | .getReltime t => t.Normal ∧ 0 ≤ t.sec ∧ now ≤ t.micros
  | _ => True

instance (now : Int) (c : Call) : Decidable (OnTime now c) :=
  match c with
  | .getReltime t => inferInstanceAs (Decidable (t.Normal ∧ 0 ≤ t.sec ∧ now ≤ t.micros))
  | .send _ _ | .sleep | .select _ | .recv _ _ | .msgCb _ => .isTrue trivial

/-- The clock does not go back, and to sleep for a second takes a second. -/
def Clock : Int → List Call → Prop
  | _, [] => True
  | now, c :: hist => OnTime now c ∧ Clock (tick now c) hist

instance decidableClock : (now : Int) → (hist : List Call) → Decidable (Clock now hist)
  | _, [] => .isTrue trivial
  | now, c :: hist =>
      have := decidableClock (tick now c) hist
      inferInstanceAs (Decidable (OnTime now c ∧ Clock (tick now c) hist))

/-- The time after some calls. -/
def time (hist : List Call) : Int :=
  hist.foldl tick 0

/-- A message pays for three calls. -/
def price : Call → Nat
  | .recv _ (.datagram _) => 3
  | _ => 0

/-- How often `send` can be called from a time on, the coming call included. -/
def attemptsLeft (now : Int) (startedAt : Reltime) : Nat :=
  if startedAt.sec = 0 then if now < 1000000 then 8 else 7
  else max 1 ((startedAt.micros + 5 * 1000000 - now) / 1000000 + 2).toNat

/-- How many calls there are to come if no message does. -/
def budget (now : Int) (s : CtrlRequest) : Nat :=
  match s.point with
  | .send => 3 * attemptsLeft now s.startedAt
  | .startedAt | .now => 3 * attemptsLeft now s.startedAt - 1
  | .sleep => 3 * attemptsLeft (now + 1000000) s.startedAt + 1
  | .select => 2
  | .recv => 1
  | .msgCb _ => 3
  | .returned _ => 0

/-- Where `started_at` is read and set. -/
structure TimeKept (s : CtrlRequest) : Prop where
  normal : s.startedAt.Normal
  unset : s.point = .startedAt → s.startedAt.sec = 0
  set : s.point = .now → s.startedAt.sec ≠ 0

variable {args : Args} {hist : List Call} {s s' : CtrlRequest} {c : Call} {reply : Binary}
variable {now : Int} {startedAt t : Reltime}

theorem time_concat (hist : List Call) (c : Call) : time (hist ++ [c]) = tick (time hist) c :=
  List.foldl_append

theorem clock_append (xs ys : List Call) :
    Clock now (xs ++ ys) ↔ Clock now xs ∧ Clock (xs.foldl tick now) ys := by
  induction xs generalizing now with
  | nil =>
      simp [Clock]
  | cons c xs ih =>
      simp [Clock, ih, and_assoc]

theorem attemptsLeft_pos (now : Int) (startedAt : Reltime) : 0 < attemptsLeft now startedAt := by
  unfold attemptsLeft
  split
  · split <;> decide
  · exact Nat.lt_of_lt_of_le Nat.one_pos (le_max_left _ _)

theorem attemptsLeft_le (h : startedAt.sec = 0) : attemptsLeft now startedAt ≤ 8 := by
  unfold attemptsLeft
  rw [if_pos h]
  split <;> decide

/-- The first reading takes one attempt, even if it stands for no time. -/
theorem attemptsLeft_started
    (hunset : startedAt.sec = 0) (ht : OnTime now (.getReltime t)) :
    attemptsLeft (t.micros + 1000000) t + 1 ≤ attemptsLeft now startedAt := by
  obtain ⟨⟨hlow, hhigh⟩, hsec, hle⟩ := ht
  have hmicros : t.micros = t.sec * 1000000 + t.usec := rfl
  rw [attemptsLeft, attemptsLeft, if_pos hunset]
  split
  · next hzero =>
      rw [if_neg (by omega), if_pos (by omega)]
  · split <;> omega

/-- Each further one takes an attempt as long as there is time. -/
theorem attemptsLeft_notExpired
    (hset : startedAt.sec ≠ 0) (hstarted : startedAt.Normal) (ht : OnTime now (.getReltime t))
    (hexpired : ¬ t.Expired startedAt 5) :
    attemptsLeft (t.micros + 1000000) startedAt + 1 ≤ attemptsLeft now startedAt := by
  obtain ⟨hnormal, _, hle⟩ := ht
  rw [Reltime.expired_iff hnormal hstarted] at hexpired
  rw [attemptsLeft, attemptsLeft, if_neg hset, if_neg hset]
  omega

/-- Before it returns there is a call to come. -/
theorem budget_pos (h : ∀ r, s.point ≠ .returned r) : 0 < budget now s := by
  unfold budget
  have hpos (now : Int) := attemptsLeft_pos now s.startedAt
  split
  case h_8 r hpoint =>
    exact absurd hpoint (h r)
  all_goals
    have := hpos now
    omega

theorem TimeKept.goto
    (h : TimeKept s) {p : Point} (hstarted : p ≠ .startedAt) (hnow : p ≠ .now) :
    TimeKept (s.goto p) :=
  ⟨h.normal, fun hp => absurd hp hstarted, fun hp => absurd hp hnow⟩

theorem received_budget (hs : TimeKept s) (d : Binary) :
    TimeKept (s.received args d) ∧ budget now (s.received args d) ≤ 3 := by
  unfold received
  dsimp only
  split
  · split
    · exact ⟨⟨hs.normal, by simp, by simp⟩, le_rfl⟩
    · exact ⟨⟨hs.normal, by simp [CtrlRequest.goto], by simp [CtrlRequest.goto]⟩, by
        simp [budget, CtrlRequest.goto]⟩
  · exact ⟨⟨hs.normal, by simp [CtrlRequest.goto], by simp [CtrlRequest.goto]⟩, by
      simp [budget, CtrlRequest.goto]⟩

theorem step_budget
    (h : step args s c = some s') (hs : TimeKept s) (hc : OnTime now c) :
    TimeKept s' ∧ budget (tick now c) s' + 1 ≤ budget now s + price c := by
  have hpos := attemptsLeft_pos now s.startedAt
  cases step_cases h with
  | sent hpoint =>
      refine ⟨hs.goto (by simp) (by simp), ?_⟩
      simp only [budget, hpoint, CtrlRequest.goto]
      omega
  | again hpoint =>
      by_cases hunset : s.startedAt.sec = 0
      · rw [if_pos hunset]
        refine ⟨⟨hs.normal, fun _ => hunset, by simp [CtrlRequest.goto]⟩, ?_⟩
        simp only [budget, hpoint, CtrlRequest.goto, tick]
        omega
      · rw [if_neg hunset]
        refine ⟨⟨hs.normal, by simp [CtrlRequest.goto], fun _ => hunset⟩, ?_⟩
        simp only [budget, hpoint, CtrlRequest.goto, tick]
        omega
  | started t hpoint =>
      have hattempts := attemptsLeft_started (hs.unset hpoint) hc
      refine ⟨⟨hc.1, by simp, by simp⟩, ?_⟩
      simp only [budget, hpoint, tick]
      omega
  | expired n hpoint | notSent hpoint | notReady r result hpoint | notReceived hpoint =>
      have hpos : 0 < budget now s := budget_pos (by simp [hpoint])
      exact ⟨hs.goto (by simp) (by simp), Nat.le_add_right_of_le hpos⟩
  | notExpired n hpoint hexpired =>
      have hattempts := attemptsLeft_notExpired (hs.set hpoint) hs.normal hc hexpired
      refine ⟨hs.goto (by simp) (by simp), ?_⟩
      simp only [budget, hpoint, CtrlRequest.goto, tick]
      omega
  | received d hpoint =>
      have hreceived : TimeKept (s.received args d) ∧ budget now (s.received args d) ≤ 3 :=
        received_budget hs d
      refine ⟨hreceived.1, ?_⟩
      have hbudget := hreceived.2
      simp only [budget, hpoint, tick, price] at hbudget ⊢
      omega
  | slept hpoint | ready hpoint | calledBack len hpoint =>
      refine ⟨hs.goto (by simp) (by simp), ?_⟩
      simp [budget, hpoint, CtrlRequest.goto, tick]

theorem sum_price (hist : List Call) :
    (hist.map price).sum = 3 * (messages hist).length := by
  induction hist with
  | nil =>
      rfl
  | cons c hist ih =>
      have hone : price c = 3 * (messages [c]).length := by
        unfold price messages
        split <;> simp
      have hmessages : messages (c :: hist) = messages [c] ++ messages hist := by
        simp [messages]
      rw [List.map_cons, List.sum_cons, ih, hone, hmessages, List.length_append]
      omega

theorem exists_step (h : ∀ r, s.point ≠ .returned r) : ∃ c, (step args s c).isSome := by
  cases hpoint : s.point with
  | send =>
      exact ⟨.send args.cmd .ok, by simp [step, hpoint]⟩
  | startedAt | now =>
      exact ⟨.getReltime ⟨0, 0⟩, by simp [step, hpoint]⟩
  | sleep =>
      exact ⟨.sleep, by simp [step, hpoint]⟩
  | select =>
      exact ⟨.select .ready, by simp [step, hpoint]⟩
  | recv =>
      exact ⟨.recv args.replyLen .failed, by simp [step, hpoint]⟩
  | msgCb len =>
      exact ⟨.msgCb (s.reply.take len), by simp [step, hpoint]⟩
  | returned r =>
      exact absurd hpoint (h r)

theorem timeKept_start (reply : Binary) : TimeKept (start reply) :=
  ⟨(by decide : Reltime.Normal ⟨0, 0⟩), by simp [start], by simp [start]⟩

theorem budget_start_le (now : Int) (reply : Binary) : budget now (start reply) ≤ 24 :=
  Nat.mul_le_mul_left 3 (attemptsLeft_le rfl)

/--
`wpa_ctrl_request` comes to an end: eight attempts of three calls are the most that it
makes without a message, and three calls for each message; and until it returns there is
a next call.
-/
theorem request_returns
    (hrun : Run (step args) (fun _ _ => True) (start reply) hist s) (hclock : Clock 0 hist) :
    hist.length ≤ 24 + 3 * (messages hist).length ∧
      ((∀ r, s.point ≠ .returned r) → ∃ c, (step args s c).isSome) := by
  obtain ⟨_, hpaid⟩ := hrun.length_add_le price (fun hist s => budget (time hist) s)
    (C := Clock 0) (timeKept_start reply) (fun hC => ((clock_append _ _).mp hC).1)
    (fun hs hC hstep => by
      rw [time_concat]
      exact step_budget hstep hs ((clock_append _ _).mp hC).2.1)
    hclock
  have hstart := budget_start_le (time []) reply
  rw [sum_price] at hpaid
  exact ⟨by omega, exists_step⟩

/-- The clock starts in its first second, and the eighth attempt is the first to succeed. -/
def lateCalls : List Call :=
  (List.range 7).flatMap (fun i =>
    [.send (lit "PING") .again, .getReltime ⟨i, 999999⟩, .sleep]) ++
    [.send (lit "PING") .ok, .select .ready, .recv 6 .failed]

/-- There are no more calls without a message. -/
theorem request_returns_late :
    ∃ s, Run (step pingArgs) (fun _ _ => True) (start (List.replicate 8 0)) lateCalls s ∧
      lateCalls.length = 24 ∧ lateCalls.length ≤ 24 + 3 * (messages lateCalls).length := by
  have hend : (run? (step pingArgs) (fun _ _ => True) (start (List.replicate 8 0))
      lateCalls).isSome := by
    decide +kernel
  obtain ⟨s, hs⟩ := Option.isSome_iff_exists.mp hend
  have hclock : Clock 0 lateCalls := by decide +kernel
  exact ⟨s, run_of_run? hs, rfl, (request_returns (run_of_run? hs) hclock).1⟩

end CtrlRequest

namespace WpaEx

/-- The calls on the clock, among others. -/
def MainCall.ctrlCalls : MainCall → List CtrlRequest.Call
  | .attaching c | .request c => [c]
  | _ => []

/-- A poll and a message pay for three calls, a byte that is read for thirteen. -/
def MainCall.price : MainCall → Nat
  | .attaching c | .request c => CtrlRequest.price c
  | .loop (.poll _) => 3
  | .loop (.read (.bytes input)) => 13 * input.length
  | .loop (.recv (.datagram _)) => 3
  | .loop (.writev _ .interrupted) => 1
  | _ => 0

namespace Loop

/-- Where `started_at` is read and set. -/
def TimeKept (l : Loop) : Prop :=
  match l.point with
  | .request _ startedAt p => CtrlRequest.TimeKept ⟨startedAt, l.wpaBuffer, p⟩
  | _ => True

/--
How many calls there are to come before `poll` if no message does, and one more to end with.
-/
def budget (now : Int) (l : Loop) : Nat :=
  match l.point with
  | .poll | .recvWpa => 13 * l.buffer.ix + 1
  | .pendingWpa => 13 * l.buffer.ix + 2
  | .readErl _ | .sendMessage _ => 13 * l.buffer.ix + 3
  | .request q startedAt p =>
      13 * (l.buffer.ix - q.processed) + 3 + CtrlRequest.budget now ⟨startedAt, l.wpaBuffer, p⟩
  | .sendReply q _ => 13 * (l.buffer.ix - q.processed) + 3
  | .exited _ => 0

variable {l l' : Loop} {q : Request}

theorem budget_pos (now : Int) (h : ∀ e, l.point ≠ .exited e) : 0 < l.budget now := by
  unfold budget
  split
  case h_8 e hpoint =>
    exact absurd hpoint (h e)
  all_goals omega

theorem leaveErl_budget (now : Int) (l : Loop) (b : ErlBuffer) (wpaReady : Bool) :
    (l.leaveErl b wpaReady).TimeKept ∧ (l.leaveErl b wpaReady).budget now ≤ 13 * b.ix + 2 := by
  cases wpaReady
  · exact ⟨trivial, Nat.le_succ _⟩
  · exact ⟨trivial, le_rfl⟩

/-- The header of a request pays for its calls. -/
theorem dispatch_budget (now : Int) (l : Loop) (b : ErlBuffer) (wpaReady : Bool) :
    (l.dispatch b wpaReady).TimeKept ∧ (l.dispatch b wpaReady).budget now ≤ 13 * b.ix + 2 := by
  unfold dispatch
  split
  · exact leaveErl_budget now l b wpaReady
  · exact ⟨trivial, Nat.zero_le _⟩
  · next cmd n hdispatch =>
      have hstart := CtrlRequest.budget_start_le now l.wpaBuffer
      have hheader := two_le_processed hdispatch
      have hwhole := (tryDispatch_eq_request hdispatch).2.1
      refine ⟨CtrlRequest.timeKept_start l.wpaBuffer, ?_⟩
      simp only [budget, CtrlRequest.start] at hstart ⊢
      omega

theorem afterRequest_budget (now : Int) (l : Loop) (q : Request) :
    (l.afterRequest q).TimeKept ∧
      (l.afterRequest q).budget now ≤ 13 * (l.buffer.ix - q.processed) + 2 := by
  unfold afterRequest
  split
  · exact dispatch_budget now l (l.buffer.shift q.processed) q.wpaReady
  · obtain ⟨hkept, hle⟩ := leaveErl_budget now l l.buffer.reset q.wpaReady
    exact ⟨hkept, hle.trans (Nat.add_le_add_right (Nat.zero_le _) 2)⟩

theorem requested_budget
    (now : Int) (b : ErlBuffer) (q : Request) {r : CtrlRequest} (hr : CtrlRequest.TimeKept r) :
    (requested b q r).TimeKept ∧
      (requested b q r).budget now ≤
        13 * (b.ix - q.processed) + 3 + CtrlRequest.budget now r := by
  unfold requested
  split
  · exact ⟨trivial, Nat.le_add_right _ _⟩
  · exact ⟨trivial, Nat.zero_le _⟩
  · exact ⟨hr, le_rfl⟩

/-- What a step has to keep, and what it may cost. -/
def Pays (now : Int) (l : Loop) (c : MainCall) (l' : Loop) : Prop :=
  l'.TimeKept ∧ l'.budget (c.ctrlCalls.foldl CtrlRequest.tick now) + 1 ≤ l.budget now + c.price

theorem stepRequest_budget
    {now : Int} {startedAt : Reltime} {p : CtrlRequest.Point} {c : CtrlRequest.Call}
    (hpoint : l.point = .request q startedAt p) (hl : l.TimeKept)
    (hc : CtrlRequest.OnTime now c) (h : l.stepRequest q startedAt p c = some l') :
    l'.TimeKept ∧
      l'.budget (CtrlRequest.tick now c) + 1 ≤ l.budget now + CtrlRequest.price c := by
  obtain ⟨r, hstep, rfl⟩ := Option.map_eq_some_iff.mp h
  rw [TimeKept, hpoint] at hl
  obtain ⟨hkept, hpaid⟩ := CtrlRequest.step_budget hstep hl hc
  obtain ⟨hkept', hle⟩ := requested_budget (CtrlRequest.tick now c) l.buffer q hkept
  refine ⟨hkept', ?_⟩
  simp only [budget, hpoint] at hle ⊢
  omega

theorem callback_budget
    (now : Int) {startedAt : Reltime} {len : Nat}
    (hpoint : l.point = .request q startedAt (.msgCb len)) (hl : l.TimeKept)
    (h : l.stepRequest q startedAt (.msgCb len) (.msgCb (l.wpaBuffer.take len)) = some l') :
    l'.TimeKept ∧ l'.budget now + 1 ≤ l.budget now := by
  have hc : CtrlRequest.OnTime now (.msgCb (l.wpaBuffer.take len)) := trivial
  simpa only [CtrlRequest.tick, CtrlRequest.price, Nat.add_zero] using
    stepRequest_budget hpoint hl hc h

/-- An interrupted `writev` pays for itself. -/
theorem sendToErl_budget
    {now : Int} {len : Nat} {bytes : Binary} {r : WriteResult} {next : Option Loop}
    (h : l.sendToErl len bytes r next = some l') (hl : l.TimeKept) (hpos : 0 < l.budget now)
    (hnext : ∀ l', next = some l' → l'.TimeKept ∧ l'.budget now + 1 ≤ l.budget now) :
    Pays now l (.loop (.writev bytes r)) l' := by
  have hexit (e : Exit) (n : Nat) :
      (l.exit e).TimeKept ∧ (l.exit e).budget now + 1 ≤ l.budget now + n :=
    ⟨trivial, Nat.le_add_right_of_le hpos⟩
  unfold sendToErl at h
  split at h
  · cases r with
    | interrupted =>
        cases h
        exact ⟨hl, le_rfl⟩
    | failed =>
        cases h
        exact hexit _ _
    | written n =>
        by_cases hn : n = bytes.length
        · simp only [hn, if_true] at h
          exact hnext l' h
        · simp only [hn, if_false] at h
          cases h
          exact hexit _ _
  · cases h

theorem pays_of_le
    {now : Int} {sc : Syscall} {n : Nat} (hl' : l'.TimeKept ∧ l'.budget now ≤ n)
    (hn : n + 1 ≤ l.budget now + (MainCall.loop sc).price) :
    Pays now l (.loop sc) l' :=
  ⟨hl'.1, (Nat.add_le_add_right hl'.2 1).trans hn⟩

/-- The end is always paid for. -/
theorem pays_exit
    (now : Int) (sc : Syscall) (e : Exit) (h : ∀ e, l.point ≠ .exited e) :
    Pays now l (.loop sc) (l.exit e) :=
  ⟨trivial, Nat.le_add_right_of_le (budget_pos now h)⟩

/-- A system call outside of `wpa_ctrl_request`, or of its callback. -/
theorem loop_budget
    {now : Int} {sc : Syscall} (h : l.step (.loop sc) = some l') (hl : l.TimeKept) :
    Pays now l (.loop sc) l' := by
  obtain ⟨b, wpaBuffer, p⟩ := l
  cases p with
  | poll =>
      rcases sc with (⟨erl, wpa⟩ | _ | _) | _ | _ | _ | _ | _ | _ <;> cases h
      · cases erl
        · exact pays_of_le (leaveErl_budget now _ b wpa) (Nat.le_succ _)
        · exact ⟨trivial, le_rfl⟩
      · exact ⟨trivial, Nat.add_le_add_left (by decide) _⟩
      · exact pays_exit now _ _ (by simp)
  | readErl wpaReady =>
      rcases sc with _ | (_ | _ | input) | _ | _ | _ | _ | _
      case read.bytes =>
        have hstored : (input.take b.free).length ≤ input.length := List.length_take_le' ..
        simp only [step] at h
        split at h <;> cases h
        · exact pays_exit now _ _ (by simp)
        · refine pays_of_le (dispatch_budget now _ _ _) ?_
          simp only [ErlBuffer.store, budget, MainCall.price]
          omega
      all_goals cases h
      · exact pays_of_le (leaveErl_budget now _ b wpaReady) le_rfl
      · exact pays_exit now _ _ (by simp)
  | request q startedAt p =>
      cases p with
      | msgCb len =>
          rcases sc with _ | _ | _ | _ | _ | _ | ⟨bytes, r⟩
          case writev =>
            exact sendToErl_budget h hl (budget_pos now (by simp))
              fun l' hnext => callback_budget now rfl hl hnext
          all_goals cases h
      | _ =>
          cases h
  | sendReply q len =>
      rcases sc with _ | _ | _ | _ | _ | _ | ⟨bytes, r⟩
      case writev =>
        refine sendToErl_budget h hl (budget_pos now (by simp)) ?_
        rintro l' ⟨⟩
        obtain ⟨hkept, hle⟩ := afterRequest_budget now ⟨b, wpaBuffer, .sendReply q len⟩ q
        exact ⟨hkept, Nat.add_le_add_right hle 1⟩
      all_goals cases h
  | pendingWpa =>
      rcases sc with _ | _ | _ | _ | ready | _ | _ <;> cases h
      cases ready <;> exact ⟨trivial, le_rfl⟩
  | recvWpa =>
      rcases sc with _ | _ | _ | _ | _ | (d | _) | _ <;> cases h
      · exact ⟨trivial, le_rfl⟩
      · exact pays_exit now _ _ (by simp)
  | sendMessage len =>
      rcases sc with _ | _ | _ | _ | _ | _ | ⟨bytes, r⟩
      case writev =>
        refine sendToErl_budget h hl (budget_pos now (by simp)) fun l' hnext => ?_
        cases hnext
        exact ⟨trivial, le_rfl⟩
      all_goals cases h
  | exited e =>
      cases h

theorem step_budget
    {now : Int} {c : MainCall} (h : l.step c = some l') (hl : l.TimeKept)
    (hc : CtrlRequest.Clock now c.ctrlCalls) :
    Pays now l c l' := by
  cases c with
  | opening c | attaching c =>
      obtain h | h := inLoop h <;> obtain ⟨_, h⟩ := h <;> cases h
  | request c =>
      obtain ⟨q, startedAt, p, hpoint, _, hrequest⟩ := step_request h
      exact stepRequest_budget hpoint hl hc.1 hrequest
  | loop sc =>
      exact loop_budget h hl

end Loop

namespace Main

/-- `started_at` is kept, and a stale file is removed only once. -/
def Ready : Main → Prop
  | .opening _ p _ => WpaCtrl.FirstTry p
  | .attaching r => CtrlRequest.TimeKept r
  | .running l => l.TimeKept
  | .exited _ => True

/-- How many calls there are to come if nothing comes in. -/
def budget (now : Int) : Main → Nat
  | .opening _ p _ => WpaCtrl.callsLeft p + 25
  | .attaching r => CtrlRequest.budget now r + 1
  | .running l => l.budget now
  | .exited _ => 0

/-- The calls of `wpa_ctrl_request` and `wpa_ctrl_attach`. -/
def ctrlCalls (hist : List MainCall) : List CtrlRequest.Call :=
  hist.flatMap MainCall.ctrlCalls

/-- How often `poll` has been called. -/
def polls (hist : List MainCall) : Nat :=
  hist.countP fun
    | .loop (.poll _) => true
    | _ => false

/-- How often `writev` has been interrupted. -/
def interruptions (hist : List MainCall) : Nat :=
  hist.countP fun
    | .loop (.writev _ .interrupted) => true
    | _ => false

/-- How many messages have been received. -/
def messageCount (hist : List MainCall) : Nat :=
  (CtrlRequest.messages (attachCalls hist)).length + (receives (visibleCalls hist)).length

variable {inv : Invocation} {hist : List MainCall} {m m' : Main} {c : MainCall}

theorem ctrlCalls_append (xs ys : List MainCall) :
    ctrlCalls (xs ++ ys) = ctrlCalls xs ++ ctrlCalls ys :=
  List.flatMap_append

theorem time_ctrlCalls_concat (hist : List MainCall) (c : MainCall) :
    CtrlRequest.time (ctrlCalls (hist ++ [c])) =
      c.ctrlCalls.foldl CtrlRequest.tick (CtrlRequest.time (ctrlCalls hist)) := by
  rw [ctrlCalls_append, CtrlRequest.time, List.foldl_append]
  simp [ctrlCalls, CtrlRequest.time]

theorem opened_budget
    (now : Int) (inv : Invocation) (cl : Client) {s : OpenPoint × Kernel}
    (hs : WpaCtrl.FirstTry s.1) :
    (opened inv cl s).Ready ∧ (opened inv cl s).budget now ≤ WpaCtrl.callsLeft s.1 + 25 := by
  unfold opened
  split
  · exact ⟨trivial, Nat.zero_le _⟩
  · have hle : CtrlRequest.budget now (CtrlRequest.start inv.buf) + 1 ≤ 25 :=
      Nat.add_le_add_right (CtrlRequest.budget_start_le now inv.buf) 1
    exact ⟨CtrlRequest.timeKept_start inv.buf, hle.trans (Nat.le_add_left 25 _)⟩
  · exact ⟨hs, le_rfl⟩

theorem attached_budget
    (now : Int) {r : CtrlRequest} (hr : CtrlRequest.TimeKept r) :
    (attached r).Ready ∧ (attached r).budget now ≤ CtrlRequest.budget now r + 1 := by
  unfold attached
  split
  · exact ⟨hr, le_rfl⟩
  · split
    · exact ⟨trivial, Nat.zero_le _⟩
    · exact ⟨trivial, Nat.le_add_left 1 _⟩

theorem step_budget
    {now : Int} (h : step inv m c = some m') (hm : m.Ready)
    (hc : CtrlRequest.Clock now c.ctrlCalls) :
    m'.Ready ∧
      m'.budget (c.ctrlCalls.foldl CtrlRequest.tick now) + 1 ≤ m.budget now + c.price := by
  cases m with
  | opening cl p k =>
      cases c with
      | opening c =>
          obtain ⟨s, hstep, rfl⟩ := Option.map_eq_some_iff.mp h
          obtain ⟨hfirst, hlt⟩ := WpaCtrl.step_callsLeft hstep hm
          obtain ⟨hready, hle⟩ := opened_budget now inv cl hfirst
          have hpaid : (opened inv cl s).budget now + 1 ≤ WpaCtrl.callsLeft p + 25 :=
            (Nat.add_le_add_right hle 1).trans (Nat.add_le_add_right hlt 25)
          exact ⟨hready, hpaid⟩
      | attaching | request | loop =>
          cases h
  | attaching r =>
      cases c with
      | attaching c =>
          obtain ⟨r', hstep, rfl⟩ := Option.map_eq_some_iff.mp h
          obtain ⟨hkept, hpaid⟩ := CtrlRequest.step_budget hstep hm hc.1
          obtain ⟨hready, hle⟩ := attached_budget (CtrlRequest.tick now c) hkept
          have hpaid' : (attached r').budget (CtrlRequest.tick now c) + 1 ≤
              CtrlRequest.budget now r + 1 + CtrlRequest.price c := by
            omega
          exact ⟨hready, hpaid'⟩
      | opening | request | loop =>
          cases h
  | running l =>
      obtain ⟨l', hstep, rfl⟩ := Option.map_eq_some_iff.mp h
      exact Loop.step_budget hstep hm hc
  | exited e =>
      cases h

/-- What has come in. -/
def income (hist : List MainCall) : Nat :=
  3 * polls hist + 13 * (inputs (visibleCalls hist)).length + 3 * messageCount hist +
    interruptions hist

theorem income_append (xs ys : List MainCall) : income (xs ++ ys) = income xs + income ys := by
  simp only [income, polls, interruptions, messageCount, attachCalls, visibleCalls, inputs,
    receives, CtrlRequest.messages, List.countP_append, List.flatMap_append, List.length_append]
  omega

theorem price_eq_income (c : MainCall) : c.price = income [c] := by
  cases c with
  | opening c =>
      rfl
  | attaching c | request c =>
      rcases c with ⟨_, _ | _ | _⟩ | _ | _ | _ | ⟨_, _ | _⟩ | _ <;> rfl
  | loop sc =>
      rcases sc with _ | (_ | _ | input) | _ | _ | _ | (_ | _) | ⟨_, _ | _ | _⟩ <;>
        simp [MainCall.price, income, polls, interruptions, messageCount, attachCalls,
          visibleCalls, MainCall.visible, inputs, receives, CtrlRequest.messages, Syscall.input,
          Syscall.received]

/-- The prices of the calls are what has come in. -/
theorem sum_price (hist : List MainCall) : (hist.map MainCall.price).sum = income hist := by
  induction hist with
  | nil =>
      rfl
  | cons c hist ih =>
      rw [List.map_cons, List.sum_cons, ih, price_eq_income, ← income_append]
      rfl

/--
Every call of wpa_ex is paid for: by one of 34 with which it starts, by a poll, a byte
that has been read, a message that has been received or an interrupted `writev`.
-/
theorem run_paid
    (hrun : Run (step inv) Permits (start inv) hist m)
    (hclock : CtrlRequest.Clock 0 (ctrlCalls hist)) :
    hist.length ≤ 34 + 3 * polls hist + 13 * (inputs (visibleCalls hist)).length +
      3 * messageCount hist + interruptions hist := by
  have hincome : income hist = 3 * polls hist + 13 * (inputs (visibleCalls hist)).length +
      3 * messageCount hist + interruptions hist := rfl
  have hstart : (start inv).Ready ∧ (start inv).budget 0 ≤ 34 := by
    unfold start
    split
    · exact ⟨trivial, le_rfl⟩
    · exact ⟨trivial, Nat.zero_le _⟩
  obtain ⟨_, hpaid⟩ := hrun.length_add_le MainCall.price
    (fun hist m => m.budget (CtrlRequest.time (ctrlCalls hist)))
    (C := fun hist => CtrlRequest.Clock 0 (ctrlCalls hist)) hstart.1
    (fun hC => by
      rw [ctrlCalls_append, CtrlRequest.clock_append] at hC
      exact hC.1)
    (fun hm hC hstep => by
      rw [ctrlCalls_append, CtrlRequest.clock_append] at hC
      rw [time_ctrlCalls_concat]
      refine step_budget hstep hm ?_
      simpa [ctrlCalls, CtrlRequest.time] using hC.2)
    hclock
  have hle : (start inv).budget (CtrlRequest.time (ctrlCalls [])) ≤ 34 := hstart.2
  rw [sum_price] at hpaid
  omega

/-- The calls of `servedCalls`, on a clock that goes on. -/
theorem run_paid_ping :
    ∃ m, Run (step firstInvocation) Permits (start firstInvocation) servedCalls m ∧
      servedCalls.length ≤ 34 + 3 * polls servedCalls +
        13 * (inputs (visibleCalls servedCalls)).length + 3 * messageCount servedCalls +
        interruptions servedCalls := by
  have hend : (run? (step firstInvocation) Permits (start firstInvocation)
      servedCalls).isSome := by
    decide +kernel
  obtain ⟨m, hm⟩ := Option.isSome_iff_exists.mp hend
  have hclock : CtrlRequest.Clock 0 (ctrlCalls servedCalls) := by decide +kernel
  exact ⟨m, run_of_run? hm, run_paid (run_of_run? hm) hclock⟩

end Main
end WpaEx
end WpaSupplicant
