import WpaSupplicant.BridgeMachine
import Mathlib.Data.List.Chain

/-!
# Requests over the control connection

`wpa_ctrl_request` for any command, any reply buffer and with or without a callback, as a
machine of calls.  Time is an input: what `os_get_reltime` leaves in its argument comes
with the call.

* `expired_iff`: `os_reltime_expired` compares times;
* `run_contract`: what has been sent, received and passed on at every point;
* `run_outcome`: and what a call has done when it returns;
* `run_patient`: how often it tries to send, and for how long;
* `attachResult_eq_zero_iff`: when `wpa_ctrl_attach` succeeds.
-/

namespace WpaSupplicant

open StepSystem (Run run? run_of_run?)

/-- `struct os_reltime`. -/
structure Reltime where
  sec : Int
  usec : Int
deriving DecidableEq

namespace Reltime

/-- `os_reltime_sub`. -/
def sub (a b : Reltime) : Reltime :=
  if a.usec - b.usec < 0 then ⟨a.sec - b.sec - 1, a.usec - b.usec + 1000000⟩
  else ⟨a.sec - b.sec, a.usec - b.usec⟩

/-- `os_reltime_expired`. -/
def Expired (now ts : Reltime) (timeoutSecs : Int) : Prop :=
  timeoutSecs < (now.sub ts).sec ∨
    (now.sub ts).sec = timeoutSecs ∧ 0 < (now.sub ts).usec

instance (now ts : Reltime) (timeoutSecs : Int) : Decidable (now.Expired ts timeoutSecs) :=
  inferInstanceAs (Decidable (_ ∨ _))

/-- A time in microseconds. -/
def micros (t : Reltime) : Int :=
  t.sec * 1000000 + t.usec

/-- The microseconds are less than a second. -/
def Normal (t : Reltime) : Prop :=
  0 ≤ t.usec ∧ t.usec < 1000000

instance (t : Reltime) : Decidable t.Normal :=
  inferInstanceAs (Decidable (_ ∧ _))

theorem expired_iff
    {now ts : Reltime} (hnow : now.Normal) (hts : ts.Normal) (n : Int) :
    now.Expired ts n ↔ ts.micros + n * 1000000 < now.micros := by
  obtain ⟨hnow, hnow'⟩ := hnow
  obtain ⟨hts, hts'⟩ := hts
  unfold Expired sub micros
  split <;> dsimp only <;> omega

end Reltime

namespace CtrlRequest

/-- The arguments: the command, the size of the reply buffer, and whether there is a callback. -/
structure Args where
  cmd : Binary
  replyLen : Nat
  msgCb : Bool

/-- What `wpa_ctrl_request` returns; of 0 with the length of the reply. -/
inductive Result
  | ok (replyLen : Nat)
  | sendError
  | selectError
  | recvError
  | timeout
deriving DecidableEq

/-- The call that is about to be made. -/
inductive Point
  | send
  | startedAt
  | now
  | sleep
  | select
  | recv
  | msgCb (len : Nat)
  | returned (r : Result)
deriving DecidableEq

/-- `os_get_reltime` comes with what its argument holds after the call. -/
inductive Call
  | send (cmd : Binary) (r : SendResult)
  | getReltime (t : Reltime)
  | sleep
  | select (r : SelectResult)
  | recv (size : Nat) (r : RecvResult)
  | msgCb (msg : Binary)
deriving DecidableEq

end CtrlRequest

/-- `wpa_ctrl_request`: `started_at`, the memory from `reply` on, and the next call. -/
structure CtrlRequest where
  startedAt : Reltime
  reply : Binary
  point : CtrlRequest.Point
deriving DecidableEq

namespace CtrlRequest

/-- The first call of `send`. -/
def start (reply : Binary) : CtrlRequest :=
  ⟨⟨0, 0⟩, reply, .send⟩

def goto (s : CtrlRequest) (p : Point) : CtrlRequest :=
  { s with point := p }

/-- The memory after `recv`. -/
def store (s : CtrlRequest) (args : Args) (d : Binary) : Binary :=
  d.take args.replyLen ++ s.reply.drop (d.take args.replyLen).length

/-- From the return of `recv` to the next call: the message is passed on, or it is the reply. -/
def received (s : CtrlRequest) (args : Args) (d : Binary) : CtrlRequest :=
  let s' := { s with reply := s.store args d }
  let res := (d.take args.replyLen).length
  if 0 < res ∧ s'.reply.head? = some '<'.toUInt8 then
    if args.msgCb then
      let res' := if res = args.replyLen then args.replyLen - 1 else res
      { s' with reply := s'.reply.set res' 0, point := .msgCb res' }
    else
      s'.goto .select
  else
    s'.goto (.returned (.ok res))

/-- One call; `none` when it is not the one the code makes. -/
def step (args : Args) (s : CtrlRequest) (c : Call) : Option CtrlRequest :=
  match s.point, c with
  | .send, .send cmd r =>
      if cmd = args.cmd then
        match r with
        | .ok => some (s.goto .select)
        | .again => some (s.goto (if s.startedAt.sec = 0 then .startedAt else .now))
        | .failed => some (s.goto (.returned .sendError))
      else
        none
  | .startedAt, .getReltime t => some { s with startedAt := t, point := .sleep }
  | .now, .getReltime n =>
      some (s.goto (if n.Expired s.startedAt 5 then .returned .sendError else .sleep))
  | .sleep, .sleep => some (s.goto .send)
  | .select, .select .ready => some (s.goto .recv)
  | .select, .select .timeout => some (s.goto (.returned .timeout))
  | .select, .select .failed => some (s.goto (.returned .selectError))
  | .recv, .recv size r =>
      if size = args.replyLen then
        match r with
        | .failed => some (s.goto (.returned .recvError))
        | .datagram d => some (s.received args d)
      else
        none
  | .msgCb len, .msgCb msg => if msg = s.reply.take len then some (s.goto .select) else none
  | _, _ => none

/-- What a call can do. -/
inductive StepCases (args : Args) (s : CtrlRequest) : Call → CtrlRequest → Prop
  | sent
      (hpoint : s.point = .send) :
      StepCases args s (.send args.cmd .ok) (s.goto .select)
  | again
      (hpoint : s.point = .send) :
      StepCases args s (.send args.cmd .again)
        (s.goto (if s.startedAt.sec = 0 then .startedAt else .now))
  | notSent
      (hpoint : s.point = .send) :
      StepCases args s (.send args.cmd .failed) (s.goto (.returned .sendError))
  | started (t : Reltime)
      (hpoint : s.point = .startedAt) :
      StepCases args s (.getReltime t) { s with startedAt := t, point := .sleep }
  | expired (n : Reltime)
      (hpoint : s.point = .now) (hexpired : n.Expired s.startedAt 5) :
      StepCases args s (.getReltime n) (s.goto (.returned .sendError))
  | notExpired (n : Reltime)
      (hpoint : s.point = .now) (hexpired : ¬ n.Expired s.startedAt 5) :
      StepCases args s (.getReltime n) (s.goto .sleep)
  | slept
      (hpoint : s.point = .sleep) :
      StepCases args s .sleep (s.goto .send)
  | ready
      (hpoint : s.point = .select) :
      StepCases args s (.select .ready) (s.goto .recv)
  | notReady (r : SelectResult) (result : Result)
      (hpoint : s.point = .select) (hresult : result = .timeout ∨ result = .selectError)
      (hready : r ≠ .ready) :
      StepCases args s (.select r) (s.goto (.returned result))
  | received (d : Binary)
      (hpoint : s.point = .recv) :
      StepCases args s (.recv args.replyLen (.datagram d)) (s.received args d)
  | notReceived
      (hpoint : s.point = .recv) :
      StepCases args s (.recv args.replyLen .failed) (s.goto (.returned .recvError))
  | calledBack (len : Nat)
      (hpoint : s.point = .msgCb len) :
      StepCases args s (.msgCb (s.reply.take len)) (s.goto .select)

theorem step_cases
    {args : Args} {s s' : CtrlRequest} {c : Call} (h : step args s c = some s') :
    StepCases args s c s' := by
  unfold step at h
  split at h
  · next hpoint =>
      split at h
      · next hcmd =>
          subst hcmd
          split at h <;> cases h
          · exact .sent hpoint
          · exact .again hpoint
          · exact .notSent hpoint
      · cases h
  · next t hpoint =>
      cases h
      exact .started t hpoint
  · next n hpoint =>
      cases h
      split
      · next hexpired =>
          exact .expired n hpoint hexpired
      · next hexpired =>
          exact .notExpired n hpoint hexpired
  · next hpoint =>
      cases h
      exact .slept hpoint
  · next hpoint =>
      cases h
      exact .ready hpoint
  · next hpoint =>
      cases h
      exact .notReady _ _ hpoint (.inl rfl) (by decide)
  · next hpoint =>
      cases h
      exact .notReady _ _ hpoint (.inr rfl) (by decide)
  · next hpoint =>
      split at h
      · next hsize =>
          subst hsize
          split at h <;> cases h
          · exact .notReceived hpoint
          · exact .received _ hpoint
      · cases h
  · next len msg hpoint =>
      split at h
      · next hmsg =>
          subst hmsg
          cases h
          exact .calledBack len hpoint
      · cases h
  · cases h

section Memory

variable {args : Args} {s s' : CtrlRequest} {d : Binary}

/-- Only the reply buffer has been written to. -/
def Kept (args : Args) (before after : Binary) : Prop :=
  after.length = before.length ∧ after.drop args.replyLen = before.drop args.replyLen

/-- The test on which a message is taken for an unsolicited one. -/
def Unsolicited (args : Args) (d : Binary) : Prop :=
  (d.take args.replyLen).head? = some '<'.toUInt8

/-- What the callback gets of a message: one byte less if the buffer is full. -/
def passed (args : Args) (d : Binary) : Binary :=
  d.take (if (d.take args.replyLen).length = args.replyLen then args.replyLen - 1
    else args.replyLen)

theorem kept_store (hsize : args.replyLen ≤ s.reply.length) :
    Kept args s.reply (s.store args d) := by
  unfold Kept store
  have hle : (d.take args.replyLen).length ≤ args.replyLen := by simp
  constructor
  · rw [List.length_append, List.length_drop]
    omega
  · rw [List.drop_append, List.drop_eq_nil_of_le hle, List.drop_drop, List.nil_append]
    congr 1
    omega

theorem take_store :
    (s.store args d).take (d.take args.replyLen).length = d.take args.replyLen := by
  rw [store, List.take_left]

/-- What happens to a message: it is passed on, dropped, or the reply. -/
inductive ReceivedCases (args : Args) (s : CtrlRequest) (d : Binary) : CtrlRequest → Prop
  | passedOn (reply : Binary)
      (hunsolicited : Unsolicited args d) (hcb : args.msgCb = true)
      (hkept : Kept args s.reply reply)
      (htake : reply.take (passed args d).length = passed args d) :
      ReceivedCases args s d ⟨s.startedAt, reply, .msgCb (passed args d).length⟩
  | dropped (reply : Binary)
      (hunsolicited : Unsolicited args d) (hcb : args.msgCb = false)
      (hkept : Kept args s.reply reply) :
      ReceivedCases args s d ⟨s.startedAt, reply, .select⟩
  | replied (reply : Binary)
      (hreply : ¬ Unsolicited args d)
      (hkept : Kept args s.reply reply)
      (htake : reply.take (d.take args.replyLen).length = d.take args.replyLen) :
      ReceivedCases args s d
        ⟨s.startedAt, reply, .returned (.ok (d.take args.replyLen).length)⟩

theorem unsolicited_iff_stored :
    Unsolicited args d ↔ 0 < (d.take args.replyLen).length ∧
      (s.store args d).head? = some '<'.toUInt8 := by
  unfold Unsolicited store
  cases d.take args.replyLen with
  | nil =>
      simp
  | cons c cs =>
      simp

/-- The terminator goes behind the part of the message that is passed on. -/
theorem length_passed :
    (passed args d).length =
      if (d.take args.replyLen).length = args.replyLen then args.replyLen - 1
      else (d.take args.replyLen).length := by
  unfold passed
  rw [List.length_take, List.length_take]
  split <;> omega

theorem take_passed : (s.store args d).take (passed args d).length = passed args d := by
  have hle : (passed args d).length ≤ (d.take args.replyLen).length := by
    rw [length_passed]
    split <;> omega
  rw [store, List.take_append_of_le_length hle, List.take_take]
  unfold passed
  rw [List.length_take, List.take_eq_take_iff]
  split <;> omega

theorem received_cases (hsize : args.replyLen ≤ s.reply.length) :
    ReceivedCases args s d (s.received args d) := by
  have hkept : Kept args s.reply (s.store args d) := kept_store hsize
  unfold received
  dsimp only
  split
  · next hstored =>
      have hunsolicited : Unsolicited args d := unsolicited_iff_stored.mpr hstored
      split
      · next hcb =>
          have hlt : (passed args d).length < args.replyLen := by
            have hpos := hstored.1
            have hle : (d.take args.replyLen).length ≤ args.replyLen := by simp
            rw [length_passed]
            split <;> omega
          rw [← length_passed]
          refine .passedOn _ hunsolicited hcb ⟨?_, ?_⟩ ?_
          · rw [List.length_set, hkept.1]
          · rw [List.drop_set_of_lt hlt, hkept.2]
          · rw [List.take_set_of_le le_rfl, take_passed]
      · next hcb =>
          exact .dropped _ hunsolicited (by simpa using hcb) hkept
  · next hstored =>
      exact .replied _ (fun h => hstored (unsolicited_iff_stored.mp h)) hkept take_store

end Memory

section Contract

/-- The commands that have been sent. -/
def sent (hist : List Call) : List Binary :=
  hist.flatMap fun
    | .send cmd .ok => [cmd]
    | _ => []

/-- The messages that have been received. -/
def messages (hist : List Call) : List Binary :=
  hist.flatMap fun
    | .recv _ (.datagram d) => [d]
    | _ => []

/-- The messages that the callback has got. -/
def calledBack (hist : List Call) : List Binary :=
  hist.flatMap fun
    | .msgCb msg => [msg]
    | _ => []

/-- What the callback gets of some messages. -/
def passedOn (args : Args) (ds : List Binary) : List Binary :=
  if args.msgCb then ds.map (passed args) else []

/-- The messages are unsolicited, and have been passed on. -/
def Between (args : Args) (hist : List Call) : Prop :=
  sent hist = [args.cmd] ∧ (∀ d ∈ messages hist, Unsolicited args d) ∧
    calledBack hist = passedOn args (messages hist)

/-- Nothing has been sent or received. -/
def Untouched (hist : List Call) : Prop :=
  sent hist = [] ∧ messages hist = [] ∧ calledBack hist = []

/-- All messages but the last one are unsolicited, and have been passed on. -/
def LastOf (args : Args) (hist : List Call) (d : Binary) : Prop :=
  sent hist = [args.cmd] ∧ ∃ ds, messages hist = ds ++ [d] ∧
    (∀ d ∈ ds, Unsolicited args d) ∧ calledBack hist = passedOn args ds

/-- What has been sent, received and passed on at a point. -/
def Contract (args : Args) (hist : List Call) (s : CtrlRequest) : Prop :=
  match s.point with
  | .send | .startedAt | .now | .sleep | .returned .sendError => Untouched hist
  | .select | .recv | .returned .selectError | .returned .recvError | .returned .timeout =>
      Between args hist
  | .msgCb len =>
      args.msgCb = true ∧ ∃ d, LastOf args hist d ∧ Unsolicited args d ∧
        s.reply.take len = passed args d
  | .returned (.ok n) =>
      ∃ d, LastOf args hist d ∧ ¬ Unsolicited args d ∧
        n = (d.take args.replyLen).length ∧ s.reply.take n = d.take args.replyLen

variable {args : Args} {hist : List Call} {s s' : CtrlRequest} {c : Call} {reply : Binary}

@[simp] theorem sent_concat (hist : List Call) (c : Call) :
    sent (hist ++ [c]) = sent hist ++ sent [c] :=
  List.flatMap_append

@[simp] theorem messages_concat (hist : List Call) (c : Call) :
    messages (hist ++ [c]) = messages hist ++ messages [c] :=
  List.flatMap_append

@[simp] theorem calledBack_concat (hist : List Call) (c : Call) :
    calledBack (hist ++ [c]) = calledBack hist ++ calledBack [c] :=
  List.flatMap_append

/-- A call that sends, receives and passes on nothing. -/
def Quiet (c : Call) : Prop :=
  sent [c] = [] ∧ messages [c] = [] ∧ calledBack [c] = []

theorem Untouched.quiet (h : Untouched hist) (hc : Quiet c) : Untouched (hist ++ [c]) := by
  obtain ⟨hsent, hmessages, hcalled⟩ := hc
  simpa [Untouched, hsent, hmessages, hcalled] using h

theorem Between.quiet (h : Between args hist) (hc : Quiet c) : Between args (hist ++ [c]) := by
  obtain ⟨hsent, hmessages, hcalled⟩ := hc
  simpa [Between, hsent, hmessages, hcalled] using h

theorem Between.receive
    (h : Between args hist) (n : Nat) (d : Binary) :
    LastOf args (hist ++ [.recv n (.datagram d)]) d := by
  obtain ⟨hsent, hunsolicited, hcalled⟩ := h
  refine ⟨?_, messages hist, ?_, hunsolicited, ?_⟩
  · simpa [sent] using hsent
  · simp [messages]
  · simpa [calledBack] using hcalled

/-- A message that was unsolicited has been dealt with. -/
theorem LastOf.between
    {d : Binary} (h : LastOf args hist d) (hd : Unsolicited args d)
    (hsent : sent [c] = []) (hmessages : messages [c] = [])
    (hcalled : calledBack [c] = passedOn args [d]) :
    Between args (hist ++ [c]) := by
  obtain ⟨hsent', ds, hmessages', hds, hcalled'⟩ := h
  refine ⟨by simp [hsent', hsent], ?_, ?_⟩
  · intro d' hd'
    rw [messages_concat, hmessages, List.append_nil, hmessages'] at hd'
    rcases List.mem_append.mp hd' with hd' | hd'
    · exact hds d' hd'
    · exact List.mem_singleton.mp hd' ▸ hd
  · rw [calledBack_concat, messages_concat, hmessages, List.append_nil, hmessages', hcalled',
      hcalled]
    unfold passedOn
    split <;> simp

/-- Without a callback an unsolicited message is dropped. -/
theorem Between.drop
    (h : Between args hist) (n : Nat) {d : Binary} (hd : Unsolicited args d)
    (hcb : args.msgCb = false) :
    Between args (hist ++ [.recv n (.datagram d)]) := by
  obtain ⟨hsent, hunsolicited, hcalled⟩ := h
  have hmessage : messages [.recv n (.datagram d)] = [d] := rfl
  have hquiet : sent [.recv n (.datagram d)] = [] ∧ calledBack [.recv n (.datagram d)] = [] :=
    ⟨rfl, rfl⟩
  refine ⟨by simp [hsent, hquiet.1], ?_, ?_⟩
  · intro d' hd'
    rw [messages_concat, hmessage] at hd'
    rcases List.mem_append.mp hd' with hd' | hd'
    · exact hunsolicited d' hd'
    · exact List.mem_singleton.mp hd' ▸ hd
  · simp [hcalled, hquiet.2, passedOn, hcb]

theorem Untouched.between (h : Untouched hist) : Between args (hist ++ [.send args.cmd .ok]) := by
  obtain ⟨hsent, hmessages, hcalled⟩ := h
  have hsent' : sent [.send args.cmd .ok] = [args.cmd] := rfl
  have hquiet : messages [.send args.cmd .ok] = [] ∧ calledBack [.send args.cmd .ok] = [] :=
    ⟨rfl, rfl⟩
  refine ⟨by simp [hsent, hsent'], by simp [hmessages, hquiet.1], ?_⟩
  simp [hmessages, hcalled, hquiet.1, hquiet.2, passedOn]

theorem step_contract
    (h : step args s c = some s') (hsize : args.replyLen ≤ s.reply.length)
    (hs : Contract args hist s) :
    Contract args (hist ++ [c]) s' := by
  unfold Contract at hs
  cases step_cases h with
  | sent hpoint =>
      rw [hpoint] at hs
      exact Untouched.between hs
  | again hpoint =>
      rw [hpoint] at hs
      have hquiet := Untouched.quiet hs (c := .send args.cmd .again) ⟨rfl, rfl, rfl⟩
      by_cases hunset : s.startedAt.sec = 0
      · rw [if_pos hunset]
        exact hquiet
      · rw [if_neg hunset]
        exact hquiet
  | notSent hpoint | started _ hpoint | expired _ hpoint | notExpired _ hpoint | slept hpoint =>
      rw [hpoint] at hs
      exact Untouched.quiet hs ⟨rfl, rfl, rfl⟩
  | ready hpoint | notReceived hpoint =>
      rw [hpoint] at hs
      exact Between.quiet hs ⟨rfl, rfl, rfl⟩
  | notReady r result hpoint hresult =>
      rw [hpoint] at hs
      rcases hresult with rfl | rfl <;> exact Between.quiet hs ⟨rfl, rfl, rfl⟩
  | received d hpoint =>
      rw [hpoint] at hs
      generalize hafter : s.received args d = after
      have hcases := received_cases (d := d) hsize
      rw [hafter] at hcases
      cases hcases with
      | passedOn reply hunsolicited hcb hkept htake =>
          exact ⟨hcb, d, Between.receive hs _ d, hunsolicited, htake⟩
      | dropped reply hunsolicited hcb hkept =>
          exact Between.drop hs _ hunsolicited hcb
      | replied reply hreply hkept htake =>
          exact ⟨d, Between.receive hs _ d, hreply, rfl, htake⟩
  | calledBack len hpoint =>
      rw [hpoint] at hs
      obtain ⟨hcb, d, hlast, hunsolicited, htake⟩ := hs
      refine LastOf.between hlast hunsolicited rfl rfl ?_
      simp [passedOn, hcb, htake, CtrlRequest.calledBack]

/-- Only the reply buffer is ever written to. -/
theorem step_kept
    (h : step args s c = some s') (hsize : args.replyLen ≤ s.reply.length) :
    Kept args s.reply s'.reply := by
  cases step_cases h with
  | received d hpoint =>
      generalize hafter : s.received args d = after
      have hcases := received_cases (d := d) hsize
      rw [hafter] at hcases
      cases hcases with
      | passedOn reply hunsolicited hcb hkept htake =>
          exact hkept
      | dropped reply hunsolicited hcb hkept =>
          exact hkept
      | replied reply hreply hkept htake =>
          exact hkept
  | _ =>
      exact ⟨rfl, rfl⟩

theorem run_contract
    (hsize : args.replyLen ≤ reply.length)
    (hrun : Run (step args) (fun _ _ => True) (start reply) hist s) :
    Contract args hist s ∧ Kept args reply s.reply := by
  have hstart : Contract args [] (start reply) := ⟨rfl, rfl, rfl⟩
  refine hrun.invariant (I := fun hist s => Contract args hist s ∧ Kept args reply s.reply)
    ⟨hstart, rfl, rfl⟩ ?_
  intro hist s c s' ⟨hcontract, hlength, hdrop⟩ _ hstep
  have hsize' : args.replyLen ≤ s.reply.length := hlength ▸ hsize
  obtain ⟨hlength', hdrop'⟩ := step_kept hstep hsize'
  exact ⟨step_contract hstep hsize' hcontract, hlength'.trans hlength, hdrop'.trans hdrop⟩

/-- What a call of `wpa_ctrl_request` has done when it returns. -/
structure Outcome (args : Args) (reply : Binary) (hist : List Call) (s : CtrlRequest)
    (r : Result) : Prop where
  once : sent hist = if r = .sendError then [] else [args.cmd]
  memory : Kept args reply s.reply
  replied : ∀ n, r = .ok n → ∃ ds d, messages hist = ds ++ [d] ∧
    (∀ d ∈ ds, Unsolicited args d) ∧ calledBack hist = passedOn args ds ∧
    ¬ Unsolicited args d ∧ s.reply.take n = d.take args.replyLen
  failed : (∀ n, r ≠ .ok n) → (∀ d ∈ messages hist, Unsolicited args d) ∧
    calledBack hist = passedOn args (messages hist)

theorem outcome_of_contract
    {r : Result} (hcontract : Contract args hist s) (hmemory : Kept args reply s.reply)
    (hreturned : s.point = .returned r) :
    Outcome args reply hist s r := by
  unfold Contract at hcontract
  rw [hreturned] at hcontract
  cases r with
  | ok n =>
      obtain ⟨d, ⟨hsent, ds, hmessages, hds, hcalled⟩, hd, _, htake⟩ := hcontract
      refine ⟨hsent, hmemory, fun m hm => ?_, fun h => absurd rfl (h n)⟩
      cases hm
      exact ⟨ds, d, hmessages, hds, hcalled, hd, htake⟩
  | sendError =>
      obtain ⟨hsent, hmessages, hcalled⟩ := hcontract
      refine ⟨hsent, hmemory, by simp, fun _ => ⟨by simp [hmessages], ?_⟩⟩
      simp [hcalled, hmessages, passedOn]
  | selectError | recvError | timeout =>
      exact ⟨hcontract.1, hmemory, by simp, fun _ => hcontract.2⟩

/--
In every run of `wpa_ctrl_request`: the command is sent once, or not at all where sending
failed; the reply is the first message that is not unsolicited, cut to the buffer; the
unsolicited ones before it have gone to the callback, in order and once each; and no byte
behind the buffer has changed.
-/
theorem run_outcome
    {r : Result} (hsize : args.replyLen ≤ reply.length)
    (hrun : Run (step args) (fun _ _ => True) (start reply) hist s)
    (hreturned : s.point = .returned r) :
    Outcome args reply hist s r :=
  outcome_of_contract (run_contract hsize hrun).1 (run_contract hsize hrun).2 hreturned

/-- The buffer of the example is full once the notification has come. -/
def pingArgs : Args :=
  ⟨lit "PING", 6, true⟩

/-- A notification and the answer to `PING`, after a retry. -/
def pingCalls : List Call :=
  [.send (lit "PING") .again, .getReltime ⟨3, 0⟩, .sleep, .send (lit "PING") .ok,
    .select .ready, .recv 6 (.datagram (lit "<3>ABC")), .msgCb (lit "<3>AB"),
    .select .ready, .recv 6 (.datagram (lit "PONG\n"))]

theorem run_outcome_ping :
    ∃ s, Outcome pingArgs (List.replicate 8 0) pingCalls s (.ok 5) := by
  have hend : (run? (step pingArgs) (fun _ _ => True) (start (List.replicate 8 0))
      pingCalls).map point = some (.returned (.ok 5)) := by
    decide +kernel
  obtain ⟨s, hs, hpoint⟩ := Option.map_eq_some_iff.mp hend
  exact ⟨s, run_outcome (by decide) (run_of_run? hs) hpoint⟩

end Contract

section Retries

/-- The times that have been read. -/
def readings (hist : List Call) : List Reltime :=
  hist.flatMap fun
    | .getReltime t => [t]
    | _ => []

/-- How often the command has been given to `send`. -/
def attempts (hist : List Call) : Nat :=
  hist.countP fun
    | .send _ _ => true
    | _ => false

variable {args : Args} {hist : List Call} {s s' : CtrlRequest} {c : Call} {reply : Binary}

/--
The clock of a run: times have microseconds of less than a second, are not negative, and
every second spent asleep shows.
-/
structure Ticks (ts : List Reltime) : Prop where
  normal : ∀ t ∈ ts, t.Normal ∧ 0 ≤ t.sec
  passes : ts.IsChain fun a b => a.micros + 1000000 ≤ b.micros

/-- One more attempt where the clock starts within its first second: 0 stands for no time. -/
def late (hist : List Call) : Nat :=
  if (readings hist).head?.any (·.sec = 0) then 1 else 0

theorem readings_concat (hist : List Call) (c : Call) :
    readings (hist ++ [c]) = readings hist ++ readings [c] :=
  List.flatMap_append

theorem length_readings_concat (hist : List Call) (t : Reltime) :
    (readings (hist ++ [.getReltime t])).length = (readings hist).length + 1 := by
  rw [readings_concat, List.length_append]
  rfl

theorem getLast?_readings_concat (hist : List Call) (t : Reltime) :
    (readings (hist ++ [.getReltime t])).getLast? = some t := by
  rw [readings_concat]
  exact List.getLast?_concat

theorem attempts_concat (hist : List Call) (c : Call) :
    attempts (hist ++ [c]) = attempts hist + attempts [c] :=
  List.countP_append

theorem Ticks.of_concat (h : Ticks (readings (hist ++ [c]))) : Ticks (readings hist) := by
  rw [readings_concat] at h
  exact ⟨fun t ht => h.normal t (List.mem_append_left _ ht),
    (List.isChain_append.mp h.passes).1⟩

/-- The time that counts is the first or, in the first second of the clock, the second one. -/
structure Clocked (hist : List Call) (startedAt : Reltime) : Prop where
  unset : startedAt.sec = 0 → (readings hist).length ≤ late hist
  set : startedAt.sec ≠ 0 → startedAt ∈ readings hist ∧
    ∃ t, (readings hist).getLast? = some t ∧
      startedAt.micros + ((readings hist).length - 1 - late hist : Int) * 1000000 ≤ t.micros

/-- No more than five seconds have passed. -/
def InTime (hist : List Call) (startedAt : Reltime) : Prop :=
  startedAt.sec ≠ 0 → ∀ t, (readings hist).getLast? = some t →
    t.micros ≤ startedAt.micros + 5 * 1000000

theorem late_le (hist : List Call) : late hist ≤ 1 := by
  unfold late
  split <;> omega

/-- The first reading tells whether there is one more attempt. -/
theorem late_concat (h : readings hist ≠ []) (c : Call) : late (hist ++ [c]) = late hist := by
  rw [late, late, readings_concat, List.head?_append_of_ne_nil _ h]

theorem late_of_quiet (h : readings [c] = []) : late (hist ++ [c]) = late hist := by
  rw [late, late, readings_concat, h, List.append_nil]

theorem Clocked.length_le
    {t : Reltime} (h : Clocked hist t) (hin : InTime hist t) :
    (readings hist).length ≤ 6 + late hist := by
  by_cases hsec : t.sec = 0
  · have := h.unset hsec
    omega
  · obtain ⟨_, last, hlast, hpassed⟩ := h.set hsec
    have := hin hsec last hlast
    omega

/-- The last reading is at least a second before the next one. -/
theorem Ticks.last_le
    {t last : Reltime} (h : Ticks (readings (hist ++ [.getReltime t])))
    (hlast : (readings hist).getLast? = some last) :
    last.micros + 1000000 ≤ t.micros := by
  have hchain := h.passes
  rw [readings_concat] at hchain
  exact (List.isChain_append.mp hchain).2.2 last hlast t rfl

/-- Times go on from the first reading that counts. -/
theorem Clocked.next
    {t startedAt : Reltime} (h : Clocked hist startedAt) (hset : startedAt.sec ≠ 0)
    (hticks : Ticks (readings (hist ++ [.getReltime t]))) :
    Clocked (hist ++ [.getReltime t]) startedAt := by
  obtain ⟨hmem, last, hlast, hpassed⟩ := h.set hset
  have hnext := hticks.last_le hlast
  have hlate := late_concat (List.ne_nil_of_mem hmem) (.getReltime t)
  refine ⟨fun hsec => absurd hsec hset, fun _ => ⟨?_, t, ?_, ?_⟩⟩
  · rw [readings_concat]
    exact List.mem_append_left _ hmem
  · exact getLast?_readings_concat hist t
  · rw [hlate, length_readings_concat]
    push_cast
    omega

/-- The first reading counts, unless the clock is in its first second. -/
theorem Clocked.first
    {t startedAt : Reltime} (h : Clocked hist startedAt) (hunset : startedAt.sec = 0)
    (hticks : Ticks (readings (hist ++ [.getReltime t]))) :
    Clocked (hist ++ [.getReltime t]) t := by
  have hlast := getLast?_readings_concat hist t
  have hmem : t ∈ readings (hist ++ [.getReltime t]) := List.mem_of_getLast? hlast
  have hle := h.unset hunset
  by_cases hnil : readings hist = []
  · have hlate : late (hist ++ [.getReltime t]) = if t.sec = 0 then 1 else 0 := by
      rw [late, readings_concat, hnil]
      simp [readings]
    constructor
    · intro hsec
      rw [hlate, if_pos hsec, length_readings_concat, hnil]
      rfl
    · intro hsec
      refine ⟨hmem, t, hlast, ?_⟩
      rw [hlate, if_neg hsec, length_readings_concat, hnil]
      simp
  · have hlate := late_concat hnil (.getReltime t)
    have hone := late_le hist
    have hpos := List.length_pos_iff.mpr hnil
    obtain ⟨last, hprev⟩ := Option.isSome_iff_exists.mp (List.getLast?_isSome.mpr hnil)
    have hnext := hticks.last_le hprev
    constructor
    · intro hsec
      -- a second has passed since the reading before, which was not negative
      obtain ⟨⟨_, husec⟩, _⟩ := hticks.normal t hmem
      obtain ⟨⟨hlow, _⟩, hlast⟩ := hticks.normal last (by
        rw [readings_concat]
        exact List.mem_append_left _ (List.mem_of_getLast? hprev))
      unfold Reltime.micros at hnext
      omega
    · intro hsec
      refine ⟨hmem, t, hlast, ?_⟩
      rw [hlate, length_readings_concat]
      push_cast
      omega

/-- Every attempt that failed is followed by a reading. -/
def Counted (hist : List Call) (startedAt : Reltime) : Point → Prop
  | .send | .sleep => attempts hist = (readings hist).length
  | .startedAt => attempts hist = (readings hist).length + 1 ∧ startedAt.sec = 0
  | .now => attempts hist = (readings hist).length + 1 ∧ startedAt.sec ≠ 0
  | _ => True

/-- Where the retries are, when the clock ticks. -/
structure Retrying (hist : List Call) (s : CtrlRequest) : Prop where
  clocked : Clocked hist s.startedAt
  inTime : (∀ r, s.point ≠ .returned r) → InTime hist s.startedAt
  counted : Counted hist s.startedAt s.point
  bounded : attempts hist ≤ 7 + late hist

/-- A call that reads no clock leaves the times as they are. -/
theorem Retrying.quiet
    (h : Retrying hist s) (hreadings : readings [c] = []) (hstarted : s'.startedAt = s.startedAt)
    (hpoint : ∀ r, s.point ≠ .returned r)
    (hcounted : Counted (hist ++ [c]) s'.startedAt s'.point)
    (hbounded : attempts (hist ++ [c]) ≤ 7 + late hist) :
    Retrying (hist ++ [c]) s' := by
  have hsame : readings (hist ++ [c]) = readings hist := by
    rw [readings_concat, hreadings, List.append_nil]
  have hlate : late (hist ++ [c]) = late hist := late_of_quiet hreadings
  refine ⟨⟨?_, ?_⟩, fun _ => ?_, hcounted, hlate ▸ hbounded⟩
  · rw [hsame, hlate, hstarted]
    exact h.clocked.unset
  · rw [hsame, hlate, hstarted]
    exact h.clocked.set
  · rw [hstarted]
    unfold InTime
    rw [hsame]
    exact h.inTime hpoint

/-- A call that is no attempt and reads no clock. -/
theorem Retrying.other
    (h : Retrying hist s) (hreadings : readings [c] = []) (hattempts : attempts [c] = 0)
    (hstarted : s'.startedAt = s.startedAt) (hpoint : ∀ r, s.point ≠ .returned r)
    (hcounted : Counted hist s.startedAt s'.point) :
    Retrying (hist ++ [c]) s' := by
  have hsame : attempts (hist ++ [c]) = attempts hist := by
    rw [attempts_concat, hattempts, Nat.add_zero]
  refine h.quiet hreadings hstarted hpoint ?_ (hsame ▸ h.bounded)
  unfold Counted at hcounted ⊢
  rw [hsame, readings_concat, hreadings, List.append_nil, hstarted]
  exact hcounted

/-- An attempt is made only while there is time. -/
theorem Retrying.attempt
    (h : Retrying hist s) (hpoint : s.point = .send) (cmd : Binary) (r : SendResult) :
    attempts (hist ++ [.send cmd r]) = (readings hist).length + 1 ∧
      attempts (hist ++ [.send cmd r]) ≤ 7 + late hist := by
  have hcounted : attempts hist = (readings hist).length := by
    simpa only [hpoint, Counted] using h.counted
  have hle := h.clocked.length_le (h.inTime (by simp [hpoint]))
  have hone : attempts [.send cmd r] = 1 := rfl
  rw [attempts_concat, hone]
  omega

theorem late_le_concat (hist : List Call) (c : Call) : late hist ≤ late (hist ++ [c]) := by
  by_cases hnil : readings hist = []
  · simp [late, hnil]
  · rw [late_concat hnil]

/-- A reading is no attempt. -/
theorem Retrying.read
    (h : Retrying hist s) (t : Reltime)
    (hclocked : Clocked (hist ++ [.getReltime t]) s'.startedAt)
    (hin : (∀ r, s'.point ≠ .returned r) → InTime (hist ++ [.getReltime t]) s'.startedAt)
    (hcounted : Counted (hist ++ [.getReltime t]) s'.startedAt s'.point) :
    Retrying (hist ++ [.getReltime t]) s' := by
  refine ⟨hclocked, hin, hcounted, ?_⟩
  have hsame : attempts [.getReltime t] = 0 := rfl
  have hlate := late_le_concat hist (.getReltime t)
  have hbounded := h.bounded
  rw [attempts_concat, hsame]
  omega

theorem counted_sleep
    (h : attempts hist = (readings hist).length + 1) (t : Reltime) :
    attempts (hist ++ [.getReltime t]) = (readings (hist ++ [.getReltime t])).length := by
  rw [attempts_concat, length_readings_concat, ← h]
  rfl

theorem received_counted (args : Args) (s : CtrlRequest) (d : Binary) (hist : List Call) :
    (s.received args d).startedAt = s.startedAt ∧
      Counted hist s.startedAt (s.received args d).point := by
  unfold received
  dsimp only
  split
  · split <;> exact ⟨rfl, trivial⟩
  · exact ⟨rfl, trivial⟩

theorem step_retrying
    (h : step args s c = some s') (hticks : Ticks (readings (hist ++ [c])))
    (hs : Retrying hist s) :
    Retrying (hist ++ [c]) s' := by
  cases step_cases h with
  | sent hpoint | notSent hpoint =>
      exact hs.quiet rfl rfl (by simp [hpoint]) trivial (hs.attempt hpoint args.cmd _).2
  | again hpoint =>
      obtain ⟨hcounted, hbounded⟩ := hs.attempt hpoint args.cmd .again
      have hsame : readings (hist ++ [.send args.cmd .again]) = readings hist := by
        rw [readings_concat]
        exact List.append_nil _
      refine hs.quiet rfl rfl (by simp [hpoint]) ?_ hbounded
      by_cases hunset : s.startedAt.sec = 0
      · rw [if_pos hunset]
        exact ⟨by rw [hcounted, hsame], hunset⟩
      · rw [if_neg hunset]
        exact ⟨by rw [hcounted, hsame], hunset⟩
  | started t hpoint =>
      have hcounted := hs.counted
      rw [hpoint] at hcounted
      obtain ⟨hcounted, hunset⟩ := hcounted
      refine hs.read t (hs.clocked.first hunset hticks) (fun _ => ?_) ?_
      · intro _ last hlast
        rw [getLast?_readings_concat] at hlast
        cases hlast
        exact Int.le_add_of_nonneg_right (by decide)
      · exact counted_sleep hcounted t
  | expired n hpoint hexpired =>
      have hcounted := hs.counted
      rw [hpoint] at hcounted
      refine hs.read n (hs.clocked.next hcounted.2 hticks) (fun hne => ?_) trivial
      exact absurd rfl (hne _)
  | notExpired n hpoint hexpired =>
      have hcounted := hs.counted
      rw [hpoint] at hcounted
      obtain ⟨hcounted, hset⟩ := hcounted
      have hclocked := hs.clocked.next hset hticks
      have hnormal (t : Reltime) (ht : t ∈ readings (hist ++ [.getReltime n])) : t.Normal :=
        (hticks.normal t ht).1
      have hlast := getLast?_readings_concat hist n
      refine hs.read n hclocked (fun _ => ?_) (counted_sleep hcounted n)
      intro _ last hlast'
      cases hlast.symm.trans hlast'
      rw [Reltime.expired_iff (hnormal n (List.mem_of_getLast? hlast))
        (hnormal _ (hclocked.set hset).1)] at hexpired
      exact Int.not_lt.mp hexpired
  | slept hpoint =>
      have hcounted := hs.counted
      rw [hpoint] at hcounted
      exact hs.other rfl rfl rfl (by simp [hpoint]) hcounted
  | ready hpoint | notReady r result hpoint | notReceived hpoint | calledBack len hpoint =>
      exact hs.other rfl rfl rfl (by simp [hpoint]) trivial
  | received d hpoint =>
      obtain ⟨hstarted, hcounted⟩ := received_counted args s d hist
      exact hs.other rfl rfl hstarted (by simp [hpoint]) hcounted

theorem run_retrying
    (hrun : Run (step args) (fun _ _ => True) (start reply) hist s)
    (hticks : Ticks (readings hist)) :
    Retrying hist s := by
  induction hrun with
  | start =>
      exact ⟨⟨fun _ => Nat.zero_le _, fun hset => absurd rfl hset⟩,
        fun _ hset => absurd rfl hset, rfl, Nat.zero_le _⟩
  | snoc prev _ hstep ih =>
      exact step_retrying hstep hticks (ih hticks.of_concat)

/-- `wpa_ctrl_request` gave up because it could not send in time. -/
theorem step_givesUp
    (h : step args s c = some s') (hgave : s'.point = .returned .sendError) :
    c = .send args.cmd .failed ∨
      ∃ n, c = .getReltime n ∧ s.point = .now ∧ n.Expired s.startedAt 5 := by
  cases step_cases h with
  | notSent hpoint =>
      exact .inl rfl
  | expired n hpoint hexpired =>
      exact .inr ⟨n, rfl, hpoint, hexpired⟩
  | again hpoint =>
      by_cases hunset : s.startedAt.sec = 0 <;> simp [goto, hunset] at hgave
  | notReady r result hpoint hresult =>
      rcases hresult with rfl | rfl <;> cases hgave
  | received d hpoint =>
      unfold received at hgave
      dsimp only at hgave
      split at hgave
      · split at hgave <;> cases hgave
      · cases hgave
  | _ =>
      cases hgave

/--
How `wpa_ctrl_request` retries: seven attempts at most, or eight where the clock starts
within its first second; and it gives up because of the time only when more than five
seconds have passed.
-/
structure Patient (hist : List Call) (s : CtrlRequest) : Prop where
  bounded : attempts hist ≤ 7 + late hist
  waits : s.point = .returned .sendError → (∀ cmd, Call.send cmd .failed ∉ hist) →
    ∃ a ∈ readings hist, ∃ b ∈ readings hist, a.micros + 5 * 1000000 < b.micros

theorem run_patient
    (hrun : Run (step args) (fun _ _ => True) (start reply) hist s)
    (hticks : Ticks (readings hist)) :
    Patient hist s := by
  have hretrying := run_retrying hrun hticks
  refine ⟨hretrying.bounded, fun hgave hnot => ?_⟩
  cases hrun with
  | start =>
      cases hgave
  | @snoc hist s₁ s' c prev _ hstep =>
      rcases step_givesUp hstep hgave with rfl | ⟨n, rfl, hpoint, hexpired⟩
      · exact absurd (List.mem_append_right _ (List.mem_singleton_self _)) (hnot _)
      · have hprev := run_retrying prev hticks.of_concat
        have hcounted := hprev.counted
        rw [hpoint] at hcounted
        have hstarted := (hprev.clocked.set hcounted.2).1
        have hnow : n ∈ readings (hist ++ [.getReltime n]) :=
          List.mem_of_getLast? (getLast?_readings_concat hist n)
        have hbefore : s₁.startedAt ∈ readings (hist ++ [.getReltime n]) := by
          rw [readings_concat]
          exact List.mem_append_left _ hstarted
        refine ⟨_, hbefore, n, hnow, ?_⟩
        rwa [Reltime.expired_iff (hticks.normal n hnow).1 (hticks.normal _ hbefore).1] at hexpired

/-- The clock starts in its first second, and the connection is never ready. -/
def patientCalls : List Call :=
  (List.range 7).flatMap (fun i =>
    [.send (lit "PING") .again, .getReltime ⟨i, 999999⟩, .sleep]) ++
    [.send (lit "PING") .again, .getReltime ⟨7, 999999⟩]

theorem run_patient_ping :
    ∃ s, s.point = .returned .sendError ∧ attempts patientCalls = 7 + late patientCalls ∧
      Patient patientCalls s := by
  have hend : (run? (step pingArgs) (fun _ _ => True) (start (List.replicate 8 0))
      patientCalls).map point = some (.returned .sendError) := by
    decide +kernel
  obtain ⟨s, hs, hpoint⟩ := Option.map_eq_some_iff.mp hend
  have hticks : Ticks (readings patientCalls) :=
    ⟨by decide +kernel, by decide +kernel⟩
  exact ⟨s, hpoint, by decide +kernel, run_patient (run_of_run? hs) hticks⟩

end Retries

section Attach

/-- The arguments of `wpa_ctrl_attach_helper` to `wpa_ctrl_request`. -/
def attachArgs (attach : Bool) : Args :=
  ⟨if attach then lit "ATTACH" else lit "DETACH", 10, false⟩

/-- `OK` and a newline. -/
def okReply : Binary :=
  lit "OK\n"

/-- The result of `wpa_ctrl_attach_helper`. -/
def attachResult (s : CtrlRequest) : Option Int :=
  match s.point with
  | .returned (.ok len) => some (if len = 3 ∧ s.reply.take 3 = okReply then 0 else -1)
  | .returned .timeout => some (-2)
  | .returned _ => some (-1)
  | _ => none

variable {hist : List Call} {s : CtrlRequest} {buf : Binary}

theorem unsolicited_iff {args : Args} (hpos : 0 < args.replyLen) (d : Binary) :
    Unsolicited args d ↔ d.head? = some '<'.toUInt8 := by
  rw [Unsolicited, List.head?_take, if_neg hpos.ne']

theorem not_unsolicited_okReply (attach : Bool) : ¬ Unsolicited (attachArgs attach) okReply := by
  rw [unsolicited_iff (by simp [attachArgs])]
  decide +kernel

/-- Only a whole message of three bytes fills three bytes of the buffer. -/
theorem take_eq_okReply_iff (attach : Bool) (d : Binary) :
    d.take (attachArgs attach).replyLen = okReply ↔ d = okReply := by
  have hlength : okReply.length = 3 := by decide +kernel
  have hsize : (attachArgs attach).replyLen = 10 := rfl
  rw [hsize]
  constructor
  · intro h
    have hthree := congrArg List.length h
    rw [List.length_take, hlength] at hthree
    rwa [List.take_of_length_le (by omega)] at h
  · rintro rfl
    exact List.take_of_length_le (by omega)

/-- A reply was the last message, and it makes the result 0 if it is `OK` and a newline. -/
theorem attachResult_of_replied
    {attach : Bool} {d : Binary} {len : Nat} (hpoint : s.point = .returned (.ok len))
    (hlen : len = (d.take (attachArgs attach).replyLen).length)
    (htake : s.reply.take len = d.take (attachArgs attach).replyLen) :
    attachResult s = some 0 ↔ d = okReply := by
  have hzero : attachResult s = some 0 ↔ len = 3 ∧ s.reply.take 3 = okReply := by
    rw [attachResult, hpoint]
    simp only [Option.some.injEq]
    split <;> simp_all
  rw [hzero, ← take_eq_okReply_iff attach d, ← htake]
  constructor
  · rintro ⟨rfl, hok⟩
    exact hok
  · intro hok
    have hthree : len = 3 := by
      rw [hlen, ← htake, hok]
      rfl
    exact ⟨hthree, hthree ▸ hok⟩

/-- The messages up to the confirmation. -/
def Confirmed (ms : List Binary) : Prop :=
  ∃ ds, ms = ds ++ [okReply] ∧ ∀ d ∈ ds, d.head? = some '<'.toUInt8

/-- No confirmation has come where all messages are unsolicited. -/
theorem not_confirmed_of_unsolicited
    {attach : Bool} {ms : List Binary} (h : ∀ d ∈ ms, Unsolicited (attachArgs attach) d) :
    ¬ Confirmed ms := by
  rintro ⟨ds, rfl, _⟩
  exact not_unsolicited_okReply attach (h okReply (by simp))

/--
`wpa_ctrl_attach` and `wpa_ctrl_detach` succeed if and only if the first message that does
not start with `<` is exactly `OK` and a newline.
-/
theorem attachResult_eq_zero_iff
    {attach : Bool} (hbuf : buf.length = 10)
    (hrun : Run (step (attachArgs attach)) (fun _ _ => True) (start buf) hist s) :
    attachResult s = some 0 ↔ Confirmed (messages hist) := by
  have hcontract := (run_contract hbuf.ge hrun).1
  have hnot (h : ∀ d ∈ messages hist, Unsolicited (attachArgs attach) d)
      (hne : attachResult s ≠ some 0) :
      attachResult s = some 0 ↔ Confirmed (messages hist) :=
    iff_of_false hne (not_confirmed_of_unsolicited h)
  unfold Contract at hcontract
  cases hpoint : s.point with
  | returned r =>
      rw [hpoint] at hcontract
      cases r with
      | ok len =>
          obtain ⟨d, ⟨_, ds, hmessages, hds, _⟩, _, hlen, htake⟩ := hcontract
          rw [attachResult_of_replied hpoint hlen htake, Confirmed, hmessages]
          constructor
          · rintro rfl
            refine ⟨ds, rfl, fun d hd => ?_⟩
            exact (unsolicited_iff (by simp [attachArgs]) d).mp (hds d hd)
          · rintro ⟨ds', hmessages', _⟩
            obtain ⟨_, hlast⟩ := List.append_inj' hmessages' rfl
            exact List.singleton_inj.mp hlast
      | sendError =>
          exact hnot (by simp [hcontract.2.1]) (by simp [attachResult, hpoint])
      | selectError | recvError | timeout =>
          exact hnot hcontract.2.1 (by simp [attachResult, hpoint])
  | send | startedAt | now | sleep =>
      rw [hpoint] at hcontract
      exact hnot (by simp [hcontract.2.1]) (by simp [attachResult, hpoint])
  | select | recv =>
      rw [hpoint] at hcontract
      exact hnot hcontract.2.1 (by simp [attachResult, hpoint])
  | msgCb len =>
      rw [hpoint] at hcontract
      cases hcontract.1

/-- The command has been sent once if it has succeeded. -/
theorem sent_of_attachResult
    {attach : Bool} (hbuf : buf.length = 10)
    (hrun : Run (step (attachArgs attach)) (fun _ _ => True) (start buf) hist s)
    (h : attachResult s = some 0) :
    sent hist = [(attachArgs attach).cmd] := by
  have hcontract := (run_contract hbuf.ge hrun).1
  unfold attachResult at h
  unfold Contract at hcontract
  split at h
  · next len hpoint =>
      rw [hpoint] at hcontract
      obtain ⟨d, hlast, _⟩ := hcontract
      exact hlast.1
  all_goals cases h

/-- The results of `wpa_ctrl_attach_helper` are 0 and errors. -/
theorem eq_zero_of_attachResult
    {result : Int} (h : attachResult s = some result) (hnonneg : ¬ result < 0) :
    attachResult s = some 0 := by
  have hzero : result = 0 := by
    unfold attachResult at h
    split at h
    · simp only [Option.some.injEq] at h
      split at h <;> omega
    · cases h
      omega
    · cases h
      omega
    · cases h
  rw [h, hzero]

end Attach

end CtrlRequest
end WpaSupplicant
