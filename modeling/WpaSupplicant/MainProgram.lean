import WpaSupplicant.ControlRequest
import WpaSupplicant.ControlSocket
import WpaSupplicant.TraceRefinement

/-!
# wpa_ex from its main function on

The whole program: the connection is opened and attached to, and the main loop serves
stdin and the socket.  A request is the machine of `wpa_ctrl_request`, with its clock and
its retries, and messages lie in `wpa_buffer`.

* `Loop.step_refines`: the main loop refines the machine that keeps no time and no memory;
* `run_serves`: the program reads and writes nothing before it is attached, and from then
  on it makes the system calls of that machine.
-/

namespace WpaSupplicant

open StepSystem (Run run? run_of_run?)
open WpaCtrl (Client Kernel OpenPoint wpaCtrlOpen)

namespace WpaEx

/-- The next call of the main loop; `request` is within `wpa_ctrl_request`. -/
inductive LoopPoint
  | poll
  | readErl (wpaReady : Bool)
  | request (q : Request) (startedAt : Reltime) (p : CtrlRequest.Point)
  | sendReply (q : Request) (len : Nat)
  | pendingWpa
  | recvWpa
  | sendMessage (len : Nat)
  | exited (e : Exit)
deriving DecidableEq

/-- The main loop with both of its buffers. -/
structure Loop where
  buffer : ErlBuffer
  wpaBuffer : Binary
  point : LoopPoint

/-- Why the program ends before its main loop. -/
inductive StartupExit
  | usage
  | openFailed
  | attachFailed
deriving DecidableEq

/-- Where `main` is. -/
inductive Main
  | opening (cl : Client) (p : OpenPoint) (k : Kernel)
  | attaching (r : CtrlRequest)
  | running (l : Loop)
  | exited (e : StartupExit)

/-- The calls of the program. -/
inductive MainCall
  | opening (c : WpaCtrl.Call)
  | attaching (c : CtrlRequest.Call)
  | request (c : CtrlRequest.Call)
  | loop (sc : Syscall)
deriving DecidableEq

/-- What the program is started with; `buf` is what lies on the stack. -/
structure Invocation where
  argv : List CString
  pid : Int32
  kernel : Kernel
  buf : Binary
  length_buf : buf.length = 10

namespace Loop

/-- The main loop at its first `poll`. -/
def start : Loop :=
  ⟨.empty, List.replicate bufferSize 0, .poll⟩

def exit (l : Loop) (e : Exit) : Loop :=
  { l with point := .exited e }

def goto (l : Loop) (p : LoopPoint) : Loop :=
  { l with point := p }

/-- The return from `process_erl` to the main loop. -/
def leaveErl (l : Loop) (b : ErlBuffer) (wpaReady : Bool) : Loop :=
  ⟨b, l.wpaBuffer, if wpaReady then .pendingWpa else .poll⟩

/-- The dispatch loop of `process_erl`, up to the next request. -/
def dispatch (l : Loop) (b : ErlBuffer) (wpaReady : Bool) : Loop :=
  match tryDispatch b with
  | .incomplete => l.leaveErl b wpaReady
  | .tooLong => ⟨b, l.wpaBuffer, .exited .messageTooLong⟩
  | .request cmd n => ⟨b, l.wpaBuffer, .request ⟨cmd, n, wpaReady⟩ ⟨0, 0⟩ .send⟩

/-- The dispatch loop after a request. -/
def afterRequest (l : Loop) (q : Request) : Loop :=
  if q.processed < l.buffer.ix then l.dispatch (l.buffer.shift q.processed) q.wpaReady
  else l.leaveErl l.buffer.reset q.wpaReady

/-- The arguments of `do_wpa_request` to `wpa_ctrl_request`. -/
def requestArgs (cmd : Binary) : CtrlRequest.Args :=
  ⟨cmd, bufferSize, true⟩

/-- `do_wpa_request` after a call of `wpa_ctrl_request`. -/
def requested (b : ErlBuffer) (q : Request) (r : CtrlRequest) : Loop :=
  match r.point with
  | .returned (.ok len) => ⟨b, r.reply, .sendReply q len⟩
  | .returned _ => ⟨b, r.reply, .exited .requestFailed⟩
  | p => ⟨b, r.reply, .request q r.startedAt p⟩

/-- A call within `wpa_ctrl_request`. -/
def stepRequest (l : Loop) (q : Request) (startedAt : Reltime) (p : CtrlRequest.Point)
    (c : CtrlRequest.Call) : Option Loop :=
  (CtrlRequest.step (requestArgs q.cmd) ⟨startedAt, l.wpaBuffer, p⟩ c).map
    (requested l.buffer q)

/-- `send_to_erl` of the first `len` bytes of `wpa_buffer`: one round of its loop. -/
def sendToErl (l : Loop) (len : Nat) (bytes : Binary) (r : WriteResult) (next : Option Loop) :
    Option Loop :=
  if bytes = frame (l.wpaBuffer.take len) then
    match r with
    | .interrupted => some l
    | .failed => some (l.exit .writevFailed)
    | .written n => if n = bytes.length then next else some (l.exit .notEnoughWritten)
  else
    none

/-- `wpa_buffer` after `wpa_ctrl_recv`. -/
def stored (wpaBuffer d : Binary) : Binary :=
  recvCopy d ++ wpaBuffer.drop (recvCopy d).length

/-- One call of the main loop; `none` when it is not the one the code makes. -/
def step (l : Loop) (c : MainCall) : Option Loop :=
  match l.point, c with
  | .poll, .loop (.poll (.ready erl wpa)) =>
      some (if erl then l.goto (.readErl wpa) else l.leaveErl l.buffer wpa)
  | .poll, .loop (.poll .interrupted) => some l
  | .poll, .loop (.poll .failed) => some (l.exit .pollFailed)
  | .readErl wpaReady, .loop (.read .interrupted) => some (l.leaveErl l.buffer wpaReady)
  | .readErl _, .loop (.read .failed) => some (l.exit .readFailed)
  | .readErl wpaReady, .loop (.read (.bytes input)) =>
      if input.take l.buffer.free = [] then some (l.exit .endOfFile)
      else some (l.dispatch (l.buffer.store input) wpaReady)
  -- `send_to_erl` is the callback
  | .request q startedAt (.msgCb len), .loop (.writev bytes r) =>
      l.sendToErl len bytes r
        (l.stepRequest q startedAt (.msgCb len) (.msgCb (l.wpaBuffer.take len)))
  | .request _ _ (.msgCb _), _ => none
  | .request q startedAt p, .request c => l.stepRequest q startedAt p c
  | .sendReply q len, .loop (.writev bytes r) =>
      l.sendToErl len bytes r (some (l.afterRequest q))
  | .pendingWpa, .loop (.pending ready) => some (l.goto (if ready then .recvWpa else .poll))
  | .recvWpa, .loop (.recv .failed) => some (l.exit .recvFailed)
  | .recvWpa, .loop (.recv (.datagram d)) =>
      some ⟨l.buffer, stored l.wpaBuffer d, .sendMessage (recvCopy d).length⟩
  | .sendMessage len, .loop (.writev bytes r) =>
      l.sendToErl len bytes r (some (l.goto .pendingWpa))
  | _, _ => none

/-- The point of the machine without time and memory. -/
def view (wpaBuffer : Binary) : LoopPoint → Point
  | .poll => .poll
  | .readErl wpaReady => .readErl wpaReady
  | .request q _ .select => .selectReply q
  | .request q _ .recv => .recvReply q
  | .request q _ (.msgCb len) => .msgCb q (wpaBuffer.take len)
  | .request q _ _ => .sendRequest q
  | .sendReply q len => .sendReply q (wpaBuffer.take len)
  | .pendingWpa => .pendingWpa
  | .recvWpa => .recvWpa
  | .sendMessage len => .sendMessage (wpaBuffer.take len)
  | .exited e => .exited e

/-- The machine without time and memory. -/
def bridge (l : Loop) : WpaEx :=
  ⟨l.buffer, view l.wpaBuffer l.point⟩

end Loop

namespace Main

/-- `main` after a call of `wpa_ctrl_open`. -/
def opened (inv : Invocation) (cl : Client) (s : OpenPoint × Kernel) : Main :=
  match s.1 with
  | .returned none => .exited .openFailed
  | .returned (some _) => .attaching (CtrlRequest.start inv.buf)
  | p => .opening cl p s.2

/-- `main` after a call of `wpa_ctrl_attach`. -/
def attached (r : CtrlRequest) : Main :=
  match CtrlRequest.attachResult r with
  | none => .attaching r
  | some result => if result < 0 then .exited .attachFailed else .running .start

/-- `main` at its first call; `counter` is incremented by `wpa_ctrl_open`. -/
def start (inv : Invocation) : Main :=
  match inv.argv with
  | [_, ctrlPath] => .opening ⟨ctrlPath, inv.pid, 1⟩ (wpaCtrlOpen (some ctrlPath)) inv.kernel
  | _ => .exited .usage

/-- One call; `none` when it is not the one the code makes. -/
def step (inv : Invocation) (m : Main) (c : MainCall) : Option Main :=
  match m, c with
  | .opening cl p k, .opening c => (cl.step (p, k) c).map (opened inv cl)
  | .attaching r, .attaching c =>
      (CtrlRequest.step (CtrlRequest.attachArgs true) r c).map attached
  | .running l, c => (l.step c).map .running
  | _, _ => none

end Main

/-- Of the machine without time a `send` that failed is not to be seen. -/
def shown : Syscall → Bool
  | .send _ .again | .send _ .failed => false
  | _ => true

/-- The system calls of the main loop, without those on the clock. -/
def MainCall.visible : MainCall → List Syscall
  | .request (.send cmd .ok) => [.send cmd .ok]
  | .request (.select r) => [.select r]
  | .request (.recv _ r) => [.recv r]
  | .loop sc => [sc]
  | _ => []

/-- The condition on `read` and `writev`. -/
def MainCall.Possible (c : MainCall) (b : ErlBuffer) : Prop :=
  ∀ sc ∈ c.visible, sc.Possible b

instance (c : MainCall) (b : ErlBuffer) : Decidable (c.Possible b) :=
  inferInstanceAs (Decidable (∀ sc ∈ c.visible, sc.Possible b))

/-- Neither `read` nor `writev` moves more than it is asked to. -/
def Permits (s : WpaEx) (sc : Syscall) : Prop :=
  sc.Possible s.buffer

namespace Loop

section Bridge

variable (l : Loop)

@[simp] theorem bridge_leaveErl (b : ErlBuffer) (wpaReady : Bool) :
    (l.leaveErl b wpaReady).bridge = WpaEx.leaveErl b wpaReady := by
  cases wpaReady <;> rfl

@[simp] theorem bridge_dispatch (b : ErlBuffer) (wpaReady : Bool) :
    (l.dispatch b wpaReady).bridge = WpaEx.dispatch b wpaReady := by
  unfold dispatch WpaEx.dispatch
  cases tryDispatch b with
  | incomplete =>
      exact bridge_leaveErl l b wpaReady
  | tooLong | request =>
      rfl

@[simp] theorem bridge_afterRequest (q : Request) :
    (l.afterRequest q).bridge = WpaEx.afterRequest l.buffer q := by
  unfold afterRequest WpaEx.afterRequest
  split
  · exact bridge_dispatch l _ _
  · exact bridge_leaveErl l _ _

@[simp] theorem wpaBuffer_leaveErl (b : ErlBuffer) (wpaReady : Bool) :
    (l.leaveErl b wpaReady).wpaBuffer = l.wpaBuffer := rfl

@[simp] theorem wpaBuffer_dispatch (b : ErlBuffer) (wpaReady : Bool) :
    (l.dispatch b wpaReady).wpaBuffer = l.wpaBuffer := by
  unfold dispatch
  split <;> rfl

@[simp] theorem wpaBuffer_afterRequest (q : Request) :
    (l.afterRequest q).wpaBuffer = l.wpaBuffer := by
  unfold afterRequest
  split
  · exact wpaBuffer_dispatch l _ _
  · rfl

end Bridge

/-- The machine without time and memory stays where it is, or does the same. -/
inductive Matched (l : Loop) (c : MainCall) (l' : Loop) : Prop
  | stays (hbridge : l'.bridge = l.bridge) (hc : c.visible = [])
  | steps (sc : Syscall)
      (hstep : WpaEx.step l.bridge sc = some l'.bridge)
      (hpossible : sc.Possible l.buffer) (hshown : [sc].filter shown = c.visible)

variable {l l' : Loop} {c : MainCall}

theorem Matched.run (h : Matched l c l') :
    ∃ calls, Run WpaEx.step Permits l.bridge calls l'.bridge ∧ calls.filter shown = c.visible := by
  cases h with
  | stays hbridge hc =>
      exact ⟨[], hbridge ▸ .start, hc.symm⟩
  | steps sc hstep hpossible hshown =>
      exact ⟨[sc], Run.snoc .start hpossible hstep, hshown⟩

/-- `send_to_erl` writes what the machine without memory has in hand. -/
theorem bridge_sendToErl
    {len : Nat} {bytes : Binary} {r : WriteResult} {next : Option Loop}
    (h : l.sendToErl len bytes r next = some l')
    {after : WpaEx} (hnext : ∀ l', next = some l' → l'.bridge = after) :
    WpaEx.sendToErl l.bridge (l.wpaBuffer.take len) bytes r after = some l'.bridge := by
  unfold sendToErl at h
  unfold WpaEx.sendToErl
  split at h
  · next hbytes =>
      rw [if_pos hbytes]
      cases r with
      | interrupted | failed =>
          cases h
          rfl
      | written n =>
          by_cases hn : n = bytes.length
          · simp only [hn, if_true] at h ⊢
            rw [hnext l' h]
          · simp only [hn, if_false] at h ⊢
            cases h
            rfl
  · cases h

theorem wpaBuffer_sendToErl
    {len : Nat} {bytes : Binary} {r : WriteResult} {next : Option Loop}
    (h : l.sendToErl len bytes r next = some l')
    (hnext : ∀ l', next = some l' → l'.wpaBuffer = l.wpaBuffer) :
    l'.wpaBuffer = l.wpaBuffer := by
  unfold sendToErl at h
  split at h
  · cases r with
    | interrupted | failed =>
        cases h
        rfl
    | written n =>
        simp only at h
        split at h
        · exact hnext l' h
        · cases h
          rfl
  · cases h

/-- What `recv` has stored is what it has copied. -/
theorem take_stored (wpaBuffer d : Binary) :
    (stored wpaBuffer d).take (recvCopy d).length = recvCopy d := by
  rw [stored, List.take_left]

theorem length_stored {wpaBuffer : Binary} (d : Binary) (h : wpaBuffer.length = bufferSize) :
    (stored wpaBuffer d).length = bufferSize := by
  have hle : (recvCopy d).length ≤ bufferSize := by simp [recvCopy]
  rw [stored, List.length_append, List.length_drop]
  omega

section Requests

variable {b : ErlBuffer} {q : Request} {r : CtrlRequest} {cmd d : Binary}

theorem bridge_requested_ok {len : Nat} (h : r.point = .returned (.ok len)) :
    (requested b q r).bridge = ⟨b, .sendReply q (r.reply.take len)⟩ := by
  unfold requested
  rw [h]
  rfl

theorem bridge_requested_failed
    {result : CtrlRequest.Result} (h : r.point = .returned result)
    (hfailed : ∀ len, result ≠ .ok len) :
    (requested b q r).bridge = ⟨b, .exited .requestFailed⟩ := by
  unfold requested
  rw [h]
  cases result with
  | ok len =>
      exact absurd rfl (hfailed len)
  | _ =>
      rfl

theorem bridge_requested_of_ne (h : ∀ result, r.point ≠ .returned result) :
    (requested b q r).bridge = ⟨b, view r.reply (.request q r.startedAt r.point)⟩ := by
  unfold requested
  cases hp : r.point with
  | returned result =>
      exact absurd hp (h result)
  | _ =>
      rfl

theorem wpaBuffer_requested : (requested b q r).wpaBuffer = r.reply := by
  unfold requested
  split <;> rfl

/-- The tests on an unsolicited message are the same. -/
theorem unsolicited_iff :
    CtrlRequest.Unsolicited (requestArgs cmd) d ↔ unsolicited (recvCopy d) = true := by
  simp [CtrlRequest.Unsolicited, unsolicited, recvCopy, requestArgs]

/-- The callback gets the message up to the terminator. -/
theorem passed_eq : CtrlRequest.passed (requestArgs cmd) d = nulTerminated (recvCopy d) := by
  unfold CtrlRequest.passed nulTerminated recvCopy requestArgs
  dsimp only
  split
  · rw [List.take_take]
    rfl
  · rfl

/-- `recv` within `wpa_ctrl_request`. -/
theorem received_matched
    {startedAt : Reltime} {wpaBuffer : Binary} (hsize : wpaBuffer.length = bufferSize)
    (hr : r = CtrlRequest.received ⟨startedAt, wpaBuffer, .recv⟩ (requestArgs q.cmd) d) :
    WpaEx.step ⟨b, .recvReply q⟩ (.recv (.datagram d)) = some (requested b q r).bridge := by
  have hcases : CtrlRequest.ReceivedCases (requestArgs q.cmd) ⟨startedAt, wpaBuffer, .recv⟩ d
      (CtrlRequest.received ⟨startedAt, wpaBuffer, .recv⟩ (requestArgs q.cmd) d) :=
    CtrlRequest.received_cases hsize.ge
  rw [← hr] at hcases
  simp only [WpaEx.step]
  cases hcases with
  | passedOn reply hunsolicited hcb hkept htake =>
      rw [if_pos (unsolicited_iff.mp hunsolicited), bridge_requested_of_ne (by simp)]
      dsimp only [WpaEx.goto, view]
      rw [htake, passed_eq]
  | dropped reply hunsolicited hcb hkept =>
      cases hcb
  | replied reply hreply hkept htake =>
      rw [if_neg (mt unsolicited_iff.mpr hreply), bridge_requested_ok rfl, htake]
      rfl

/-- A call within `wpa_ctrl_request` that is not the callback. -/
theorem stepRequest_matched
    {startedAt : Reltime} {p : CtrlRequest.Point} {c : CtrlRequest.Call}
    (hpoint : l.point = .request q startedAt p) (hp : ∀ len, p ≠ .msgCb len)
    (hsize : l.wpaBuffer.length = bufferSize)
    (h : l.stepRequest q startedAt p c = some l') :
    Matched l (.request c) l' := by
  obtain ⟨r, hstep, rfl⟩ := Option.map_eq_some_iff.mp h
  have hbridge : l.bridge = ⟨l.buffer, view l.wpaBuffer (.request q startedAt p)⟩ := by
    rw [bridge, hpoint]
  cases CtrlRequest.step_cases hstep with
  | sent hsend =>
      cases hsend
      refine .steps (.send q.cmd .ok) ?_ trivial rfl
      rw [hbridge, bridge_requested_of_ne (by simp [CtrlRequest.goto])]
      exact if_pos rfl
  | again hsend =>
      cases hsend
      refine .stays ?_ rfl
      by_cases hunset : startedAt.sec = 0
      · rw [hbridge, if_pos hunset, bridge_requested_of_ne (by simp [CtrlRequest.goto])]
        rfl
      · rw [hbridge, if_neg hunset, bridge_requested_of_ne (by simp [CtrlRequest.goto])]
        rfl
  | notSent hsend =>
      cases hsend
      refine .steps (.send q.cmd .failed) ?_ trivial rfl
      rw [hbridge, bridge_requested_failed rfl (by simp)]
      exact if_pos rfl
  | started t hstarted =>
      cases hstarted
      refine .stays ?_ rfl
      rw [hbridge, bridge_requested_of_ne (by simp)]
      rfl
  | expired n hnow hexpired =>
      -- giving up because of the time is a `send` that fails
      cases hnow
      refine .steps (.send q.cmd .failed) ?_ trivial rfl
      rw [hbridge, bridge_requested_failed rfl (by simp)]
      exact if_pos rfl
  | notExpired n hnow hexpired =>
      cases hnow
      refine .stays ?_ rfl
      rw [hbridge, bridge_requested_of_ne (by simp [CtrlRequest.goto])]
      rfl
  | slept hsleep =>
      cases hsleep
      refine .stays ?_ rfl
      rw [hbridge, bridge_requested_of_ne (by simp [CtrlRequest.goto])]
      rfl
  | ready hselect =>
      cases hselect
      refine .steps (.select .ready) ?_ trivial rfl
      rw [hbridge, bridge_requested_of_ne (by simp [CtrlRequest.goto])]
      rfl
  | notReady selected result hselect hresult hready =>
      cases hselect
      refine .steps (.select selected) ?_ trivial rfl
      rw [hbridge, bridge_requested_failed rfl (by rcases hresult with rfl | rfl <;> simp)]
      cases selected with
      | ready =>
          exact absurd rfl hready
      | timeout | failed =>
          rfl
  | received d hrecv =>
      cases hrecv
      refine .steps (.recv (.datagram d)) ?_ trivial rfl
      rw [hbridge]
      exact received_matched hsize rfl
  | notReceived hrecv =>
      cases hrecv
      refine .steps (.recv .failed) ?_ trivial rfl
      rw [hbridge, bridge_requested_failed rfl (by simp)]
      rfl
  | calledBack len hcallback =>
      exact absurd hcallback (hp len)

theorem stepRequest_callback
    {startedAt : Reltime} {len : Nat}
    (h : l.stepRequest q startedAt (.msgCb len) (.msgCb (l.wpaBuffer.take len)) = some l') :
    l'.bridge = ⟨l.buffer, .selectReply q⟩ ∧ l'.wpaBuffer = l.wpaBuffer := by
  have hstep : CtrlRequest.step (requestArgs q.cmd) ⟨startedAt, l.wpaBuffer, .msgCb len⟩
      (.msgCb (l.wpaBuffer.take len)) = some ⟨startedAt, l.wpaBuffer, .select⟩ :=
    if_pos rfl
  rw [stepRequest, hstep] at h
  cases h
  exact ⟨rfl, rfl⟩

theorem stepRequest_length
    {startedAt : Reltime} {p : CtrlRequest.Point} {c : CtrlRequest.Call}
    (hsize : l.wpaBuffer.length = bufferSize)
    (h : l.stepRequest q startedAt p c = some l') :
    l'.wpaBuffer.length = bufferSize := by
  obtain ⟨r, hstep, rfl⟩ := Option.map_eq_some_iff.mp h
  rw [wpaBuffer_requested, (CtrlRequest.step_kept hstep hsize.ge).1]
  exact hsize

end Requests

/-- A system call outside of `wpa_ctrl_request`, or of its callback. -/
theorem step_loop
    {sc : Syscall} (h : l.step (.loop sc) = some l') (hsize : l.wpaBuffer.length = bufferSize) :
    l'.wpaBuffer.length = bufferSize ∧ WpaEx.step l.bridge sc = some l'.bridge ∧
      [sc].filter shown = [sc] := by
  obtain ⟨b, wpaBuffer, p⟩ := l
  cases p with
  | poll =>
      rcases sc with (⟨erl, wpa⟩ | _ | _) | _ | _ | _ | _ | _ | _ <;> cases h
      · cases erl
        · exact ⟨hsize, congrArg some (bridge_leaveErl ..).symm, rfl⟩
        · exact ⟨hsize, rfl, rfl⟩
      · exact ⟨hsize, rfl, rfl⟩
      · exact ⟨hsize, rfl, rfl⟩
  | readErl wpaReady =>
      rcases sc with _ | (_ | _ | input) | _ | _ | _ | _ | _
      case read.bytes =>
        simp only [step] at h
        split at h
        · next hempty =>
            cases h
            exact ⟨hsize, if_pos hempty, rfl⟩
        · next hinput =>
            cases h
            rw [wpaBuffer_dispatch, bridge_dispatch]
            exact ⟨hsize, if_neg hinput, rfl⟩
      all_goals cases h
      · exact ⟨hsize, congrArg some (bridge_leaveErl ..).symm, rfl⟩
      · exact ⟨hsize, rfl, rfl⟩
  | request q startedAt p =>
      cases p with
      | msgCb len =>
          rcases sc with _ | _ | _ | _ | _ | _ | ⟨bytes, r⟩
          case writev =>
            refine ⟨?_, bridge_sendToErl h fun l' h => (stepRequest_callback h).1, rfl⟩
            rw [wpaBuffer_sendToErl h fun l' h => (stepRequest_callback h).2]
            exact hsize
          all_goals cases h
      | _ =>
          cases h
  | sendReply q len =>
      rcases sc with _ | _ | _ | _ | _ | _ | ⟨bytes, r⟩
      case writev =>
        have hnext (l' : Loop) (h : some (afterRequest ⟨b, wpaBuffer, .sendReply q len⟩ q) =
            some l') : l'.bridge = WpaEx.afterRequest b q ∧ l'.wpaBuffer = wpaBuffer := by
          cases h
          exact ⟨bridge_afterRequest .., wpaBuffer_afterRequest ..⟩
        refine ⟨?_, bridge_sendToErl h fun l' h => (hnext l' h).1, rfl⟩
        rw [wpaBuffer_sendToErl h fun l' h => (hnext l' h).2]
        exact hsize
      all_goals cases h
  | pendingWpa =>
      rcases sc with _ | _ | _ | _ | ready | _ | _ <;> cases h
      cases ready <;> exact ⟨hsize, rfl, rfl⟩
  | recvWpa =>
      rcases sc with _ | _ | _ | _ | _ | (d | _) | _ <;> cases h
      · refine ⟨length_stored d hsize, ?_, rfl⟩
        simp only [bridge, view, take_stored]
        rfl
      · exact ⟨hsize, rfl, rfl⟩
  | sendMessage len =>
      rcases sc with _ | _ | _ | _ | _ | _ | ⟨bytes, r⟩
      case writev =>
        have hnext (l' : Loop) (h : some (goto ⟨b, wpaBuffer, .sendMessage len⟩ .pendingWpa) =
            some l') : l'.bridge = ⟨b, .pendingWpa⟩ ∧ l'.wpaBuffer = wpaBuffer := by
          cases h
          exact ⟨rfl, rfl⟩
        refine ⟨?_, bridge_sendToErl h fun l' h => (hnext l' h).1, rfl⟩
        rw [wpaBuffer_sendToErl h fun l' h => (hnext l' h).2]
        exact hsize
      all_goals cases h
  | exited e =>
      cases h

theorem step_request
    {c : CtrlRequest.Call} (h : l.step (.request c) = some l') :
    ∃ q startedAt p, l.point = .request q startedAt p ∧ (∀ len, p ≠ .msgCb len) ∧
      l.stepRequest q startedAt p c = some l' := by
  obtain ⟨b, wpaBuffer, p⟩ := l
  cases p with
  | request q startedAt p =>
      cases p with
      | msgCb len =>
          cases h
      | _ =>
          exact ⟨q, startedAt, _, rfl, by simp, h⟩
  | _ =>
      cases h

/-- The main loop makes no call of the startup. -/
theorem inLoop (h : l.step c = some l') : (∃ c', c = .request c') ∨ ∃ sc, c = .loop sc := by
  cases c with
  | opening c | attaching c =>
      obtain ⟨b, wpaBuffer, p⟩ := l
      cases p with
      | request q startedAt p =>
          cases p <;> cases h
      | _ =>
          cases h
  | request c' =>
      exact .inl ⟨c', rfl⟩
  | loop sc =>
      exact .inr ⟨sc, rfl⟩

/-- A step is matched, and `wpa_buffer` keeps its size. -/
theorem step_refines
    (h : l.step c = some l') (hsize : l.wpaBuffer.length = bufferSize)
    (hpossible : c.Possible l.buffer) :
    l'.wpaBuffer.length = bufferSize ∧ Matched l c l' := by
  cases c with
  | opening c | attaching c =>
      obtain h | h := inLoop h <;> obtain ⟨_, h⟩ := h <;> cases h
  | request c =>
      obtain ⟨q, startedAt, p, hpoint, hp, hrequest⟩ := step_request h
      exact ⟨stepRequest_length hsize hrequest, stepRequest_matched hpoint hp hsize hrequest⟩
  | loop sc =>
      obtain ⟨hsize', hstep, hshown⟩ := step_loop h hsize
      exact ⟨hsize', .steps sc hstep (hpossible sc (List.mem_singleton_self sc)) hshown⟩

end Loop

namespace Main

/-- The calls of `wpa_ctrl_attach`. -/
def attachCalls (hist : List MainCall) : List CtrlRequest.Call :=
  hist.flatMap fun
    | .attaching c => [c]
    | _ => []

/-- The system calls of the main loop, without those on the clock. -/
def visibleCalls (hist : List MainCall) : List Syscall :=
  hist.flatMap MainCall.visible

theorem attachCalls_concat (hist : List MainCall) (c : MainCall) :
    attachCalls (hist ++ [c]) = attachCalls hist ++ attachCalls [c] :=
  List.flatMap_append

theorem visibleCalls_concat (hist : List MainCall) (c : MainCall) :
    visibleCalls (hist ++ [c]) = visibleCalls hist ++ c.visible := by
  simp [visibleCalls]

/-- `ATTACH` has been sent once, and confirmed. -/
def Attached (hist : List MainCall) : Prop :=
  CtrlRequest.sent (attachCalls hist) = [lit "ATTACH"] ∧
    CtrlRequest.Confirmed (CtrlRequest.messages (attachCalls hist))

/-- The machine without time and memory has made the same system calls. -/
def Explained (hist : List MainCall) (l : Loop) : Prop :=
  ∃ calls, Run WpaEx.step Permits WpaEx.start calls l.bridge ∧
    calls.filter shown = visibleCalls hist

/--
The main loop starts when the supplicant has confirmed `ATTACH`.  Before that, and if the
program ends before that, it has made none of the system calls of the main loop.
-/
def Serves (hist : List MainCall) : Main → Prop
  | .running l => Attached hist ∧ Explained hist l
  | _ => ¬ Attached hist ∧ visibleCalls hist = []

/-- Neither `read` nor `writev` moves more than it is asked to. -/
def Permits (m : Main) (c : MainCall) : Prop :=
  match m with
  | .running l => c.Possible l.buffer
  | _ => True

instance (m : Main) (c : MainCall) : Decidable (Permits m c) :=
  match m with
  | .running l => inferInstanceAs (Decidable (c.Possible l.buffer))
  | .opening _ _ _ | .attaching _ | .exited _ => .isTrue trivial

/-- How `main` has got where it is. -/
def Came (inv : Invocation) (hist : List MainCall) : Main → Prop
  | .opening _ _ _ => attachCalls hist = [] ∧ visibleCalls hist = []
  | .attaching r =>
      Run (CtrlRequest.step (CtrlRequest.attachArgs true)) (fun _ _ => True)
        (CtrlRequest.start inv.buf) (attachCalls hist) r ∧
      CtrlRequest.attachResult r = none ∧ visibleCalls hist = []
  | .running l => Attached hist ∧ l.wpaBuffer.length = bufferSize ∧ Explained hist l
  | .exited _ => ¬ Attached hist ∧ visibleCalls hist = []

variable {inv : Invocation} {hist : List MainCall} {m m' : Main} {c : MainCall}

theorem attachCalls_of_loop
    {l l' : Loop} (h : l.step c = some l') : attachCalls [c] = [] := by
  obtain ⟨_, rfl⟩ | ⟨_, rfl⟩ := Loop.inLoop h <;> rfl

theorem not_attached_of_nil (h : attachCalls hist = []) : ¬ Attached hist := by
  rintro ⟨hsent, _⟩
  rw [h] at hsent
  cases hsent

/-- What `wpa_ctrl_attach` has sent and got when it succeeds, and only then. -/
theorem attached_iff
    {r : CtrlRequest}
    (hrun : Run (CtrlRequest.step (CtrlRequest.attachArgs true)) (fun _ _ => True)
      (CtrlRequest.start inv.buf) (attachCalls hist) r) :
    Attached hist ↔ CtrlRequest.attachResult r = some 0 := by
  have hiff := CtrlRequest.attachResult_eq_zero_iff inv.length_buf hrun
  rw [hiff, Attached]
  refine and_iff_right_of_imp fun hconfirmed => ?_
  exact CtrlRequest.sent_of_attachResult inv.length_buf hrun (hiff.mpr hconfirmed)

theorem came_opened
    {cl : Client} {s : OpenPoint × Kernel} (hattach : attachCalls hist = [])
    (hvisible : visibleCalls hist = []) :
    Came inv hist (opened inv cl s) := by
  unfold opened
  split
  · exact ⟨not_attached_of_nil hattach, hvisible⟩
  · refine ⟨?_, rfl, hvisible⟩
    rw [hattach]
    exact .start
  · exact ⟨hattach, hvisible⟩

theorem came_attached
    {r : CtrlRequest}
    (hrun : Run (CtrlRequest.step (CtrlRequest.attachArgs true)) (fun _ _ => True)
      (CtrlRequest.start inv.buf) (attachCalls hist) r)
    (hvisible : visibleCalls hist = []) :
    Came inv hist (attached r) := by
  unfold attached
  split
  · next hnone =>
      exact ⟨hrun, hnone, hvisible⟩
  · next result hresult =>
      split
      · next hneg =>
          refine ⟨fun hattached => ?_, hvisible⟩
          rw [attached_iff hrun, hresult] at hattached
          obtain rfl := Option.some.inj hattached
          exact lt_irrefl 0 hneg
      · next hnonneg =>
          have hattached := (attached_iff hrun).mpr
            (CtrlRequest.eq_zero_of_attachResult hresult hnonneg)
          exact ⟨hattached, List.length_replicate, [], .start, hvisible.symm⟩

theorem step_came
    (h : step inv m c = some m') (hpermits : Permits m c) (hm : Came inv hist m) :
    Came inv (hist ++ [c]) m' := by
  cases m with
  | opening cl p k =>
      cases c with
      | opening c =>
          obtain ⟨s, _, rfl⟩ := Option.map_eq_some_iff.mp h
          refine came_opened ?_ ?_
          · rw [attachCalls_concat, hm.1]
            rfl
          · rw [visibleCalls_concat, hm.2]
            rfl
      | attaching | request | loop =>
          cases h
  | attaching r =>
      cases c with
      | attaching c =>
          obtain ⟨r', hstep, rfl⟩ := Option.map_eq_some_iff.mp h
          refine came_attached ?_ ?_
          · rw [attachCalls_concat]
            exact .snoc hm.1 trivial hstep
          · rw [visibleCalls_concat, hm.2.2]
            rfl
      | opening | request | loop =>
          cases h
  | running l =>
      obtain ⟨l', hstep, rfl⟩ := Option.map_eq_some_iff.mp h
      obtain ⟨hattached, hsize, calls, hrun, hshown⟩ := hm
      obtain ⟨hsize', hmatched⟩ := Loop.step_refines hstep hsize hpermits
      obtain ⟨calls', hrun', hshown'⟩ := hmatched.run
      refine ⟨?_, hsize', calls ++ calls', hrun.append hrun', ?_⟩
      · rwa [Attached, attachCalls_concat, attachCalls_of_loop hstep, List.append_nil]
      · rw [List.filter_append, hshown, hshown', visibleCalls_concat]
  | exited e =>
      cases h

theorem run_came
    (hrun : Run (step inv) Permits (start inv) hist m) :
    Came inv hist m := by
  refine hrun.invariant (I := Came inv) ?_ fun hm hpermits hstep => step_came hstep hpermits hm
  unfold start
  split
  · exact ⟨rfl, rfl⟩
  · exact ⟨not_attached_of_nil rfl, rfl⟩

/-- What the program has done, at every point of every run. -/
theorem run_serves
    (hrun : Run (step inv) Permits (start inv) hist m) :
    Serves hist m := by
  have hcame := run_came hrun
  cases m with
  | opening cl p k =>
      exact ⟨not_attached_of_nil hcame.1, hcame.2⟩
  | attaching r =>
      refine ⟨fun hattached => ?_, hcame.2.2⟩
      rw [attached_iff hcame.1, hcame.2.1] at hattached
      cases hattached
  | running l =>
      exact ⟨hcame.1, hcame.2.2⟩
  | exited e =>
      exact hcame

/-- The main loop, if it has started. -/
def loop? : Main → Option Loop
  | .running l => some l
  | _ => none

theorem eq_running_of_loop? {l : Loop} (h : m.loop? = some l) : m = .running l := by
  cases m with
  | running l' =>
      cases h
      rfl
  | _ =>
      cases h

/-- The program is started where a socket file has been left behind. -/
def firstInvocation : Invocation where
  argv := [⟨lit "wpa_ex", by decide +kernel⟩, WpaCtrl.firstClient.ctrlPath]
  pid := 7
  kernel := WpaCtrl.staleKernel
  buf := List.replicate 10 0
  length_buf := List.length_replicate

/-- It opens the connection, attaches, and serves a request that has to be retried. -/
def servedCalls : List MainCall :=
  WpaCtrl.staleRun.map .opening ++
    [.attaching (.send (lit "ATTACH") .ok), .attaching (.select .ready),
      .attaching (.recv 10 (.datagram (lit "OK\n"))),
      .loop (.poll (.ready true false)), .loop (.read (.bytes (frame (lit "PING")))),
      .request (.send (lit "PING") .again), .request (.getReltime ⟨3, 0⟩), .request .sleep,
      .request (.send (lit "PING") .ok), .request (.select .ready),
      .request (.recv 2048 (.datagram (lit "<3>UP"))),
      .loop (.writev (frame (lit "<3>UP")) (.written 7)), .request (.select .ready),
      .request (.recv 2048 (.datagram (lit "PONG\n"))),
      .loop (.writev (frame (lit "PONG\n")) (.written 7))]

theorem run_serves_ping :
    ∃ l, Run (step firstInvocation) Permits (start firstInvocation) servedCalls (.running l) ∧
      Serves servedCalls (.running l) := by
  have hend : ((run? (step firstInvocation) Permits (start firstInvocation) servedCalls).bind
      loop?).isSome := by
    decide +kernel
  obtain ⟨l, hl⟩ := Option.isSome_iff_exists.mp hend
  obtain ⟨m, hm, hloop⟩ := Option.bind_eq_some_iff.mp hl
  obtain rfl := eq_running_of_loop? hloop
  exact ⟨l, run_of_run? hm, run_serves (run_of_run? hm)⟩

end Main
end WpaEx
end WpaSupplicant
