import WpaSupplicant.InputBuffer
import WpaSupplicant.StepSystem

/-!
# wpa_ex as a machine of system calls

The main loop of wpa_ex after a successful attach, `process_erl`,
`process_wpa`, `send_to_erl` and the part of `wpa_ctrl_request` it uses.  A
state is the input buffer and the point of the program; a step is one system
call together with its result, and runs the program to its next system call.

* `step_cases`: what a step can do;
* `step_conserves_messages`: a datagram of less than the buffer size is what
  the program has in hand until it has written its frame;
* `Phases.holds_step`: what the dispatch loop establishes of the buffer is kept;
* `step_remaining`: the requests it sends are those `process_erl` dispatches.
-/

namespace WpaSupplicant

inductive PollResult
  | ready (erl wpa : Bool)
  | interrupted
  | failed
deriving DecidableEq

/-- `again` is one of the errors on which `wpa_ctrl_request` retries. -/
inductive SendResult
  | ok
  | again
  | failed
deriving DecidableEq

inductive SelectResult
  | ready
  | timeout
  | failed
deriving DecidableEq

inductive RecvResult
  | datagram (d : Binary)
  | failed
deriving DecidableEq

inductive WriteResult
  | written (n : Nat)
  | interrupted
  | failed
deriving DecidableEq

/-- The system calls of the program, with what they are given and return. -/
inductive Syscall
  | poll (r : PollResult)
  | read (r : ReadResult)
  | send (cmd : Binary) (r : SendResult)
  | select (r : SelectResult)
  | pending (ready : Bool)
  | recv (r : RecvResult)
  | writev (bytes : Binary) (r : WriteResult)
deriving DecidableEq

/-- A request in progress, and what the program goes on with after it. -/
structure Request where
  cmd : Binary
  processed : Nat
  wpaReady : Bool
deriving DecidableEq

/-- The system call the program is about to make. -/
inductive Point
  | poll
  | readErl (wpaReady : Bool)
  | sendRequest (q : Request)
  | selectReply (q : Request)
  | recvReply (q : Request)
  | msgCb (q : Request) (msg : Binary)
  | sendReply (q : Request) (msg : Binary)
  | pendingWpa
  | recvWpa
  | sendMessage (msg : Binary)
  | exited (e : Exit)
deriving DecidableEq

structure WpaEx where
  buffer : ErlBuffer
  point : Point

namespace WpaEx

/-- The program at its first `poll`. -/
def start : WpaEx :=
  ⟨.empty, .poll⟩

def exit (s : WpaEx) (e : Exit) : WpaEx :=
  { s with point := .exited e }

def goto (s : WpaEx) (p : Point) : WpaEx :=
  { s with point := p }

/-- The return from `process_erl` to the main loop. -/
def leaveErl (b : ErlBuffer) (wpaReady : Bool) : WpaEx :=
  ⟨b, if wpaReady then .pendingWpa else .poll⟩

/-- The dispatch loop of `process_erl`, up to the next request. -/
def dispatch (b : ErlBuffer) (wpaReady : Bool) : WpaEx :=
  match tryDispatch b with
  | .incomplete => leaveErl b wpaReady
  | .tooLong => ⟨b, .exited .messageTooLong⟩
  | .request cmd n => ⟨b, .sendRequest ⟨cmd, n, wpaReady⟩⟩

/-- The dispatch loop after a request. -/
def afterRequest (b : ErlBuffer) (q : Request) : WpaEx :=
  if q.processed < b.ix then dispatch (b.shift q.processed) q.wpaReady
  else leaveErl b.reset q.wpaReady

/-- What `recv` copies into `wpa_buffer`. -/
def recvCopy (d : Binary) : Binary :=
  d.take bufferSize

/-- The test on which `wpa_ctrl_request` takes a message for an unsolicited one. -/
def unsolicited (received : Binary) : Bool :=
  received.head? == some '<'.toUInt8

/-- What is left of an unsolicited message once it is terminated by a nul. -/
def nulTerminated (received : Binary) : Binary :=
  if received.length = bufferSize then received.take (bufferSize - 1) else received

/-- `send_to_erl`: one round of its loop. -/
def sendToErl (s : WpaEx) (msg bytes : Binary) (r : WriteResult) (next : WpaEx) :
    Option WpaEx :=
  if bytes = frame msg then
    match r with
    | .interrupted => some s
    | .failed => some (s.exit .writevFailed)
    | .written n =>
        if n = bytes.length then some next else some (s.exit .notEnoughWritten)
  else
    none

/-- One system call; `none` when it is not the one the program makes. -/
def step (s : WpaEx) (sc : Syscall) : Option WpaEx :=
  match s.point, sc with
  | .poll, .poll (.ready erl wpa) =>
      some (if erl then s.goto (.readErl wpa) else leaveErl s.buffer wpa)
  | .poll, .poll .interrupted => some s
  | .poll, .poll .failed => some (s.exit .pollFailed)
  | .readErl wpaReady, .read .interrupted => some (leaveErl s.buffer wpaReady)
  | .readErl _, .read .failed => some (s.exit .readFailed)
  | .readErl wpaReady, .read (.bytes input) =>
      if input.take s.buffer.free = [] then some (s.exit .endOfFile)
      else some (dispatch (s.buffer.store input) wpaReady)
  | .sendRequest q, .send cmd r =>
      if cmd = q.cmd then
        match r with
        | .ok => some (s.goto (.selectReply q))
        | .again => some s
        | .failed => some (s.exit .requestFailed)
      else
        none
  | .selectReply q, .select .ready => some (s.goto (.recvReply q))
  | .selectReply _, .select .timeout => some (s.exit .requestFailed)
  | .selectReply _, .select .failed => some (s.exit .requestFailed)
  | .recvReply _, .recv .failed => some (s.exit .requestFailed)
  | .recvReply q, .recv (.datagram d) =>
      if unsolicited (recvCopy d) then
        some (s.goto (.msgCb q (nulTerminated (recvCopy d))))
      else
        some (s.goto (.sendReply q (recvCopy d)))
  | .msgCb q msg, .writev bytes r =>
      sendToErl s msg bytes r (s.goto (.selectReply q))
  | .sendReply q msg, .writev bytes r =>
      sendToErl s msg bytes r (afterRequest s.buffer q)
  | .pendingWpa, .pending ready =>
      some (s.goto (if ready then .recvWpa else .poll))
  | .recvWpa, .recv .failed => some (s.exit .recvFailed)
  | .recvWpa, .recv (.datagram d) => some (s.goto (.sendMessage (recvCopy d)))
  | .sendMessage msg, .writev bytes r =>
      sendToErl s msg bytes r (s.goto .pendingWpa)
  | _, _ => none

/-- The messages read from the socket and not yet written to Erlang. -/
def inHand (s : WpaEx) : List Binary :=
  match s.point with
  | .msgCb _ msg | .sendReply _ msg | .sendMessage msg => [msg]
  | _ => []

/-- The program has ended. -/
def Exited (s : WpaEx) : Prop :=
  ∃ e, s.point = .exited e

end WpaEx

namespace Syscall

/-- The request datagram that the call sends. -/
def sent : Syscall → List Binary
  | .send cmd .ok => [cmd]
  | _ => []

/-- The datagram that the call takes from the socket. -/
def received : Syscall → List Binary
  | .recv (.datagram d) => [d]
  | _ => []

/-- The frame that the call writes whole. -/
def written : Syscall → List Binary
  | .writev bytes (.written n) => if n = bytes.length then [bytes] else []
  | _ => []

/-- The bytes that the call takes from stdin. -/
def input : Syscall → Binary
  | .read (.bytes bytes) => bytes
  | _ => []

/-- The bytes that the call puts on stdout. -/
def output : Syscall → Binary
  | .writev bytes (.written n) => bytes.take n
  | _ => []

/-- Neither `read` nor `writev` moves more than it is asked to. -/
def Possible (sc : Syscall) (b : ErlBuffer) : Prop :=
  match sc with
  | .read (.bytes input) => input.length ≤ b.free
  | .writev bytes (.written n) => n ≤ bytes.length
  | _ => True

instance (sc : Syscall) (b : ErlBuffer) : Decidable (sc.Possible b) :=
  match sc with
  | .read (.bytes input) => inferInstanceAs (Decidable (input.length ≤ b.free))
  | .writev bytes (.written n) => inferInstanceAs (Decidable (n ≤ bytes.length))
  | .poll _ | .read .interrupted | .read .failed | .send _ _ | .select _ | .pending _
  | .recv _ | .writev _ .interrupted | .writev _ .failed => .isTrue trivial

/-- The call moves no data. -/
def Quiet (sc : Syscall) : Prop :=
  sc.sent = [] ∧ sc.received = [] ∧ sc.input = [] ∧ sc.output = [] ∧
    sc.written = []

end Syscall

namespace WpaEx

/-- What a step can do. -/
inductive StepCases : WpaEx → Syscall → WpaEx → Prop
  | again {s : WpaEx} {sc : Syscall}
      (hquiet : sc.Quiet) (halive : ¬ s.Exited) :
      StepCases s sc s
  | fails {s : WpaEx} {sc : Syscall} (e : Exit)
      (hquiet : sc.Quiet) (halive : ¬ s.Exited) :
      StepCases s sc (s.exit e)
  | polled (b : ErlBuffer) (erl wpa : Bool) :
      StepCases ⟨b, .poll⟩ (.poll (.ready erl wpa))
        (if erl then ⟨b, .readErl wpa⟩ else leaveErl b wpa)
  | readInterrupted (b : ErlBuffer) (wpaReady : Bool) :
      StepCases ⟨b, .readErl wpaReady⟩ (.read .interrupted) (leaveErl b wpaReady)
  | endOfFile (b : ErlBuffer) (wpaReady : Bool) (input : Binary)
      (hempty : input.take b.free = []) :
      StepCases ⟨b, .readErl wpaReady⟩ (.read (.bytes input))
        ⟨b, .exited .endOfFile⟩
  | read (b : ErlBuffer) (wpaReady : Bool) (input : Binary)
      (hinput : input.take b.free ≠ []) :
      StepCases ⟨b, .readErl wpaReady⟩ (.read (.bytes input))
        (dispatch (b.store input) wpaReady)
  | sent (b : ErlBuffer) (q : Request) :
      StepCases ⟨b, .sendRequest q⟩ (.send q.cmd .ok) ⟨b, .selectReply q⟩
  | selected (b : ErlBuffer) (q : Request) :
      StepCases ⟨b, .selectReply q⟩ (.select .ready) ⟨b, .recvReply q⟩
  | notification (b : ErlBuffer) (q : Request) (d : Binary)
      (hd : unsolicited (recvCopy d) = true) :
      StepCases ⟨b, .recvReply q⟩ (.recv (.datagram d))
        ⟨b, .msgCb q (nulTerminated (recvCopy d))⟩
  | reply (b : ErlBuffer) (q : Request) (d : Binary)
      (hd : unsolicited (recvCopy d) = false) :
      StepCases ⟨b, .recvReply q⟩ (.recv (.datagram d))
        ⟨b, .sendReply q (recvCopy d)⟩
  | wroteNotification (b : ErlBuffer) (q : Request) (msg : Binary) :
      StepCases ⟨b, .msgCb q msg⟩
        (.writev (frame msg) (.written (frame msg).length))
        ⟨b, .selectReply q⟩
  | wroteReply (b : ErlBuffer) (q : Request) (msg : Binary) :
      StepCases ⟨b, .sendReply q msg⟩
        (.writev (frame msg) (.written (frame msg).length))
        (afterRequest b q)
  | pending (b : ErlBuffer) (ready : Bool) :
      StepCases ⟨b, .pendingWpa⟩ (.pending ready)
        ⟨b, if ready then .recvWpa else .poll⟩
  | message (b : ErlBuffer) (d : Binary) :
      StepCases ⟨b, .recvWpa⟩ (.recv (.datagram d)) ⟨b, .sendMessage (recvCopy d)⟩
  | wroteMessage (b : ErlBuffer) (msg : Binary) :
      StepCases ⟨b, .sendMessage msg⟩
        (.writev (frame msg) (.written (frame msg).length))
        ⟨b, .pendingWpa⟩
  | shortWrite {s : WpaEx} (msg : Binary) (n : Nat)
      (hmsg : s.inHand = [msg]) (hn : n ≠ (frame msg).length) :
      StepCases s (.writev (frame msg) (.written n)) (s.exit .notEnoughWritten)

/-- One round of `send_to_erl` retries, fails, stops short or goes on. -/
theorem sendToErl_cases
    {s s' next : WpaEx} {msg bytes : Binary} {r : WriteResult}
    (hmsg : s.inHand = [msg])
    (hwrote : StepCases s (.writev (frame msg) (.written (frame msg).length)) next)
    (h : sendToErl s msg bytes r next = some s') :
    StepCases s (.writev bytes r) s' := by
  have halive : ¬ s.Exited := by
    rintro ⟨e, he⟩
    simp [inHand, he] at hmsg
  unfold sendToErl at h
  split at h
  · next hbytes =>
      subst hbytes
      cases r with
      | interrupted =>
          cases h
          exact .again (by simp [Syscall.Quiet, Syscall.sent, Syscall.received,
            Syscall.input, Syscall.output, Syscall.written]) halive
      | failed =>
          cases h
          exact .fails _ (by simp [Syscall.Quiet, Syscall.sent, Syscall.received,
            Syscall.input, Syscall.output, Syscall.written]) halive
      | written n =>
          by_cases hn : n = (frame msg).length
          · simp only [hn, if_true, Option.some.injEq] at h
            subst h
            rw [hn]
            exact hwrote
          · simp only [hn, if_false, Option.some.injEq] at h
            subst h
            exact .shortWrite msg n hmsg hn
  · cases h

/-- A step is one of `StepCases`. -/
theorem step_cases
    {s s' : WpaEx} {sc : Syscall} (h : step s sc = some s') :
    StepCases s sc s' := by
  obtain ⟨b, p⟩ := s
  have hagain {sc : Syscall} (hsc : sc.Quiet) (hp : ∀ e, p ≠ .exited e) :
      StepCases ⟨b, p⟩ sc ⟨b, p⟩ :=
    .again hsc (fun ⟨e, he⟩ => hp e he)
  have hfails {sc : Syscall} (e : Exit) (hsc : sc.Quiet) (hp : ∀ e, p ≠ .exited e) :
      StepCases ⟨b, p⟩ sc ⟨b, .exited e⟩ :=
    .fails e hsc (fun ⟨e, he⟩ => hp e he)
  cases p with
  | poll =>
      rcases sc with (⟨erl, wpa⟩ | _ | _) | _ | _ | _ | _ | _ | _ <;> cases h
      · cases erl <;> exact .polled b _ wpa
      · exact hagain ⟨rfl, rfl, rfl, rfl, rfl⟩ nofun
      · exact hfails _ ⟨rfl, rfl, rfl, rfl, rfl⟩ nofun
  | readErl wpaReady =>
      rcases sc with _ | (_ | _ | input) | _ | _ | _ | _ | _
      case read.bytes =>
        simp only [step] at h
        split at h
        · next hempty =>
            cases h
            exact .endOfFile b wpaReady input hempty
        · next hinput =>
            cases h
            exact .read b wpaReady input hinput
      all_goals cases h
      · exact .readInterrupted b wpaReady
      · exact hfails _ ⟨rfl, rfl, rfl, rfl, rfl⟩ nofun
  | sendRequest q =>
      rcases sc with _ | _ | ⟨cmd, r⟩ | _ | _ | _ | _
      case send =>
        simp only [step] at h
        split at h
        · next hcmd =>
            subst hcmd
            cases r <;> cases h
            · exact .sent b q
            · exact hagain ⟨rfl, rfl, rfl, rfl, rfl⟩ nofun
            · exact hfails _ ⟨rfl, rfl, rfl, rfl, rfl⟩ nofun
        · cases h
      all_goals cases h
  | selectReply q =>
      rcases sc with _ | _ | _ | (_ | _ | _) | _ | _ | _ <;> cases h
      · exact .selected b q
      · exact hfails _ ⟨rfl, rfl, rfl, rfl, rfl⟩ nofun
      · exact hfails _ ⟨rfl, rfl, rfl, rfl, rfl⟩ nofun
  | recvReply q =>
      rcases sc with _ | _ | _ | _ | _ | (d | _) | _
      case recv.datagram =>
        simp only [step] at h
        split at h
        · next hd =>
            cases h
            exact .notification b q d hd
        · next hd =>
            cases h
            exact .reply b q d (by simpa using hd)
      all_goals cases h
      exact hfails _ ⟨rfl, rfl, rfl, rfl, rfl⟩ nofun
  | msgCb q msg =>
      rcases sc with _ | _ | _ | _ | _ | _ | ⟨bytes, r⟩
      case writev =>
        exact sendToErl_cases rfl (.wroteNotification b q msg) h
      all_goals cases h
  | sendReply q msg =>
      rcases sc with _ | _ | _ | _ | _ | _ | ⟨bytes, r⟩
      case writev =>
        exact sendToErl_cases rfl (.wroteReply b q msg) h
      all_goals cases h
  | pendingWpa =>
      rcases sc with _ | _ | _ | _ | ready | _ | _ <;> cases h
      exact .pending b ready
  | recvWpa =>
      rcases sc with _ | _ | _ | _ | _ | (d | _) | _ <;> cases h
      · exact .message b d
      · exact hfails _ ⟨rfl, rfl, rfl, rfl, rfl⟩ nofun
  | sendMessage msg =>
      rcases sc with _ | _ | _ | _ | _ | _ | ⟨bytes, r⟩
      case writev =>
        exact sendToErl_cases rfl (.wroteMessage b msg) h
      all_goals cases h
  | exited e =>
      cases sc <;> cases h

section Histories

/-- The request datagrams that a run sends. -/
def sends (hist : List Syscall) : List Binary :=
  hist.flatMap Syscall.sent

/-- The datagrams that a run takes from the socket. -/
def receives (hist : List Syscall) : List Binary :=
  hist.flatMap Syscall.received

/-- The frames that a run writes whole. -/
def writes (hist : List Syscall) : List Binary :=
  hist.flatMap Syscall.written

/-- The bytes that a run puts on stdout. -/
def outputs (hist : List Syscall) : Binary :=
  hist.flatMap Syscall.output

variable (xs ys : List Syscall)

@[simp] theorem sends_append : sends (xs ++ ys) = sends xs ++ sends ys :=
  List.flatMap_append

@[simp] theorem receives_append : receives (xs ++ ys) = receives xs ++ receives ys :=
  List.flatMap_append

@[simp] theorem writes_append : writes (xs ++ ys) = writes xs ++ writes ys :=
  List.flatMap_append

@[simp] theorem outputs_append : outputs (xs ++ ys) = outputs xs ++ outputs ys :=
  List.flatMap_append

end Histories

/-- A program that has ended makes no system call. -/
theorem not_exited_of_step
    {s s' : WpaEx} {sc : Syscall} (h : step s sc = some s') :
    ¬ s.Exited := by
  rintro ⟨e, he⟩
  obtain ⟨b, p⟩ := s
  subst he
  cases sc <;> cases h

section Points

@[simp] theorem inHand_mk (b : ErlBuffer) (p : Point) :
    inHand ⟨b, p⟩ =
      match p with
      | .msgCb _ msg | .sendReply _ msg | .sendMessage msg => [msg]
      | _ => [] :=
  rfl

@[simp] theorem inHand_leaveErl (b : ErlBuffer) (wpaReady : Bool) :
    (leaveErl b wpaReady).inHand = [] := by
  cases wpaReady <;> rfl

@[simp] theorem inHand_dispatch (b : ErlBuffer) (wpaReady : Bool) :
    (dispatch b wpaReady).inHand = [] := by
  unfold dispatch
  split
  · exact inHand_leaveErl b wpaReady
  · rfl
  · rfl

@[simp] theorem inHand_afterRequest (b : ErlBuffer) (q : Request) :
    (afterRequest b q).inHand = [] := by
  unfold afterRequest
  split
  · exact inHand_dispatch _ _
  · exact inHand_leaveErl _ _

theorem unsolicited_recvCopy (d : Binary) :
    unsolicited (recvCopy d) = unsolicited d := by
  cases d <;> rfl

theorem recvCopy_of_length_lt
    {d : Binary} (h : d.length < bufferSize) :
    recvCopy d = d :=
  List.take_of_length_le h.le

theorem nulTerminated_of_length_lt
    {d : Binary} (h : d.length < bufferSize) :
    nulTerminated d = d := by
  rw [nulTerminated, if_neg h.ne]

end Points

section Messages

variable {s s' : WpaEx} {sc : Syscall}

/--
The messages in hand and the one just read are those just written and those in
hand then.  Only an exit drops a message, and only then does an incomplete frame
stay on stdout.
-/
theorem step_conserves_messages
    (h : step s sc = some s') (hpossible : sc.Possible s.buffer)
    (hshort : ∀ d ∈ sc.received, d.length < bufferSize)
    (hfit : ∀ m ∈ s.inHand, FitsFrame m) :
    ∃ msgs dropped cut,
      s.inHand ++ sc.received = msgs ++ (s'.inHand ++ dropped) ∧
      sc.written = msgs.map frame ∧ sc.output = frames msgs ++ cut ∧
      unframe? cut = none ∧ (¬ s'.Exited → dropped = [] ∧ cut = []) := by
  have hnone : unframe? [] = none := rfl
  cases step_cases h with
  | again hquiet _ =>
      obtain ⟨_, hreceived, _, houtput, hwritten⟩ := hquiet
      exact ⟨[], [], [], by simp [hreceived], by simp [hwritten], by simp [houtput],
        hnone, fun _ => ⟨rfl, rfl⟩⟩
  | fails e hquiet _ =>
      obtain ⟨_, hreceived, _, houtput, hwritten⟩ := hquiet
      exact ⟨[], s.inHand, [], by simp [hreceived, inHand, exit], by simp [hwritten],
        by simp [houtput], hnone, fun halive => absurd ⟨e, rfl⟩ halive⟩
  | shortWrite msg n hmsg hn =>
      have hlt : n < (frame msg).length := lt_of_le_of_ne hpossible hn
      refine ⟨[], [msg], (frame msg).take n, by rw [hmsg]; rfl, if_neg hn, rfl, ?_,
        fun halive => absurd ⟨_, rfl⟩ halive⟩
      exact unframe?_take_frame (hfit msg (by simp [hmsg])) hlt
  | polled b erl wpa =>
      exact ⟨[], [], [], by cases erl <;> simp [Syscall.received], rfl, rfl, hnone,
        fun _ => ⟨rfl, rfl⟩⟩
  | pending b ready =>
      exact ⟨[], [], [], by cases ready <;> rfl, rfl, rfl, hnone, fun _ => ⟨rfl, rfl⟩⟩
  | readInterrupted | endOfFile | read | sent | selected =>
      exact ⟨[], [], [], by simp [Syscall.received], rfl, rfl, hnone,
        fun _ => ⟨rfl, rfl⟩⟩
  | notification b q d _ =>
      have hd := hshort d (by simp [Syscall.received])
      rw [recvCopy_of_length_lt hd, nulTerminated_of_length_lt hd]
      exact ⟨[], [], [], rfl, rfl, rfl, hnone, fun _ => ⟨rfl, rfl⟩⟩
  | reply b q d _ | message b d =>
      rw [recvCopy_of_length_lt (hshort d (by simp [Syscall.received]))]
      exact ⟨[], [], [], rfl, rfl, rfl, hnone, fun _ => ⟨rfl, rfl⟩⟩
  | wroteNotification b q msg | wroteReply b q msg | wroteMessage b msg =>
      exact ⟨[msg], [], [], by simp [Syscall.received], by simp [Syscall.written],
        by simp [Syscall.output], hnone, fun _ => ⟨rfl, rfl⟩⟩

end Messages

section Phases

/--
Conditions on the buffer that the dispatch loop establishes: between requests,
before the datagram of a request is sent, and until the request is answered.
-/
structure Phases where
  idle : ErlBuffer → Prop
  sending : Request → ErlBuffer → Prop
  waiting : Request → ErlBuffer → Prop
  idle_reset : ∀ b : ErlBuffer, idle b.reset
  idle_of_incomplete : ∀ b, tryDispatch b = .incomplete → idle b
  sending_of_request :
    ∀ b cmd n wpaReady, tryDispatch b = .request cmd n → sending ⟨cmd, n, wpaReady⟩ b
  waiting_of_sending : ∀ q b, sending q b → waiting q b

namespace Phases

variable (φ : Phases)

/-- The condition for the point of the program. -/
def Holds (s : WpaEx) : Prop :=
  match s.point with
  | .sendRequest q => φ.sending q s.buffer
  | .selectReply q | .recvReply q | .msgCb q _ | .sendReply q _ => φ.waiting q s.buffer
  | .exited _ => True
  | _ => φ.idle s.buffer

variable {φ}

theorem holds_leaveErl
    {b : ErlBuffer} (h : φ.idle b) (wpaReady : Bool) :
    φ.Holds (leaveErl b wpaReady) := by
  cases wpaReady <;> exact h

theorem holds_dispatch (b : ErlBuffer) (wpaReady : Bool) :
    φ.Holds (dispatch b wpaReady) := by
  unfold dispatch
  split
  · next h =>
      exact holds_leaveErl (φ.idle_of_incomplete b h) wpaReady
  · trivial
  · next cmd n h =>
      exact φ.sending_of_request b cmd n wpaReady h

theorem holds_afterRequest (b : ErlBuffer) (q : Request) :
    φ.Holds (afterRequest b q) := by
  unfold afterRequest
  split
  · exact holds_dispatch _ _
  · exact holds_leaveErl (φ.idle_reset b) _

/-- What the dispatch loop establishes is kept by every step. -/
theorem holds_step
    {s s' : WpaEx} {sc : Syscall} (h : step s sc = some s') (hs : φ.Holds s) :
    φ.Holds s' := by
  cases step_cases h with
  | again =>
      exact hs
  | fails | endOfFile | shortWrite =>
      trivial
  | polled b erl wpa =>
      cases erl
      · exact holds_leaveErl hs wpa
      · exact hs
  | readInterrupted b wpaReady =>
      exact holds_leaveErl hs wpaReady
  | read =>
      exact holds_dispatch _ _
  | sent b q =>
      exact φ.waiting_of_sending q b hs
  | wroteReply =>
      exact holds_afterRequest _ _
  | pending b ready =>
      cases ready <;> exact hs
  | selected | notification | reply | wroteNotification | message | wroteMessage =>
      exact hs

end Phases
end Phases

section Requests

/-- The input that no request datagram has been sent for. -/
def unsent (s : WpaEx) : Binary :=
  match s.point with
  | .selectReply q | .recvReply q | .msgCb q _ | .sendReply q _ =>
      s.buffer.received.drop q.processed
  | _ => s.buffer.received

/--
Between requests the input holds no complete frame, and the request about to be
sent is the first frame of the input.
-/
def Aligned (s : WpaEx) : Prop :=
  match s.point with
  | .sendRequest q =>
      unframe? s.buffer.received =
        some (q.cmd, s.buffer.received.drop q.processed)
  | .selectReply _ | .recvReply _ | .msgCb _ _ | .sendReply _ _ | .exited _ =>
      True
  | _ => unframe? s.buffer.received = none

theorem unsent_leaveErl (b : ErlBuffer) (wpaReady : Bool) :
    (leaveErl b wpaReady).unsent = b.received := by
  cases wpaReady <;> rfl

theorem unsent_dispatch (b : ErlBuffer) (wpaReady : Bool) :
    (dispatch b wpaReady).unsent = b.received := by
  unfold dispatch
  split
  · exact unsent_leaveErl b wpaReady
  · rfl
  · rfl

/-- The `memmove`, or the reset, leaves what follows the request. -/
theorem unsent_afterRequest (b : ErlBuffer) (q : Request) :
    (afterRequest b q).unsent = b.received.drop q.processed := by
  unfold afterRequest
  split
  · rw [unsent_dispatch, ErlBuffer.received_shift]
  · next hle =>
      rw [unsent_leaveErl, ErlBuffer.received_reset, List.drop_eq_nil_of_le]
      rw [b.length_received]
      omega

/-- The conditions of `Aligned`. -/
def alignedPhases : Phases where
  idle b := unframe? b.received = none
  sending q b := unframe? b.received = some (q.cmd, b.received.drop q.processed)
  waiting _ _ := True
  idle_reset b := by simp [unframe?]
  idle_of_incomplete _ := unframe?_of_tryDispatch_incomplete
  sending_of_request _ _ _ _ := unframe?_of_tryDispatch
  waiting_of_sending _ _ _ := trivial

theorem aligned_iff_holds (s : WpaEx) : s.Aligned ↔ alignedPhases.Holds s := by
  obtain ⟨b, p⟩ := s
  cases p <;> rfl

variable {s s' : WpaEx} {sc : Syscall}

theorem step_aligned
    (h : step s sc = some s') (hs : s.Aligned) :
    s'.Aligned := by
  rw [aligned_iff_holds] at hs ⊢
  exact Phases.holds_step h hs

/-- Input is kept until its request has been sent. -/
theorem step_conserves_requests
    (h : step s sc = some s') (hs : s.Aligned) (halive : ¬ s'.Exited)
    (hpossible : sc.Possible s.buffer) :
    s.unsent ++ sc.input = frames sc.sent ++ s'.unsent := by
  cases step_cases h with
  | again hquiet _ =>
      obtain ⟨hsent, _, hinput, _, _⟩ := hquiet
      simp [hsent, hinput]
  | fails e _ _ =>
      exact absurd ⟨e, rfl⟩ halive
  | endOfFile | shortWrite =>
      exact absurd ⟨_, rfl⟩ halive
  | polled b erl wpa =>
      cases erl <;> simp [Syscall.sent, Syscall.input, unsent_leaveErl] <;> rfl
  | readInterrupted b wpaReady =>
      simp [Syscall.sent, Syscall.input, unsent_leaveErl]
      rfl
  | read b wpaReady input _ =>
      have htake : input.take b.free = input := List.take_of_length_le hpossible
      rw [unsent_dispatch, ErlBuffer.received_store, htake]
      rfl
  | sent b q =>
      have hframe := eq_frame_append_of_unframe? hs
      simpa [Syscall.sent, Syscall.input, unsent] using hframe
  | wroteReply b q msg =>
      rw [unsent_afterRequest]
      simp [Syscall.sent, Syscall.input]
      rfl
  | pending b ready =>
      cases ready <;> simp [Syscall.sent, Syscall.input] <;> rfl
  | selected | notification | reply | wroteNotification | message | wroteMessage =>
      simp [Syscall.sent, Syscall.input]
      rfl

/-- The request that a step sends is the first frame of the input. -/
theorem step_sends
    (h : step s sc = some s') (hs : s.Aligned) :
    sc.sent = [] ∨
      ∃ cmd, sc.sent = [cmd] ∧ sc.input = [] ∧ ¬ s'.Exited ∧
        unframe? s.unsent = some (cmd, s'.unsent) := by
  cases step_cases h with
  | again hquiet _ | fails _ hquiet _ =>
      exact .inl hquiet.1
  | sent b q =>
      refine .inr ⟨q.cmd, rfl, rfl, ?_, hs⟩
      rintro ⟨e, he⟩
      cases he
  | _ =>
      exact .inl rfl

end Requests

section ProcessErl

open StepSystem

/-- What the dispatch loop still does once the request in progress is answered. -/
def loopAfter (b : ErlBuffer) (q : Request) : List Binary × Except Exit ErlBuffer :=
  if q.processed < b.ix then dispatchLoop (b.shift q.processed) else ([], .ok b.reset)

/-- The requests that the current call of `process_erl` still sends. -/
def remaining (s : WpaEx) : List Binary × Except Exit ErlBuffer :=
  match s.point with
  | .sendRequest q => (q.cmd :: (loopAfter s.buffer q).1, (loopAfter s.buffer q).2)
  | .selectReply q | .recvReply q | .msgCb q _ | .sendReply q _ => loopAfter s.buffer q
  | .exited e => ([], .error e)
  | _ => ([], .ok s.buffer)

theorem remaining_leaveErl (b : ErlBuffer) (wpaReady : Bool) :
    (leaveErl b wpaReady).remaining = ([], .ok b) := by
  cases wpaReady <;> rfl

theorem remaining_dispatch (b : ErlBuffer) (wpaReady : Bool) :
    (dispatch b wpaReady).remaining = dispatchLoop b := by
  unfold dispatch
  fun_cases dispatchLoop b with
  | case1 h =>
      simp only [h, remaining_leaveErl]
  | case2 h =>
      simp only [h, remaining]
  | case3 cmd n h hlt =>
      simp only [h, remaining, loopAfter, if_pos hlt]
  | case4 cmd n h hle =>
      simp only [h, remaining, loopAfter, if_neg hle]

theorem remaining_afterRequest (b : ErlBuffer) (q : Request) :
    (afterRequest b q).remaining = loopAfter b q := by
  unfold afterRequest loopAfter
  split
  · exact remaining_dispatch _ _
  · exact remaining_leaveErl _ _

variable {s s' : WpaEx} {sc : Syscall}

/-- A step sends the first of the remaining requests or none. -/
theorem step_remaining
    (h : step s sc = some s') (halive : ¬ s'.Exited) (hread : sc.input = []) :
    s.remaining = (sc.sent ++ s'.remaining.1, s'.remaining.2) := by
  cases step_cases h with
  | again hquiet _ =>
      simp [hquiet.1]
  | fails e _ _ =>
      exact absurd ⟨e, rfl⟩ halive
  | endOfFile | shortWrite =>
      exact absurd ⟨_, rfl⟩ halive
  | polled b erl wpa =>
      cases erl <;> simp [Syscall.sent, remaining_leaveErl] <;> rfl
  | readInterrupted b wpaReady =>
      simp [Syscall.sent, remaining_leaveErl]
      rfl
  | read b wpaReady input hinput =>
      simp only [Syscall.input] at hread
      simp [hread] at hinput
  | wroteReply b q msg =>
      simp [Syscall.sent, remaining_afterRequest]
      rfl
  | pending b ready =>
      cases ready <;> rfl
  | sent | selected | notification | reply | wroteNotification | message
  | wroteMessage =>
      rfl

/-- Without a further `read` the remaining requests are sent in order. -/
theorem run_remaining
    {hist : List Syscall}
    (hrun : Run step (fun _ sc => sc.input = []) s hist s')
    (halive : ¬ s'.Exited) :
    s.remaining = (sends hist ++ s'.remaining.1, s'.remaining.2) := by
  revert halive
  refine hrun.invariant
    (I := fun hist s' => ¬ s'.Exited →
      s.remaining = (sends hist ++ s'.remaining.1, s'.remaining.2)) ?_ ?_
  · intro _
    rfl
  · intro hist m sc m' ih hread hstep halive
    have hnext := step_remaining hstep halive hread
    rw [ih (not_exited_of_step hstep), hnext]
    simp [sends]

/--
From a successful `read` to the return of `process_erl`, the requests sent are
those that `processErl` dispatches, and the buffer is the one it leaves.
-/
theorem processErl_of_run
    {b : ErlBuffer} {wpaReady : Bool} {input : Binary} {hist : List Syscall}
    (hinput : input.take b.free ≠ [])
    (hrun : Run step (fun _ sc => sc.input = []) (dispatch (b.store input) wpaReady)
      hist s')
    (hreturn : s'.point = .pendingWpa ∨ s'.point = .poll) :
    processErl b (.bytes input) = (sends hist, .ok s'.buffer) := by
  have halive : ¬ s'.Exited := by
    rintro ⟨e, he⟩
    simp [he] at hreturn
  have hrest : s'.remaining = ([], .ok s'.buffer) := by
    rcases hreturn with h | h <;> simp [remaining, h]
  have h := run_remaining hrun halive
  rw [remaining_dispatch, hrest, List.append_nil] at h
  rw [processErl, if_neg hinput, h]

end ProcessErl

end WpaEx
end WpaSupplicant
