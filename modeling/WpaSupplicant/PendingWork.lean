import WpaSupplicant.RequestReplyPairing
import WpaSupplicant.PrefixCount

/-!
# What is left to do for a request

What the parties still have to do until a given request has its reply, counted in
bytes, requests and messages, and which of them must move next.  The counts are of
the requests and replies up to this one only, so that later calls do not add to them.

* `run_settled`: between requests wpa_ex has received a reply to each one it sent;
* `run_fed`: wpa_ex reads only where there is something to be read;
* `written_of_settled`, `sends_lt_of_unwritten`, `receives_lt_of_unwritten`, …: what
  is left at each point of the program.
-/

namespace WpaSupplicant

open StepSystem (Run)

namespace WpaEx

/-- The requests sent whose reply has not been received: none, or the one in progress. -/
def awaited (s : WpaEx) : Nat :=
  match s.point with
  | .selectReply _ | .recvReply _ | .msgCb _ _ => 1
  | _ => 0

/-- The datagrams that are no unsolicited messages. -/
def solicited (ds : List Binary) : List Binary :=
  ds.filter fun d => !unsolicited d

@[simp] theorem solicited_append (xs ys : List Binary) :
    solicited (xs ++ ys) = solicited xs ++ solicited ys :=
  List.filter_append ..

@[simp] theorem awaited_leaveErl (b : ErlBuffer) (wpaReady : Bool) :
    (leaveErl b wpaReady).awaited = 0 := by
  cases wpaReady <;> rfl

@[simp] theorem awaited_dispatch (b : ErlBuffer) (wpaReady : Bool) :
    (dispatch b wpaReady).awaited = 0 := by
  unfold dispatch
  split
  · exact awaited_leaveErl b wpaReady
  · rfl
  · rfl

@[simp] theorem awaited_afterRequest (b : ErlBuffer) (q : Request) :
    (afterRequest b q).awaited = 0 := by
  unfold afterRequest
  split
  · exact awaited_dispatch _ _
  · exact awaited_leaveErl _ _

variable {s s' : WpaEx} {sc : Syscall}

/-- A request is awaited from when it is sent until its reply is received. -/
theorem step_awaited
    (h : step s sc = some s') (halive : ¬ s'.Exited) :
    s.awaited + sc.sent.length = s'.awaited + (solicited sc.received).length ∨
      s.awaited = 0 ∧ s'.awaited = 0 ∧ sc.sent = [] := by
  cases step_cases h with
  | again hquiet _ =>
      left
      rw [hquiet.1, hquiet.2.1]
      rfl
  | fails e _ _ =>
      exact absurd ⟨e, rfl⟩ halive
  | endOfFile | shortWrite =>
      exact absurd ⟨_, rfl⟩ halive
  | polled b erl wpa =>
      refine .inr ⟨rfl, ?_, rfl⟩
      cases erl
      · exact awaited_leaveErl b wpa
      · rfl
  | readInterrupted b wpaReady =>
      exact .inr ⟨rfl, by simp, rfl⟩
  | read b wpaReady input _ =>
      exact .inr ⟨rfl, by simp, rfl⟩
  | pending b ready =>
      exact .inr ⟨rfl, by cases ready <;> rfl, rfl⟩
  | message | wroteMessage =>
      exact .inr ⟨rfl, rfl, rfl⟩
  | wroteReply b q msg =>
      exact .inr ⟨rfl, by simp, rfl⟩
  | sent | selected | wroteNotification =>
      exact .inl rfl
  | notification b q d hd =>
      rw [unsolicited_recvCopy] at hd
      left
      simp [awaited, Syscall.sent, Syscall.received, solicited, hd]
  | reply b q d hd =>
      rw [unsolicited_recvCopy] at hd
      left
      simp [awaited, Syscall.sent, Syscall.received, solicited, hd]

/-- The next system call takes data from stdin or from the socket. -/
def reading (s : WpaEx) : Bool :=
  match s.point with
  | .readErl _ | .recvReply _ | .recvWpa => true
  | _ => false

@[simp] theorem reading_leaveErl (b : ErlBuffer) (wpaReady : Bool) :
    (leaveErl b wpaReady).reading = false := by
  cases wpaReady <;> rfl

@[simp] theorem reading_dispatch (b : ErlBuffer) (wpaReady : Bool) :
    (dispatch b wpaReady).reading = false := by
  unfold dispatch
  split
  · exact reading_leaveErl b wpaReady
  · rfl
  · rfl

@[simp] theorem reading_afterRequest (b : ErlBuffer) (q : Request) :
    (afterRequest b q).reading = false := by
  unfold afterRequest
  split
  · exact reading_dispatch _ _
  · exact reading_leaveErl _ _

/-- wpa_ex reads after a call that has told it that it can. -/
theorem step_reading
    (h : step s sc = some s') :
    s'.reading = false ∨ (s' = s ∧ sc.Quiet) ∨
      (∃ wpa, sc = .poll (.ready true wpa) ∧ s'.point = .readErl wpa) ∨
      (∃ q, sc = .select .ready ∧ s'.point = .recvReply q) ∨
      sc = .pending true ∧ s'.point = .recvWpa := by
  cases step_cases h with
  | again hquiet _ =>
      exact .inr (.inl ⟨rfl, hquiet⟩)
  | polled b erl wpa =>
      cases erl
      · exact .inl (reading_leaveErl b wpa)
      · exact .inr (.inr (.inl ⟨wpa, rfl, rfl⟩))
  | selected b q =>
      exact .inr (.inr (.inr (.inl ⟨q, rfl, rfl⟩)))
  | pending b ready =>
      cases ready
      · exact .inl rfl
      · exact .inr (.inr (.inr (.inr ⟨rfl, rfl⟩)))
  | readInterrupted | read | wroteReply =>
      exact .inl (by simp)
  | fails | endOfFile | sent | notification | reply | wroteNotification | message
  | wroteMessage | shortWrite =>
      exact .inl rfl

end WpaEx

namespace System

open WpaEx (sends receives writes unsolicited solicited)

variable {U : GraphemeTable} {self : Pid} {port : Port} {manager : Pid}
  {hist : List Action} {s s' : System} {a : Action}

section Classification

variable (hrun : Run (step U self) (Admissible U) (start port manager) hist s)
include hrun

/-- On what the supplicant sends the two classifiers agree. -/
theorem unsolicited_eq_of_arrival :
    ∀ d ∈ arrivals hist, unsolicited d = (Server.notification? d).isSome := by
  refine hrun.invariant
    (I := fun hist _ => ∀ d ∈ arrivals hist,
      unsolicited d = (Server.notification? d).isSome) (by simp [arrivals]) ?_
  intro hist s a s' ih hallowed _ d hd
  rw [arrivals_append] at hd
  rcases List.mem_append.mp hd with hd | hd
  · exact ih d hd
  · cases a with
    | answer d' =>
        obtain rfl : d = d' := by simpa [arrivals] using hd
        rw [hallowed.2, eq_comm, Bool.eq_false_iff, ne_eq, isSome_notification?_iff]
        intro hpriority
        simpa [hallowed.2] using hpriority.unsolicited
    | notify d' =>
        obtain rfl : d = d' := by simpa [arrivals] using hd
        rw [hallowed.2.unsolicited, (isSome_notification?_iff d).mpr hallowed.2]
    | _ =>
        simp [arrivals] at hd

theorem solicited_eq_responses
    {ds : List Binary} (h : ∀ d ∈ ds, d ∈ arrivals hist) :
    solicited ds = responses ds := by
  refine List.filter_congr fun d hd => ?_
  rw [unsolicited_eq_of_arrival hrun d (h d hd)]
  cases Server.notification? d <;> rfl

/-- The replies of the supplicant are its solicited messages. -/
theorem solicited_arrivals : solicited (arrivals hist) = answers hist := by
  rw [solicited_eq_responses hrun fun _ h => h, run_responses hrun]

end Classification

section Settled

/-- The supplicant has answered no more requests than it was sent. -/
theorem Channels.length_answers_le (h : Channels hist s) :
    (answers hist).length ≤ (sends (syscalls hist)).length := by
  obtain ⟨done, hsends, hdone⟩ := h.answered
  rw [hsends, List.length_append]
  omega

theorem Channels.receives_isPrefix (h : Channels hist s) :
    receives (syscalls hist) <+: arrivals hist := by
  rw [h.arrivals_eq]
  exact List.prefix_append _ _

/-- No more replies are received than requests are sent. -/
theorem length_solicited_le_sends
    (hrun : Run (step U self) (Admissible U) (start port manager) hist s) :
    (solicited (receives (syscalls hist))).length ≤ (sends (syscalls hist)).length := by
  have hchannels := run_channels (fun _ _ => shortArrivals_of_admissible) hrun
  have hfront : solicited (receives (syscalls hist)) <+: answers hist := by
    rw [← solicited_arrivals hrun]
    exact hchannels.receives_isPrefix.filter _
  exact hfront.length_le.trans hchannels.length_answers_le

/-- Each request sent has had its reply received, but the one in progress. -/
theorem run_settled
    (hrun : Run (step U self) (Admissible U) (start port manager) hist s)
    (halive : ¬ s.bridge.Exited) :
    (sends (syscalls hist)).length =
      (solicited (receives (syscalls hist))).length + s.bridge.awaited := by
  induction hrun with
  | start =>
      rfl
  | @snoc hist s s' a prev allowed hstep ih =>
      have hafter := length_solicited_le_sends (prev.snoc allowed hstep)
      have hbefore := ih fun hexit => halive (step_exited hexit hstep)
      cases a with
      | syscall sc =>
          obtain ⟨_, hbridge, _⟩ := step_syscall hstep
          have hsends : sends (syscalls (hist ++ [.syscall sc])) =
              sends (syscalls hist) ++ sc.sent := by
            simp [syscalls, sends]
          have hreceives : receives (syscalls (hist ++ [.syscall sc])) =
              receives (syscalls hist) ++ sc.received := by
            simp [syscalls, receives]
          rw [hsends, hreceives, WpaEx.solicited_append, List.length_append,
            List.length_append] at hafter ⊢
          rcases WpaEx.step_awaited hbridge halive with hcount | ⟨hidle, hidle', hnone⟩
          · omega
          · rw [hnone] at hafter ⊢
            simp only [List.length_nil] at hafter ⊢
            omega
      | deliver message =>
          obtain ⟨_, _, _, _, rfl⟩ := step_deliver hstep
          simpa [syscalls] using hbefore
      | call | giveUp | answer | notify | exitStatus =>
          rw [(step_outside hstep rfl rfl).1]
          simpa [syscalls] using hbefore

end Settled

section Feeding

/-- `poll`, `select` and `wpa_ctrl_pending` report what is the case. -/
def Truthful (s : System) (a : Action) : Prop :=
  match a with
  | .syscall (.poll (.ready erl wpa)) =>
      (erl = true ∨ wpa = true) ∧ (erl = true → s.stdin ≠ [] ∨ s.server.isNone) ∧
        (wpa = true → s.socket ≠ [])
  | .syscall (.select .ready) => s.socket ≠ []
  | .syscall (.pending ready) => ready = true ↔ s.socket ≠ []
  | _ => True

instance (s : System) (a : Action) : Decidable (Truthful s a) :=
  match a with
  | .syscall (.poll (.ready _ _)) => inferInstanceAs (Decidable (_ ∧ _ ∧ _))
  | .syscall (.select .ready) => inferInstanceAs (Decidable (s.socket ≠ []))
  | .syscall (.pending _) => inferInstanceAs (Decidable (_ ↔ _))
  | .syscall (.poll .interrupted) | .syscall (.poll .failed)
  | .syscall (.select .timeout) | .syscall (.select .failed) | .syscall (.read _)
  | .syscall (.send _ _) | .syscall (.recv _) | .syscall (.writev _ _)
  | .call _ _ | .giveUp _ | .answer _ | .notify _ | .deliver _ | .exitStatus _ =>
      .isTrue trivial

/-- Where wpa_ex is about to read there is something to be read. -/
def Fed (s : System) : Prop :=
  match s.bridge.point with
  | .readErl _ => s.stdin ≠ [] ∨ s.server.isNone
  | .recvReply _ | .recvWpa => s.socket ≠ []
  | _ => True

theorem fed_of_not_reading (h : s.bridge.reading = false) : Fed s := by
  unfold Fed
  unfold WpaEx.reading at h
  split <;> simp_all

theorem step_fed
    (hinv : Fed s) (htruth : Truthful s a) (h : s.step U self a = some s') :
    Fed s' := by
  have hgrows (hbridge : s'.bridge = s.bridge)
      (hstdin : ∃ more, s'.stdin = s.stdin ++ more)
      (hserver : s.server.isNone → s'.server.isNone)
      (hsocket : ∃ more, s'.socket = s.socket ++ more) : Fed s' := by
    obtain ⟨bytes, hbytes⟩ := hstdin
    obtain ⟨ds, hds⟩ := hsocket
    unfold Fed at hinv ⊢
    rw [hbridge, hbytes, hds]
    split
    · next hpoint =>
        simp only [hpoint] at hinv
        exact hinv.imp (fun hne => by simp [hne]) hserver
    · next hpoint =>
        simp only [hpoint] at hinv
        simp [hinv]
    · next hpoint =>
        simp only [hpoint] at hinv
        simp [hinv]
    · trivial
  have habsorb (t : System) (result : Except Raise Callback) (hserver : s.server.isSome)
      (hbridge : t.bridge = s.bridge) (hstdin : t.stdin = s.stdin)
      (hsocket : t.socket = s.socket) (hs' : s' = t.absorb result) : Fed s' := by
    obtain ⟨effects, _, hmore, _⟩ := t.exists_commands_absorb result
    subst hs'
    refine hgrows (by simp [hbridge]) ⟨_, by rw [hmore, hstdin]⟩ ?_ ⟨[], by simp [hsocket]⟩
    intro hnone
    simp [Option.isNone_iff_eq_none.mp hnone] at hserver
  cases a with
  | call client call =>
      obtain ⟨state, hstate, hs'⟩ := step_call h
      exact habsorb s _ (by simp [hstate]) rfl rfl rfl hs'
  | deliver message =>
      obtain ⟨state, rest, hstate, _, hs'⟩ := step_deliver h
      exact habsorb { s with stdout := rest } _ (by simp [hstate]) rfl rfl rfl hs'
  | giveUp client =>
      cases h
      exact hinv
  | notify d =>
      cases h
      exact hgrows rfl ⟨[], by simp⟩ id ⟨[d], rfl⟩
  | answer d =>
      obtain ⟨_, _, _, rfl⟩ := step_answer h
      exact hgrows rfl ⟨[], by simp⟩ id ⟨[d], rfl⟩
  | exitStatus status =>
      obtain ⟨_, rfl⟩ := step_exitStatus h
      exact hgrows rfl ⟨[], by simp⟩ (fun _ => rfl) ⟨[], by simp⟩
  | syscall sc =>
      obtain ⟨_, hbridge, hstdin, hsocket, _, _, hserver, _⟩ := step_syscall h
      rcases WpaEx.step_reading hbridge with hnot | ⟨hsame, hquiet⟩ | ⟨wpa, rfl, hpoint⟩ |
        ⟨q, rfl, hpoint⟩ | ⟨rfl, hpoint⟩
      · exact fed_of_not_reading hnot
      · obtain ⟨_, hreceived, hinput, _, _⟩ := hquiet
        rw [hinput, List.nil_append] at hstdin
        rw [hreceived, List.nil_append] at hsocket
        exact hgrows hsame ⟨[], by simp [hstdin]⟩ (by rw [hserver]; exact id)
          ⟨[], by simp [hsocket]⟩
      · have hstdin' : s'.stdin = s.stdin := by simpa [Syscall.input] using hstdin.symm
        simpa [Fed, hpoint, hstdin', hserver] using htruth.2.1 rfl
      · have hsocket' : s'.socket = s.socket := by
          simpa [Syscall.received] using hsocket.symm
        have hready : s.socket ≠ [] := htruth
        simpa [Fed, hpoint, hsocket'] using hready
      · have hsocket' : s'.socket = s.socket := by
          simpa [Syscall.received] using hsocket.symm
        have hready : s.socket ≠ [] := htruth.mp rfl
        simpa [Fed, hpoint, hsocket'] using hready

theorem run_fed
    (hrun : Run (step U self) Truthful (start port manager) hist s) :
    Fed s :=
  hrun.invariant (I := fun _ s => Fed s) (fed_of_not_reading rfl)
    fun hinv htruth hstep => step_fed hinv htruth hstep

end Feeding

/-- The messages of the supplicant up to the `k`-th reply. -/
def ahead (k : Nat) (hist : List Action) : Nat :=
  upTo (fun d => !unsolicited d) k (arrivals hist)

/-- wpa_ex has written the messages up to the `k`-th reply. -/
def Written (k : Nat) (hist : List Action) : Prop :=
  k ≤ (answers hist).length ∧ ahead k hist ≤ (writes (syscalls hist)).length

instance (k : Nat) (hist : List Action) : Decidable (Written k hist) :=
  inferInstanceAs (Decidable (_ ∧ _))

section Lengths

variable {k : Nat}
variable (hrun : Run (step U self) (Admissible U) (start port manager) hist s)
include hrun

theorem countP_arrivals :
    (arrivals hist).countP (fun d => !unsolicited d) = (answers hist).length := by
  rw [List.countP_eq_length_filter, ← solicited_arrivals hrun]
  rfl

/-- While fewer than `k` replies have come, all messages are ahead of the `k`-th. -/
theorem ahead_of_answers_lt
    (h : (answers hist).length < k) :
    ahead k hist = (receives (syscalls hist)).length + s.socket.length := by
  have hchannels := run_channels (fun _ _ => shortArrivals_of_admissible) hrun
  rw [ahead, upTo_of_countP_lt (by rwa [countP_arrivals hrun]), hchannels.arrivals_eq,
    List.length_append]

/-- What is received is written or in hand. -/
theorem length_receives
    (halive : ¬ s.bridge.Exited) :
    (receives (syscalls hist)).length =
      (writes (syscalls hist)).length + s.bridge.inHand.length := by
  have hchannels := run_channels (fun _ _ => shortArrivals_of_admissible) hrun
  obtain ⟨queued, dropped, cut, hreceives, hwrites, _, _, hcomplete⟩ := hchannels.messages
  obtain ⟨rfl, rfl⟩ := hcomplete halive
  rw [hreceives, hwrites]
  simp only [List.length_append, List.length_map, List.length_nil]
  omega

/-- A request whose reply has been received and dealt with is written. -/
theorem written_of_settled
    (halive : ¬ s.bridge.Exited) (hawaited : s.bridge.awaited = 0)
    (hhand : s.bridge.inHand = []) (hsent : k ≤ (sends (syscalls hist)).length) :
    Written k hist := by
  have hchannels := run_channels (fun _ _ => shortArrivals_of_admissible) hrun
  have hsettled := run_settled hrun halive
  have hlength := length_receives hrun halive
  rw [hhand, List.length_nil, Nat.add_zero] at hlength
  rw [hawaited, Nat.add_zero] at hsettled
  have hfront := hchannels.receives_isPrefix
  have hcount : k ≤ ((arrivals hist).take (receives (syscalls hist)).length).countP
      (fun d => !unsolicited d) := by
    rw [← List.prefix_iff_eq_take.mp hfront, List.countP_eq_length_filter]
    exact hsent.trans hsettled.le
  have hanswers : k ≤ (answers hist).length := by
    rw [← countP_arrivals hrun]
    exact hcount.trans ((List.take_sublist _ _).countP_le)
  refine ⟨hanswers, ?_⟩
  rw [← hlength, ahead, upTo_le_iff (by rwa [countP_arrivals hrun])]
  exact hcount

/-- With no message left on the way, the replies that have come are written. -/
theorem written_of_drained
    (halive : ¬ s.bridge.Exited) (hhand : s.bridge.inHand = []) (hsocket : s.socket = [])
    (hanswers : k ≤ (answers hist).length) :
    Written k hist := by
  have hchannels := run_channels (fun _ _ => shortArrivals_of_admissible) hrun
  have hlength := length_receives hrun halive
  have harrivals := congrArg List.length hchannels.arrivals_eq
  rw [hhand, List.length_nil, Nat.add_zero] at hlength
  rw [hsocket, List.append_nil] at harrivals
  refine ⟨hanswers, (upTo_le_length _ _).trans ?_⟩
  rw [harrivals, hlength]

variable (hunwritten : ¬ Written k hist)
include hunwritten

theorem sends_lt_of_unwritten
    (halive : ¬ s.bridge.Exited) (hawaited : s.bridge.awaited = 0)
    (hhand : s.bridge.inHand = []) :
    (sends (syscalls hist)).length < k := by
  by_contra hsent
  exact hunwritten (written_of_settled hrun halive hawaited hhand (Nat.not_lt.mp hsent))

/-- With nothing in hand, the next message on the socket is ahead of the `k`-th reply. -/
theorem receives_lt_of_unwritten
    (halive : ¬ s.bridge.Exited) (hhand : s.bridge.inHand = [])
    (hsocket : s.socket ≠ []) :
    (receives (syscalls hist)).length < ahead k hist := by
  have hlength := length_receives hrun halive
  rw [hhand, List.length_nil, Nat.add_zero] at hlength
  by_cases hanswers : (answers hist).length < k
  · rw [ahead_of_answers_lt hrun hanswers]
    have := List.length_pos_iff.mpr hsocket
    omega
  · rw [hlength]
    by_contra hwritten
    exact hunwritten ⟨Nat.not_lt.mp hanswers, Nat.not_lt.mp hwritten⟩

/-- So is the message in hand. -/
theorem writes_lt_of_unwritten
    (halive : ¬ s.bridge.Exited) (hhand : s.bridge.inHand ≠ []) :
    (writes (syscalls hist)).length < ahead k hist := by
  have hlength := length_receives hrun halive
  by_cases hanswers : (answers hist).length < k
  · rw [ahead_of_answers_lt hrun hanswers]
    have := List.length_pos_iff.mpr hhand
    omega
  · by_contra hwritten
    exact hunwritten ⟨Nat.not_lt.mp hanswers, Nat.not_lt.mp hwritten⟩

end Lengths

section Bytes

variable {k : Nat}

/-- What wpa_ex has still to read of the first `k` commands. -/
def bytesLeft (k : Nat) (s : System) : Nat :=
  (frames ((commands s.effects).take k)).length + s.stdin.length -
    (frames (commands s.effects)).length

theorem length_frames_take_le (k : Nat) (payloads : List Binary) :
    (frames (payloads.take k)).length ≤ (frames payloads).length := by
  have h := congrArg (fun ps => (frames ps).length) (List.take_append_drop k payloads)
  simp only [frames_append, List.length_append] at h
  omega

/-- Bytes without a whole frame in front of the rest of one are fewer than its frame. -/
theorem length_lt_of_unframe?_eq_none
    {m seen unseen rest : Binary} (hfit : FitsFrame m)
    (hview : seen ++ unseen = frame m ++ rest) (hnone : unframe? seen = none) :
    seen.length < (frame m).length := by
  by_contra hle
  have hframe : frame m <+: seen ++ unseen := hview ▸ List.prefix_append _ _
  obtain ⟨more, rfl⟩ :=
    List.prefix_of_prefix_length_le hframe (List.prefix_append _ _) (Nat.not_lt.mp hle)
  rw [unframe?_frame_append hfit] at hnone
  cases hnone

variable (hrun : Run (step U self) (Admissible U) (start port manager) hist s)
include hrun

/--
Where the next request has not been sent and the buffer holds no whole frame, there
is more of it to be read.
-/
theorem bytesLeft_pos
    (halive : ¬ s.bridge.Exited) (hsent : (sends (syscalls hist)).length < k)
    (hk : k ≤ (accepted hist).length)
    (hidle : unframe? s.bridge.buffer.received = none)
    (hunsent : s.bridge.unsent = s.bridge.buffer.received) :
    0 < bytesLeft k s := by
  have hchannels := run_channels (fun _ _ => shortArrivals_of_admissible) hrun
  obtain ⟨xs, hserved, _⟩ := run_served hrun
  obtain ⟨unsent, hcommands, hfit, hbytes⟩ := hchannels.requests
  have hview := hbytes halive
  have hencoded := congrArg List.length hserved.encoded
  rw [hunsent] at hview
  simp only [List.length_map] at hencoded
  cases unsent with
  | nil =>
      rw [hcommands, List.append_nil] at hencoded
      omega
  | cons m unsent =>
      have hshort := length_lt_of_unframe?_eq_none (hfit m (by simp))
        (hview.trans (frames_cons m unsent)) hidle
      have htotal := congrArg List.length hview
      obtain ⟨n, hn⟩ := Nat.exists_eq_add_of_lt hsent
      have htake : (commands s.effects).take k =
          sends (syscalls hist) ++ m :: unsent.take n := by
        rw [hcommands, hn, Nat.add_assoc, List.take_length_add_append, List.take_succ_cons]
      rw [bytesLeft, htake, hcommands]
      simp only [frames_append, frames_cons, List.length_append] at htotal ⊢
      omega

/-- A request that is being waited for with nothing on the socket is unanswered. -/
theorem unanswered_ne_nil
    (halive : ¬ s.bridge.Exited) (hawaited : s.bridge.awaited = 1)
    (hsocket : s.socket = []) :
    s.unanswered ≠ [] := by
  have hchannels := run_channels (fun _ _ => shortArrivals_of_admissible) hrun
  have hsettled := run_settled hrun halive
  have harrivals := hchannels.arrivals_eq
  obtain ⟨done, hsends, hdone⟩ := hchannels.answered
  rw [hsocket, List.append_nil] at harrivals
  have hanswers := solicited_arrivals hrun
  rw [harrivals] at hanswers
  intro hnone
  rw [hsends, hnone, hanswers, List.append_nil, hawaited] at hsettled
  omega

end Bytes

section Deliveries

variable {k : Nat}
variable (hrun : Run (step U self) (Admissible U) (start port manager) hist s)
include hrun

/-- Without the `k`-th reply, a message up to it has not been delivered. -/
theorem delivered_lt_of_written
    (hwritten : Written k hist) (hreplies : (replies s.effects).length < k) :
    (delivered hist).length < ahead k hist := by
  have hchannels := run_channels (fun _ _ => shortArrivals_of_admissible) hrun
  obtain ⟨xs, hserved, _⟩ := run_served hrun
  have hfront := hchannels.delivered_isPrefix
  by_contra hle
  rw [Nat.not_lt, ahead, upTo_le_iff (by rw [countP_arrivals hrun]; exact hwritten.1),
    ← List.prefix_iff_eq_take.mp hfront, List.countP_eq_length_filter] at hle
  have hcount : (solicited (delivered hist)).length = (replies s.effects).length := by
    rw [solicited_eq_responses hrun fun d hd => hfront.subset hd, hserved.responses_eq,
      hserved.replies_eq, List.length_map, List.length_map]
  rw [solicited] at hcount
  omega

/-- A written message that is not delivered stands on stdout. -/
theorem isSome_unframe?_stdout
    (h : (delivered hist).length < (writes (syscalls hist)).length) :
    (unframe? s.stdout).isSome := by
  have hchannels := run_channels (fun _ _ => shortArrivals_of_admissible) hrun
  obtain ⟨queued, dropped, cut, hreceives, hwrites, hstdout, _, _⟩ := hchannels.messages
  cases queued with
  | nil =>
      rw [hwrites, List.append_nil, List.length_map] at h
      omega
  | cons m queued =>
      have hfit : FitsFrame m := by
        refine fitsFrame_of_short (hchannels.short m ?_)
        rw [hchannels.arrivals_eq, hreceives]
        simp
      rw [hstdout, frames_cons, List.append_assoc, unframe?_frame_append hfit]
      rfl

end Deliveries

end System
end WpaSupplicant
