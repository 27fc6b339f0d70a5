import WpaSupplicant.ComposedSystem

/-!
# What the bridge does to the messages of the supplicant

wpa_ex takes datagrams from the socket in two loops, that of `process_wpa` and
that of `wpa_ctrl_request`, and writes frames in both.

* `reply_between_sends`: a request is sent only after the reply to the one
  before it has been written;
* `run_eventsKept`: the event manager is notified of the delivered notifications;
* `run_transparent`: datagrams become frames, and notifications events, in the
  order of their arrival, each once.
-/

namespace WpaSupplicant

open StepSystem (Run)

namespace WpaEx

/-- Datagrams that leave a byte of the receive buffer free. -/
def ShortReceive (_ : WpaEx) (sc : Syscall) : Prop :=
  ∀ d ∈ sc.received, d.length < bufferSize

/--
The first datagram received that is no unsolicited message has been written.
-/
def ReplyWritten (hist : List Syscall) : Prop :=
  ∃ front d mid back,
    hist = front ++ .recv (.datagram d) ::
      (mid ++ .writev (frame d) (.written (frame d).length) :: back) ∧
    unsolicited d = false ∧ ∀ d' ∈ receives front, unsolicited d' = true

/-- Only unsolicited messages have been received, and the reply is waited for. -/
def Awaiting (hist : List Syscall) (s : WpaEx) : Prop :=
  (∀ d ∈ receives hist, unsolicited d = true) ∧
    (s.Exited ∨ ∃ q, s.point = .selectReply q ∨ s.point = .recvReply q ∨
      ∃ msg, s.point = .msgCb q msg)

/-- The reply has been received and is in hand. -/
def Replied (hist : List Syscall) (s : WpaEx) : Prop :=
  ∃ front d mid,
    hist = front ++ .recv (.datagram d) :: mid ∧
    unsolicited d = false ∧ (∀ d' ∈ receives front, unsolicited d' = true) ∧
    (s.Exited ∨ ∃ q, s.point = .sendReply q d)

section Phases

variable {hist : List Syscall} {s s' : WpaEx} {sc : Syscall}

theorem Awaiting.snoc
    (h : Awaiting hist s) (hreceived : ∀ d ∈ sc.received, unsolicited d = true)
    (hpoint : s'.Exited ∨ ∃ q, s'.point = .selectReply q ∨ s'.point = .recvReply q ∨
      ∃ msg, s'.point = .msgCb q msg) :
    Awaiting (hist ++ [sc]) s' := by
  refine ⟨?_, hpoint⟩
  intro d hd
  rw [receives_append] at hd
  rcases List.mem_append.mp hd with hd | hd
  · exact h.1 d hd
  · exact hreceived d (by simpa [receives] using hd)

theorem step_awaiting
    (h : Awaiting hist s) (hshort : ShortReceive s sc) (hstep : step s sc = some s') :
    Awaiting (hist ++ [sc]) s' ∨ Replied (hist ++ [sc]) s' := by
  have hpoint := h.2.resolve_left (not_exited_of_step hstep)
  cases step_cases hstep with
  | again hquiet _ =>
      exact .inl (h.snoc (by simp [hquiet.2.1]) h.2)
  | fails e hquiet _ =>
      exact .inl (h.snoc (by simp [hquiet.2.1]) (.inl ⟨e, rfl⟩))
  | shortWrite =>
      exact .inl (h.snoc (by simp [Syscall.received]) (.inl ⟨_, rfl⟩))
  | selected b q =>
      exact .inl (h.snoc (by simp [Syscall.received]) (.inr ⟨q, .inr (.inl rfl)⟩))
  | notification b q d hd =>
      rw [unsolicited_recvCopy] at hd
      exact .inl (h.snoc (by simpa [Syscall.received] using hd)
        (.inr ⟨q, .inr (.inr ⟨_, rfl⟩)⟩))
  | wroteNotification b q msg =>
      exact .inl (h.snoc (by simp [Syscall.received]) (.inr ⟨q, .inl rfl⟩))
  | reply b q d hd =>
      rw [unsolicited_recvCopy] at hd
      rw [recvCopy_of_length_lt (hshort d (by simp [Syscall.received]))]
      exact .inr ⟨hist, d, [], rfl, hd, h.1, .inr ⟨q, rfl⟩⟩
  | _ =>
      simp at hpoint

theorem step_replied
    (h : Replied hist s) (hstep : step s sc = some s') :
    Replied (hist ++ [sc]) s' ∨ ReplyWritten (hist ++ [sc]) := by
  obtain ⟨front, d, mid, rfl, hd, hfront, hpoint⟩ := h
  replace hpoint := hpoint.resolve_left (not_exited_of_step hstep)
  have hreplied (hs' : s'.Exited ∨ ∃ q, s'.point = .sendReply q d) :
      Replied (front ++ .recv (.datagram d) :: mid ++ [sc]) s' :=
    ⟨front, d, mid ++ [sc], by simp, hd, hfront, hs'⟩
  cases step_cases hstep with
  | again =>
      exact .inl (hreplied (.inr hpoint))
  | fails e _ _ =>
      exact .inl (hreplied (.inl ⟨e, rfl⟩))
  | shortWrite =>
      exact .inl (hreplied (.inl ⟨_, rfl⟩))
  | wroteReply b q msg =>
      obtain ⟨q', hq'⟩ := hpoint
      obtain rfl : msg = d := by
        cases hq'
        rfl
      exact .inr ⟨front, msg, mid, [], by simp, hd, hfront⟩
  | _ =>
      simp at hpoint

theorem ReplyWritten.snoc (h : ReplyWritten hist) : ReplyWritten (hist ++ [sc]) := by
  obtain ⟨front, d, mid, back, rfl, hd, hfront⟩ := h
  exact ⟨front, d, mid, back ++ [sc], by simp, hd, hfront⟩

/-- What a run has done since it sent a request. -/
theorem run_phase
    {b : ErlBuffer} {q : Request}
    (hrun : Run step ShortReceive ⟨b, .selectReply q⟩ hist s) :
    Awaiting hist s ∨ Replied hist s ∨ ReplyWritten hist := by
  refine hrun.invariant
    (I := fun hist s => Awaiting hist s ∨ Replied hist s ∨ ReplyWritten hist) ?_ ?_
  · exact .inl ⟨by simp [receives], .inr ⟨q, .inl rfl⟩⟩
  · intro hist s sc s' ih hshort hstep
    rcases ih with h | h | h
    · exact (step_awaiting h hshort hstep).imp_right .inl
    · exact .inr (step_replied h hstep)
    · exact .inr (.inr h.snoc)

/-- Between two request datagrams the reply to the first is received and written. -/
theorem reply_between_sends
    {xs ys zs : List Syscall} {c₁ c₂ : Binary} {s₀ : WpaEx}
    (hrun : Run step ShortReceive s₀
      (xs ++ ([.send c₁ .ok] ++ (ys ++ ([.send c₂ .ok] ++ zs)))) s) :
    ReplyWritten ys := by
  obtain ⟨m₀, _, hrun⟩ := hrun.split
  obtain ⟨m₁, hfirst, hrun⟩ := hrun.split
  obtain ⟨m₂, hys, hrun⟩ := hrun.split
  obtain ⟨m₃, hsecond, _⟩ := hrun.split
  obtain ⟨_, hfirst⟩ := hfirst.single
  obtain ⟨_, hsecond⟩ := hsecond.single
  obtain ⟨b, q, rfl⟩ : ∃ b q, m₁ = ⟨b, .selectReply q⟩ := by
    cases step_cases hfirst with
    | sent b q =>
        exact ⟨b, q, rfl⟩
    | again hquiet _ | fails _ hquiet _ =>
        cases hquiet.1
  obtain ⟨q', hq'⟩ : ∃ q', m₂.point = .sendRequest q' := by
    cases step_cases hsecond with
    | sent b q =>
        exact ⟨q, rfl⟩
    | again hquiet _ | fails _ hquiet _ =>
        cases hquiet.1
  rcases run_phase hys with ⟨_, h⟩ | ⟨_, _, _, _, _, _, h⟩ | h
  · exact absurd h (by simp [Exited, hq'])
  · exact absurd h (by simp [Exited, hq'])
  · exact h

end Phases

end WpaEx

namespace System

open WpaEx (sends receives writes)

variable {U : GraphemeTable} {self : Pid} {port : Port} {manager : Pid}
  {hist : List Action} {s s' : System} {a : Action}

/-- The events given to event managers. -/
def events (effects : List Effect) : List (Pid × WpaEvent) :=
  effects.filterMap fun
    | .notify manager event => some (manager, event)
    | _ => none

/-- The event that a datagram is worth, if it is a notification that decodes. -/
def eventOf (self manager : Pid) (d : Binary) : Option (Pid × WpaEvent) :=
  match Server.notification? d with
  | some text =>
      match Decode.notif text with
      | .ok n => some (manager, ⟨self, n⟩)
      | .error _ => none
  | none => none

section Events

theorem events_append (xs ys : List Effect) :
    events (xs ++ ys) = events xs ++ events ys :=
  List.filterMap_append

/-- A call gives the event manager nothing. -/
theorem handleCall_events
    {call : Call} {client : From} {state state' : ServerState} {effects : List Effect}
    (h : Server.handleCall U call client state = .ok (.continue effects state')) :
    events effects = [] ∧ state'.manager = state.manager := by
  cases call with
  | request command =>
      cases hencode : Encode.encode U command with
      | error e =>
          simp only [Server.handleCall, hencode] at h
          cases h
      | ok payload =>
          rw [Server.handleCall_of_encode hencode] at h
          cases h
          exact ⟨rfl, rfl⟩
  | eventManager =>
      cases h
      exact ⟨rfl, rfl⟩

/-- A message gives the event manager its event, or raises and has none. -/
theorem handleWpa_events (message : Binary) (state : ServerState) :
    (∃ effects state',
      Server.handleWpa self message state = .ok (.continue effects state') ∧
      events effects = (eventOf self state.manager message).toList ∧
      commands effects = [] ∧ state'.manager = state.manager) ∨
    ((∃ e, Server.handleWpa self message state = .error e) ∧
      eventOf self state.manager message = none) := by
  rcases Server.handleWpa_cases self message state with
    ⟨text, n, hmessage, hnotif, h⟩ | ⟨client, command, nextOnes, r, hmessage, _, _, h⟩ |
      ⟨h, hraises⟩
  · exact .inl ⟨_, _, h, by simp [eventOf, hmessage, hnotif, events], rfl, rfl⟩
  · exact .inl ⟨_, _, h, by simp [eventOf, hmessage, events], rfl, rfl⟩
  · refine .inr ⟨h, ?_⟩
    cases hraises with
    | notification text hmessage hnotif =>
        cases hn : Decode.notif text with
        | ok n =>
            exact absurd ⟨n, hn⟩ hnotif
        | error e =>
            simp [eventOf, hmessage, hn]
    | unexpected hmessage _ | response _ _ _ hmessage _ _ =>
        simp [eventOf, hmessage]

/-- The events that were given away, and whom the server gives events to. -/
def EventsKept (self manager : Pid) (hist : List Action) (s : System) : Prop :=
  events s.effects = (delivered hist).filterMap (eventOf self manager) ∧
    ∀ state, s.server = some state → state.manager = manager

theorem absorb_eventsKept
    {result : Except Raise Callback}
    (hinv : EventsKept self manager hist s)
    (hresult : ∀ effects state, result = .ok (.continue effects state) →
      events effects = [] ∧ state.manager = manager)
    (hdelivered : delivered [a] = []) :
    EventsKept self manager (hist ++ [a]) (s.absorb result) := by
  obtain ⟨hevents, hmanager⟩ := hinv
  unfold EventsKept
  rw [delivered_append, hdelivered, List.append_nil, ← hevents]
  unfold absorb
  split
  · next effects state =>
      obtain ⟨hnone, hstate⟩ := hresult effects state rfl
      split
      · simp [events_append, hnone, hstate]
      · simp
  · simp
  · simp

theorem step_eventsKept
    (hinv : EventsKept self manager hist s) (h : s.step U self a = some s') :
    EventsKept self manager (hist ++ [a]) s' := by
  cases a with
  | call client call =>
      obtain ⟨state, hstate, rfl⟩ := step_call h
      refine absorb_eventsKept hinv (fun effects state' hresult => ?_) rfl
      obtain ⟨hevents, hmanager⟩ := handleCall_events hresult
      exact ⟨hevents, hmanager.trans (hinv.2 state hstate)⟩
  | giveUp | notify =>
      cases h
      exact ⟨by simpa [delivered] using hinv.1, hinv.2⟩
  | answer d =>
      obtain ⟨_, _, _, rfl⟩ := step_answer h
      exact ⟨by simpa [delivered] using hinv.1, hinv.2⟩
  | syscall sc =>
      obtain ⟨_, _, _, _, _, _, hserver, heffects⟩ := step_syscall h
      unfold EventsKept
      rw [hserver, heffects]
      exact ⟨by simpa [delivered] using hinv.1, hinv.2⟩
  | deliver message =>
      obtain ⟨state, rest, hserver, _, rfl⟩ := step_deliver h
      obtain ⟨hevents, hmanager⟩ := hinv
      have hstate := hmanager state hserver
      have hdelivered : delivered (hist ++ [.deliver message]) =
          delivered hist ++ [message] := by
        simp [delivered]
      unfold EventsKept
      rw [hdelivered, List.filterMap_append, ← hevents]
      rcases handleWpa_events message state with
        ⟨effects, state', hresult, hmessage, hnone, hstate'⟩ | ⟨⟨e, hresult⟩, hmessage⟩
      · rw [hstate] at hmessage hstate'
        rw [Server.handleInfo, hresult, absorb, if_pos (by simp [hnone])]
        refine ⟨?_, fun _ h => by cases h; exact hstate'⟩
        rw [events_append, hmessage]
        cases h : eventOf self manager message <;> simp [h]
      · rw [hstate] at hmessage
        rw [Server.handleInfo, hresult, absorb]
        exact ⟨by simp [hmessage], by simp⟩
  | exitStatus status =>
      obtain ⟨_, rfl⟩ := step_exitStatus h
      exact ⟨by simpa [delivered] using hinv.1, by simp⟩

theorem run_eventsKept
    {A : System → Action → Prop}
    (hrun : Run (step U self) A (start port manager) hist s) :
    EventsKept self manager hist s := by
  refine hrun.invariant ⟨rfl, ?_⟩ fun hinv _ hstep => step_eventsKept hinv hstep
  intro state hstate
  cases hstate
  rfl

end Events

section Transparency

open WpaEx (ReplyWritten ShortReceive outputs)

/-- What wpa_ex does in a run of the composed system is a run of wpa_ex. -/
theorem run_bridge
    {A : System → Action → Prop} (hA : ∀ s a, A s a → ShortArrivals s a)
    (hrun : Run (step U self) A (start port manager) hist s) :
    Run WpaEx.step ShortReceive .start (syscalls hist) s.bridge := by
  have h : Channels hist s ∧
      Run WpaEx.step ShortReceive .start (syscalls hist) s.bridge := by
    refine hrun.invariant
      (I := fun hist s => Channels hist s ∧
        Run WpaEx.step ShortReceive .start (syscalls hist) s.bridge)
      ⟨start_channels port manager, .start⟩ ?_
    intro hist s a s' hinv hallowed h
    have hchannels := step_channels hinv.1 (hA _ _ hallowed) h
    refine ⟨hchannels, ?_⟩
    rw [syscalls_append]
    cases a with
    | syscall sc =>
        refine hinv.2.snoc ?_ (step_syscall h).2.1
        intro d hd
        refine hchannels.short d ?_
        rw [hchannels.arrivals_eq]
        simp [syscalls, receives, hd]
    | deliver message =>
        obtain ⟨_, _, _, _, rfl⟩ := step_deliver h
        simpa [syscalls] using hinv.2
    | call | giveUp | answer | notify | exitStatus =>
        rw [(step_outside h rfl rfl).1]
        simpa [syscalls] using hinv.2
  exact h.2

/-- The bridge loses, duplicates and reorders no message of the supplicant. -/
structure Transparent (self manager : Pid) (hist : List Action) (s : System) : Prop where
  arrivals_eq : arrivals hist = receives (syscalls hist) ++ s.socket
  /-- What is written are frames, in the order the datagrams were received. -/
  written : ∃ msgs cut, msgs <+: receives (syscalls hist) ∧
    outputs (syscalls hist) = frames msgs ++ cut ∧ unframe? cut = none
  /-- No frame is missing but that of the datagram in hand. -/
  complete : ¬ s.bridge.Exited → ∃ msgs,
    receives (syscalls hist) = msgs ++ s.bridge.inHand ∧
    outputs (syscalls hist) = frames msgs
  atPoll : s.bridge.point = .poll →
    outputs (syscalls hist) = frames (receives (syscalls hist))
  header : ∀ d ∈ receives (syscalls hist), ∃ x y,
    frame d = x :: y :: d ∧ fromBe16 x y = d.length
  replied : ∀ xs c₁ ys c₂ zs,
    syscalls hist = xs ++ ([.send c₁ .ok] ++ (ys ++ ([.send c₂ .ok] ++ zs))) →
      ReplyWritten ys
  /-- The events are those of the first notifications, each once. -/
  notified : events s.effects = (delivered hist).filterMap (eventOf self manager) ∧
    delivered hist <+: arrivals hist
  /-- No event is missing but those of messages on their way. -/
  notifiedAll : ¬ s.bridge.Exited →
    (arrivals hist).filterMap (eventOf self manager) =
      events s.effects ++ s.inFlight.filterMap (eventOf self manager)

theorem frame_eq_header {d : Binary} (h : FitsFrame d) :
    ∃ x y, frame d = x :: y :: d ∧ fromBe16 x y = d.length :=
  ⟨_, _, rfl, fromBe16_be16 h⟩

/--
In every run in which the datagrams leave a byte of the receive buffer free,
wpa_ex turns the datagrams into frames, and the server turns the notifications
into events, in the order of their arrival.
-/
theorem run_transparent
    (hrun : Run (step U self) ShortArrivals (start port manager) hist s) :
    Transparent self manager hist s := by
  have hchannels := run_channels (fun _ _ h => h) hrun
  have hbridge := run_bridge (fun _ _ h => h) hrun
  have hevents := (run_eventsKept hrun).1
  have harrivals := hchannels.arrivals_eq
  have hfit : ∀ d ∈ receives (syscalls hist), FitsFrame d := by
    intro d hd
    refine fitsFrame_of_short (hchannels.short d ?_)
    rw [harrivals]
    exact List.mem_append_left _ hd
  obtain ⟨queued, dropped, cut, hreceives, _, hstdout, hcut, halive⟩ := hchannels.messages
  have houtputs : outputs (syscalls hist) = frames (delivered hist ++ queued) ++ cut := by
    rw [hchannels.outputs_eq, hstdout, frames_append, List.append_assoc]
  have hcomplete (hexit : ¬ s.bridge.Exited) :
      receives (syscalls hist) = delivered hist ++ queued ++ s.bridge.inHand ∧
        outputs (syscalls hist) = frames (delivered hist ++ queued) := by
    obtain ⟨rfl, rfl⟩ := halive hexit
    exact ⟨by simpa using hreceives, by simpa using houtputs⟩
  refine ⟨harrivals, ⟨_, cut, ?_, houtputs, hcut⟩, fun hexit => ⟨_, hcomplete hexit⟩,
    ?_, fun d hd => frame_eq_header (hfit d hd), ?_, ⟨hevents, ?_⟩, ?_⟩
  · rw [hreceives, ← List.append_assoc]
    exact List.prefix_append _ _
  · intro hpoll
    obtain ⟨hmsgs, hframes⟩ := hcomplete (by rintro ⟨e, he⟩; simp [he] at hpoll)
    rw [hframes, hmsgs]
    simp [WpaEx.inHand, hpoll]
  · intro xs c₁ ys c₂ zs hsyscalls
    rw [hsyscalls] at hbridge
    exact WpaEx.reply_between_sends hbridge
  · exact hchannels.delivered_isPrefix
  · intro hexit
    rw [hchannels.arrivals_of_alive hexit, hevents, List.filterMap_append]

/-- `PING` is answered while a notification is waiting. -/
def pingRun : List Action :=
  let ping := lit "PING"
  let started := lit "<3>CTRL-EVENT-SCAN-STARTED "
  let pong := lit "PONG\n"
  [.call ⟨1, 0⟩ (.request (.atom .ping)),
    .syscall (.poll (.ready true false)),
    .syscall (.read (.bytes (frame ping))),
    .syscall (.send ping .ok),
    .notify started,
    .answer pong,
    .syscall (.select .ready),
    .syscall (.recv (.datagram started)),
    .syscall (.writev (frame started) (.written (frame started).length)),
    .giveUp ⟨1, 0⟩,
    .syscall (.select .ready),
    .syscall (.recv (.datagram pong)),
    .deliver started,
    .syscall (.writev (frame pong) (.written (frame pong).length)),
    .deliver pong]

/-- The event manager gets the notification that came before the reply. -/
theorem run_transparent_ping :
    ∃ s, Transparent 9 7 pingRun s ∧
      events s.effects = [(7, ⟨9, .bare .scanStarted⟩)] := by
  have hend : (StepSystem.run? (step .latin 9) ShortArrivals (start 5 7) pingRun).map
      (fun s => events s.effects) =
        some [(7, ⟨9, .bare .scanStarted⟩)] := by
    decide +kernel
  obtain ⟨s, hs, hevents⟩ := Option.map_eq_some_iff.mp hend
  exact ⟨s, run_transparent (StepSystem.run_of_run? hs), hevents⟩

end Transparency

end System
end WpaSupplicant
