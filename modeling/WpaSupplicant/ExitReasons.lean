import WpaSupplicant.ComposedSystem
import WpaSupplicant.EndOfInput
import WpaSupplicant.InputBufferBounds
import WpaSupplicant.StreamReassembly

/-!
# Why wpa_ex ends

In the composed system, in which the port writes frames of up to 65535 bytes and closes
stdin when the server has gone.  As long as no system call fails and the supplicant answers
in time, wpa_ex has two ways to end.

* `ExitReason`: the two;
* `step_exitReason`: the system call with which wpa_ex ends;
* `run_exitReason`: there is no other reason in any run.
-/

namespace WpaSupplicant

open StepSystem (Run run? run_of_run?)
open WpaEx (sends Failed)

namespace WpaEx

instance (sc : Syscall) : Decidable (Failed sc) :=
  match sc with
  | .writev bytes (.written n) => inferInstanceAs (Decidable (n ≠ bytes.length))
  | .poll .failed | .read .failed | .send _ .failed | .select .timeout | .select .failed
  | .recv .failed | .writev _ .failed => .isTrue trivial
  | .poll (.ready _ _) | .poll .interrupted | .read .interrupted | .read (.bytes _)
  | .send _ .ok | .send _ .again | .select .ready | .pending _ | .recv (.datagram _)
  | .writev _ .interrupted => .isFalse id

/-- A request that is sent fits the buffer, and its header with it. -/
theorem step_sends_fitBuffer
    {s s' : WpaEx} {sc : Syscall} (h : step s sc = some s') (hs : boundedPhases.Holds s) :
    FitBuffer sc.sent := by
  have hnone (hsent : sc.sent = []) : FitBuffer sc.sent := by
    rw [hsent]
    exact fun _ hm => absurd hm List.not_mem_nil
  cases step_cases h with
  | again hquiet _ | fails _ hquiet _ =>
      exact hnone hquiet.1
  | sent b q =>
      intro m hm
      obtain rfl := List.mem_singleton.mp hm
      obtain ⟨hlen, hle, _⟩ : q.Within b := hs
      have := b.ix_le
      simp only [maxPayload]
      omega
  | _ =>
      exact hnone rfl

end WpaEx

/-- A header in the stream is that of the message whose frame comes first. -/
theorem eq_cons_of_header
    {msgs : List Binary} (hfit : ∀ m ∈ msgs, FitsFrame m)
    {x y : UInt8} {seen unseen : Binary} (hview : x :: y :: seen ++ unseen = frames msgs) :
    ∃ m msgs', msgs = m :: msgs' ∧ fromBe16 x y = m.length := by
  cases msgs with
  | nil =>
      cases hview
  | cons m msgs =>
      refine ⟨m, msgs, rfl, ?_⟩
      simp only [frames_cons, frame, be16, List.cons_append, List.nil_append,
        List.cons.injEq] at hview
      obtain ⟨rfl, rfl, _⟩ := hview
      exact fromBe16_be16 (hfit m List.mem_cons_self)

/-- Frames of which none is complete are none. -/
theorem eq_nil_of_unframe?_frames
    {msgs : List Binary} (hfit : ∀ m ∈ msgs, FitsFrame m) (h : unframe? (frames msgs) = none) :
    msgs = [] := by
  cases msgs with
  | nil =>
      rfl
  | cons m msgs =>
      rw [frames_cons, unframe?_frame_append (hfit m List.mem_cons_self)] at h
      cases h

namespace System

/-- No system call fails. -/
def NoFailure (_ : System) (a : Action) : Prop :=
  ∀ sc ∈ syscalls [a], ¬ Failed sc

instance (s : System) (a : Action) : Decidable (s.NoFailure a) :=
  inferInstanceAs (Decidable (∀ sc ∈ syscalls [a], ¬ Failed sc))

/--
Why wpa_ex has ended: the server has gone and all its requests have been sent, or all that
come before one that is too long.
-/
inductive ExitReason (hist : List Action) (s : System) : Exit → Prop
  | serverGone
      (hserver : s.server = none)
      (hcommands : commands s.effects = sends (syscalls hist)) :
      ExitReason hist s .endOfFile
  | requestTooLong (cmd : Binary) (rest : List Binary)
      (hlong : maxPayload < cmd.length)
      (hcommands : commands s.effects = sends (syscalls hist) ++ cmd :: rest) :
      ExitReason hist s .messageTooLong

/-- What carries the reason through a run. -/
structure Explained (hist : List Action) (s : System) : Prop where
  aligned : s.bridge.Aligned
  bounded : WpaEx.boundedPhases.Holds s.bridge
  requests : RequestsKept hist s
  short : FitBuffer (sends (syscalls hist))
  reason : ∀ e, s.bridge.point = .exited e → ExitReason hist s e

variable {U : GraphemeTable} {self : Pid} {port : Port} {manager : Pid}
variable {hist : List Action} {s s' : System} {a : Action} {sc : Syscall} {e : Exit}

/-- A server that has gone sends nothing, and does not come back. -/
theorem step_commands (h : s.step U self a = some s') :
    ∃ more, commands s'.effects = commands s.effects ++ more ∧
      (s.server = none → s'.server = none ∧ more = []) := by
  have habsorb (t : System) (heffects : t.effects = s.effects) {state : ServerState}
      (hserver : s.server = some state) (result : Except Raise Callback) :
      ∃ more, commands (t.absorb result).effects = commands s.effects ++ more ∧
        (s.server = none → (t.absorb result).server = none ∧ more = []) := by
    obtain ⟨effects, heffects', _, _⟩ := t.exists_commands_absorb result
    refine ⟨commands effects, ?_, fun hnone => ?_⟩
    · rw [heffects', heffects, commands_append]
    · rw [hserver] at hnone
      cases hnone
  cases a with
  | call client call =>
      obtain ⟨state, hserver, rfl⟩ := step_call h
      exact habsorb s rfl hserver _
  | giveUp | notify =>
      cases h
      exact ⟨[], (List.append_nil _).symm, fun hnone => ⟨hnone, rfl⟩⟩
  | answer d =>
      obtain ⟨_, _, _, rfl⟩ := step_answer h
      exact ⟨[], (List.append_nil _).symm, fun hnone => ⟨hnone, rfl⟩⟩
  | syscall sc =>
      obtain ⟨_, _, _, _, _, _, hserver, heffects⟩ := step_syscall h
      rw [heffects, hserver]
      exact ⟨[], (List.append_nil _).symm, fun hnone => ⟨hnone, rfl⟩⟩
  | deliver message =>
      obtain ⟨state, rest, hserver, _, rfl⟩ := step_deliver h
      exact habsorb { s with stdout := rest } rfl hserver _
  | exitStatus status =>
      obtain ⟨_, rfl⟩ := step_exitStatus h
      exact ⟨[], (List.append_nil _).symm, fun _ => ⟨rfl, rfl⟩⟩

/-- The reason stays one. -/
theorem ExitReason.step
    (hreason : ExitReason hist s e) (hstep : s.step U self a = some s')
    (hquiet : syscalls [a] = []) :
    ExitReason (hist ++ [a]) s' e := by
  obtain ⟨more, hmore, hgone⟩ := step_commands hstep
  have hsyscalls : syscalls (hist ++ [a]) = syscalls hist := by
    rw [syscalls_append, hquiet, List.append_nil]
  cases hreason with
  | serverGone hserver hcommands =>
      obtain ⟨hserver', rfl⟩ := hgone hserver
      refine .serverGone hserver' ?_
      rw [hmore, hcommands, hsyscalls, List.append_nil]
  | requestTooLong cmd rest hlong hcommands =>
      refine .requestTooLong cmd (rest ++ more) hlong ?_
      rw [hmore, hcommands, hsyscalls, List.append_assoc, List.cons_append]

/-- A `read` that returns 0 finds the server gone. -/
theorem atEnd_of_endOfFile
    {wpaReady : Bool} {input : Binary}
    (hstep : s.step U self (.syscall (.read (.bytes input))) = some s')
    (hpoint : s.bridge.point = .readErl wpaReady)
    (hempty : input.take s.bridge.buffer.free = [])
    (hbounded : WpaEx.boundedPhases.Holds s.bridge) :
    input = [] ∧ s.server = none ∧ s.stdin = [] := by
  obtain ⟨hpossible, _⟩ := step_syscall hstep
  have hinput : input = [] := by
    rwa [List.take_of_length_le hpossible] at hempty
  subst hinput
  have henabled : s.Enabled (.read (.bytes [])) := by
    by_contra hnot
    simp only [System.step, if_neg hnot] at hstep
    cases hstep
  have hwaits : s.bridge.buffer.Waits := by
    rw [WpaEx.Phases.Holds, hpoint] at hbounded
    exact hbounded
  rcases henabled.2 rfl with hfull | ⟨hserver, hstdin⟩
  · exact absurd hfull (Nat.sub_pos_of_lt hwaits.ix_lt).ne'
  · exact ⟨rfl, Option.isNone_iff_eq_none.mp hserver, hstdin⟩

/-- The system call with which wpa_ex ends has its reason. -/
theorem step_exitReason
    (hstep : s.step U self (.syscall sc) = some s') (hend : s'.bridge.point = .exited e)
    (hnofailure : ¬ Failed sc) (h : Explained hist s) :
    ExitReason (hist ++ [.syscall sc]) s' e := by
  obtain ⟨hpossible, hbridge, hstdin, _, _, _, hserver, heffects⟩ := step_syscall hstep
  obtain ⟨unsent, hcommands, hfit, hbytes⟩ := h.requests
  have hview := hbytes (WpaEx.not_exited_of_step hbridge)
  have hsends : sends (syscalls (hist ++ [.syscall sc])) = sends (syscalls hist) := by
    have hsent : sc.sent = [] := WpaEx.sent_eq_nil_of_exited hbridge ⟨e, hend⟩
    simp [syscalls, sends, hsent]
  cases WpaEx.step_exit_cases hbridge hend with
  | failed _ _ hfailed _ =>
      exact absurd hfailed hnofailure
  | endOfFile wpaReady input hpoint hempty =>
      obtain ⟨rfl, hnone, hnostdin⟩ := atEnd_of_endOfFile hstep hpoint hempty h.bounded
      have hwaiting : unframe? (frames unsent) = none := by
        have haligned := h.aligned
        rw [WpaEx.Aligned, hpoint] at haligned
        rw [← hview, hnostdin, List.append_nil, WpaEx.unsent, hpoint]
        exact haligned
      obtain rfl := eq_nil_of_unframe?_frames hfit hwaiting
      refine .serverGone (hserver.trans hnone) ?_
      rw [heffects, hsends, hcommands, List.append_nil]
  | tooLong _ b hreceived hdispatch =>
      have hnone : unframe? b.received = none := by
        cases hcut : unframe? b.received with
        | none =>
            rfl
        | some p =>
            rw [(tryDispatch_of_unframe?_eq_some hcut).1] at hdispatch
            cases hdispatch
      rcases tryDispatch_of_unframe?_eq_none hnone with hwaits | ⟨_, x, y, tail, hb, hlong⟩
      · rw [hwaits] at hdispatch
        cases hdispatch
      · have hheader : x :: y :: tail ++ s'.stdin = frames unsent := by
          rw [← hb, hreceived hpossible, List.append_assoc, ← hstdin, hview]
        obtain ⟨cmd, rest, rfl, hlen⟩ := eq_cons_of_header hfit hheader
        refine .requestTooLong cmd rest ?_ ?_
        · rw [hlen] at hlong
          simp only [maxPayload, bufferSize] at hlong ⊢
          omega
        · rw [heffects, hsends, hcommands]

theorem step_bridge_bounded
    (hbounded : WpaEx.boundedPhases.Holds s.bridge) (h : s.step U self a = some s') :
    WpaEx.boundedPhases.Holds s'.bridge := by
  cases a with
  | syscall sc =>
      exact WpaEx.Phases.holds_step (step_syscall h).2.1 hbounded
  | deliver message =>
      obtain ⟨_, _, _, _, rfl⟩ := step_deliver h
      rw [bridge_absorb]
      exact hbounded
  | call | giveUp | answer | notify | exitStatus =>
      rw [(step_outside h rfl rfl).1]
      exact hbounded

theorem step_explained
    (h : Explained hist s) (hnofailure : s.NoFailure a) (hstep : s.step U self a = some s') :
    Explained (hist ++ [a]) s' := by
  refine ⟨step_bridge_aligned h.aligned hstep, step_bridge_bounded h.bounded hstep,
    step_requestsKept h.aligned h.requests hstep, ?_, fun e hend => ?_⟩
  · intro m hm
    rw [syscalls_append, WpaEx.sends_append] at hm
    rcases List.mem_append.mp hm with hm | hm
    · exact h.short m hm
    · cases a with
      | syscall sc =>
          have hone : sends (syscalls [.syscall sc]) = sc.sent := by simp [syscalls, sends]
          rw [hone] at hm
          exact WpaEx.step_sends_fitBuffer (step_syscall hstep).2.1 h.bounded m hm
      | call | giveUp | answer | notify | deliver | exitStatus =>
          cases hm
  · cases a with
    | syscall sc =>
        exact step_exitReason hstep hend (hnofailure sc List.mem_cons_self) h
    | deliver message =>
        have hbridge : s'.bridge = s.bridge := by
          obtain ⟨_, _, _, _, rfl⟩ := step_deliver hstep
          exact bridge_absorb _ _
        exact (h.reason e (hbridge ▸ hend)).step hstep rfl
    | call | giveUp | answer | notify | exitStatus =>
        have hbridge := (step_outside hstep rfl rfl).1
        exact (h.reason e (hbridge ▸ hend)).step hstep rfl

theorem run_explained
    (hrun : Run (step U self) NoFailure (start port manager) hist s) :
    Explained hist s := by
  have hstart : Explained [] (start port manager) :=
    ⟨(start_channels port manager).aligned, ErlBuffer.waits_empty,
      (start_channels port manager).requests, fun _ hm => absurd hm List.not_mem_nil,
      fun _ hend => Point.noConfusion hend⟩
  exact hrun.invariant hstart
    fun hinv hnofailure hstep => step_explained hinv hnofailure hstep

/--
As long as no system call fails, wpa_ex ends only when the server has gone, and then every
request has been sent to the supplicant, or because of a request of more than 2046 bytes,
and then every request before the first such one has been sent.
-/
theorem run_exitReason
    (hrun : Run (step U self) NoFailure (start port manager) hist s) :
    (∀ cmd ∈ sends (syscalls hist), cmd.length ≤ maxPayload) ∧
      ∀ e, s.bridge.point = .exited e → ExitReason hist s e :=
  ⟨(run_explained hrun).short, (run_explained hrun).reason⟩

/-- One round of a request and its reply. -/
def answerCalls : List Action :=
  [.syscall (.send (lit "PING") .ok), .answer (lit "PONG\n"), .syscall (.select .ready),
    .syscall (.recv (.datagram (lit "PONG\n"))),
    .syscall (.writev (frame (lit "PONG\n")) (.written 7))]

/-- A short request, one of 2115 bytes behind it, and another short one. -/
def longRequestCalls : List Action :=
  [.call ⟨1, 0⟩ (.request (.atom .ping)),
    .call ⟨1, 1⟩ (.request (.tuple [.atom (.lit "CTRL-RSP-OTP"), .int 0,
      .binary (List.replicate 2100 48)])),
    .call ⟨1, 2⟩ (.request (.atom .ping)), .syscall (.poll (.ready true false)),
    .syscall (.read (.bytes (frame (lit "PING") ++ [8, 67])))] ++ answerCalls

/-- The requests behind the long one are not sent. -/
theorem run_exitReason_longRequest :
    ∃ s, Run (step .latin 9) NoFailure (start 5 7) longRequestCalls s ∧
      sends (syscalls longRequestCalls) = [lit "PING"] ∧
      ExitReason longRequestCalls s .messageTooLong := by
  have hend : (run? (step .latin 9) NoFailure (start 5 7) longRequestCalls).map
      (fun s => s.bridge.point) = some (.exited .messageTooLong) := by
    decide +kernel
  obtain ⟨s, hs, hpoint⟩ := Option.map_eq_some_iff.mp hend
  have hrun := run_of_run? hs
  exact ⟨s, hrun, by decide +kernel, (run_exitReason hrun).2 _ hpoint⟩

end System
end WpaSupplicant
