import WpaSupplicant.ComposedSystem
import WpaSupplicant.EndOfInput

/-!
# The system with the whole program in it

The composed system, in which the port has just started the program: the program has still
to open its connection and to attach to the supplicant.  Meanwhile clients call the server,
and the supplicant sends messages.

* `run_refined`: every run is matched by one of the composed system, and the conditions on
  its steps carry over;
* `run_refines`: so the clients and the server do not notice the startup, and the supplicant's
  messages are those after the confirmation of `ATTACH`;
* `run_delivers`: what of them gets to the server.
-/

namespace WpaSupplicant

open StepSystem (Run run? run_of_run?)
open WpaEx (Main MainCall Invocation)

namespace WpaEx

/-- The datagrams that a call sends. -/
def MainCall.sent : MainCall → List Binary
  | .attaching c => CtrlRequest.sent [c]
  | c => sends c.visible

/-- The datagrams that a call takes from the socket. -/
def MainCall.received : MainCall → List Binary
  | .attaching c => CtrlRequest.messages [c]
  | c => receives c.visible

/-- The bytes that a call takes from stdin. -/
def MainCall.input (c : MainCall) : Binary :=
  inputs c.visible

/-- The bytes that a call puts on stdout. -/
def MainCall.output (c : MainCall) : Binary :=
  outputs c.visible

/-- A program that has not got to its main loop, as one that is still at its first `poll`. -/
def Main.bridge : Main → WpaEx
  | .running l => l.bridge
  | .exited _ => WpaEx.start.exit .pollFailed
  | .opening _ _ _ | .attaching _ => WpaEx.start

end WpaEx

/-- The composed system, with the program from its main function on. -/
structure WholeSystem where
  server : Option ServerState
  effects : List Effect
  stdin : Binary
  program : Main
  unanswered : List Binary
  socket : List Binary
  stdout : Binary

/-- The actions of the composed system but its system calls, and the calls of the program. -/
inductive WholeAction
  | outside (a : Action)
  | program (c : MainCall)

/-- The action is a callback of the server, or a client's. -/
def Action.isCallback : Action → Bool
  | .call _ _ | .giveUp _ | .deliver _ | .exitStatus _ => true
  | .answer _ | .notify _ | .syscall _ => false

namespace WholeSystem

def start (inv : Invocation) (port : Port) (manager : Pid) : WholeSystem where
  server := some (Server.init port manager)
  effects := []
  stdin := []
  program := .start inv
  unanswered := []
  socket := []
  stdout := []

/-- The system in which the startup is not to be seen. -/
def view (w : WholeSystem) : System :=
  ⟨w.server, w.effects, w.stdin, w.program.bridge, w.unanswered, w.socket, w.stdout⟩

/-- The system after something has happened outside of the program. -/
def withOutside (w : WholeSystem) (s : System) : WholeSystem :=
  ⟨s.server, s.effects, s.stdin, w.program, s.unanswered, s.socket, s.stdout⟩

/-- The kernel can make the call return so. -/
def Enabled (w : WholeSystem) (c : MainCall) : Prop :=
  Main.Permits w.program c ∧ (c = .loop (.read (.bytes [])) → w.view.AtEnd)

instance (w : WholeSystem) (c : MainCall) : Decidable (w.Enabled c) :=
  inferInstanceAs (Decidable (_ ∧ _))

/-- One action; `none` when it cannot happen. -/
def step (U : GraphemeTable) (self : Pid) (inv : Invocation) (w : WholeSystem) :
    WholeAction → Option WholeSystem
  | .outside (.syscall _) => none
  | .outside a => (w.view.step U self a).map w.withOutside
  | .program c =>
      if w.Enabled c then
        match w.program.step inv c, w.stdin.dropPrefix? c.input,
            w.socket.dropPrefix? c.received with
        | some program, some stdin, some socket =>
            some { w with
              program := program
              stdin := stdin
              socket := socket
              stdout := w.stdout ++ c.output
              unanswered := w.unanswered ++ c.sent }
        | _, _, _ => none
      else
        none

/-- What has happened outside of the program. -/
def outside (hist : List WholeAction) : List Action :=
  hist.flatMap fun
    | .outside a => [a]
    | .program _ => []

/-- The calls of the program. -/
def programCalls (hist : List WholeAction) : List MainCall :=
  hist.flatMap fun
    | .outside _ => []
    | .program c => [c]

/-- The messages that `wpa_ctrl_attach` has received. -/
def attachMessages (hist : List WholeAction) : List Binary :=
  CtrlRequest.messages (Main.attachCalls (programCalls hist))

theorem outside_concat (hist : List WholeAction) (a : WholeAction) :
    outside (hist ++ [a]) = outside hist ++ outside [a] :=
  List.flatMap_append

theorem programCalls_concat (hist : List WholeAction) (a : WholeAction) :
    programCalls (hist ++ [a]) = programCalls hist ++ programCalls [a] :=
  List.flatMap_append

theorem attachMessages_concat (hist : List WholeAction) (a : WholeAction) :
    attachMessages (hist ++ [a]) = attachMessages hist ++ attachMessages [a] := by
  rw [attachMessages, programCalls_concat, Main.attachCalls, List.flatMap_append,
    CtrlRequest.messages, List.flatMap_append]
  rfl

end WholeSystem

namespace System

/-- Other datagrams under way. -/
def withSocket (s : System) (unanswered socket : List Binary) : System :=
  { s with unanswered := unanswered, socket := socket }

variable {U : GraphemeTable} {self : Pid} {s s' : System} {a : Action}

theorem absorb_withSocket (result : Except Raise Callback) (u k : List Binary) :
    (s.withSocket u k).absorb result = (s.absorb result).withSocket u k := by
  unfold absorb
  split
  · split <;> rfl
  · rfl
  · rfl

/-- The server does not see the datagrams under way. -/
theorem step_withSocket (hcallback : a.isCallback = true) (u k : List Binary)
    (h : s.step U self a = some s') :
    (s.withSocket u k).step U self a = some (s'.withSocket u k) := by
  cases a with
  | call client call =>
      obtain ⟨state, hstate, rfl⟩ := step_call h
      have hserver : (s.withSocket u k).server = some state := hstate
      simp only [step, hserver, Option.map_some, absorb_withSocket]
  | giveUp client =>
      cases h
      rfl
  | answer | notify | syscall =>
      cases hcallback
  | deliver message =>
      obtain ⟨state, rest, hstate, hunframe, rfl⟩ := step_deliver h
      have hserver : (s.withSocket u k).server = some state := hstate
      have hstdout : unframe? (s.withSocket u k).stdout = some (message, rest) := hunframe
      simp only [step, hserver, hstdout, if_true]
      exact congrArg some (absorb_withSocket (s := { s with stdout := rest }) _ u k)
  | exitStatus status =>
      simp only [step] at h
      split at h
      · next state e hstate hexited hunframe =>
          cases h
          have hserver : (s.withSocket u k).server = some state := hstate
          have hpoint : (s.withSocket u k).bridge.point = .exited e := hexited
          have hstdout : unframe? (s.withSocket u k).stdout = none := hunframe
          simp only [step, hserver, hpoint, hstdout, absorb_withSocket]
      · cases h

/-- And does not change them. -/
theorem step_callback (hcallback : a.isCallback = true) (h : s.step U self a = some s') :
    s'.bridge = s.bridge ∧ s'.unanswered = s.unanswered ∧ s'.socket = s.socket := by
  cases a with
  | call client call =>
      obtain ⟨state, _, rfl⟩ := step_call h
      simp
  | giveUp client =>
      cases h
      exact ⟨rfl, rfl, rfl⟩
  | answer | notify | syscall =>
      cases hcallback
  | deliver message =>
      obtain ⟨state, rest, _, _, rfl⟩ := step_deliver h
      simp
  | exitStatus status =>
      obtain ⟨_, rfl⟩ := step_exitStatus h
      exact ⟨rfl, rfl, rfl⟩

/-- Notifications queue up. -/
theorem run_notify
    {A : System → Action → Prop} (s : System) (ds : List Binary)
    (hA : ∀ s, ∀ d ∈ ds, A s (.notify d)) :
    Run (step U self) A s (ds.map .notify) (s.withSocket s.unanswered (s.socket ++ ds)) := by
  induction ds using List.reverseRecOn with
  | nil =>
      rw [List.append_nil]
      exact .start
  | append_singleton ds d ih =>
      rw [List.map_append, List.map_singleton]
      refine .snoc (ih fun s d hd => hA s d (List.mem_append_left _ hd))
        (hA _ d (List.mem_append_right _ (List.mem_singleton_self d))) ?_
      simp [step, withSocket]

/-- A system call, from what it does to the channels. -/
theorem step_syscall_eq
    (U : GraphemeTable) (self : Pid)
    {sc : Syscall} {bridge : WpaEx} {stdin : Binary} {socket : List Binary}
    (henabled : s.Enabled sc) (hbridge : s.bridge.step sc = some bridge)
    (hstdin : s.stdin = sc.input ++ stdin) (hsocket : s.socket = sc.received ++ socket) :
    s.step U self (.syscall sc) = some
      { s with
        bridge := bridge
        stdin := stdin
        socket := socket
        stdout := s.stdout ++ sc.output
        unanswered := s.unanswered ++ sc.sent } := by
  have hstdin' : s.stdin.dropPrefix? sc.input = some stdin :=
    List.dropPrefix?_eq_some_iff.mpr ⟨_, hstdin, beq_self_eq_true _⟩
  have hsocket' : s.socket.dropPrefix? sc.received = some socket :=
    List.dropPrefix?_eq_some_iff.mpr ⟨_, hsocket, beq_self_eq_true _⟩
  simp only [step, if_pos henabled, hbridge, hstdin', hsocket']

/-- In the composed system a program that ends in its startup is one whose `poll` fails. -/
theorem step_pollFailed (U : GraphemeTable) (self : Pid) (h : s.bridge = WpaEx.start) :
    s.step U self (.syscall (.poll .failed)) =
      some { s with bridge := WpaEx.start.exit .pollFailed } := by
  have hpoll : s.bridge.step (.poll .failed) = some (WpaEx.start.exit .pollFailed) := by
    rw [h]
    rfl
  have henabled : s.Enabled (.poll .failed) := ⟨trivial, by simp⟩
  simpa [Syscall.output, Syscall.sent] using step_syscall_eq U self henabled hpoll rfl rfl

end System

namespace WpaEx.Main

variable {inv : Invocation} {m m' : Main} {c : MainCall}

theorem opened_cases (inv : Invocation) (cl : WpaCtrl.Client)
    (s : WpaCtrl.OpenPoint × WpaCtrl.Kernel) :
    (opened inv cl s).loop? = none ∧
      ((opened inv cl s).bridge = WpaEx.start ∨
        (opened inv cl s).bridge = WpaEx.start.exit .pollFailed) := by
  unfold opened
  split
  · exact ⟨rfl, .inr rfl⟩
  · exact ⟨rfl, .inl rfl⟩
  · exact ⟨rfl, .inl rfl⟩

theorem attached_cases (r : CtrlRequest) :
    (attached r).loop? = none ∧
      ((attached r).bridge = WpaEx.start ∨
        (attached r).bridge = WpaEx.start.exit .pollFailed) ∨
      attached r = .running .start := by
  unfold attached
  split
  · exact .inl ⟨rfl, .inl rfl⟩
  · split
    · exact .inl ⟨rfl, .inr rfl⟩
    · exact .inr rfl

theorem start_cases (inv : Invocation) :
    (start inv).loop? = none ∧
      ((start inv).bridge = WpaEx.start ∨ (start inv).bridge = WpaEx.start.exit .pollFailed) := by
  unfold start
  split
  · exact ⟨rfl, .inl rfl⟩
  · exact ⟨rfl, .inr rfl⟩

/-- A call of the startup reads and writes nothing. -/
theorem startup_cases (h : step inv m c = some m') (hm : m.loop? = none) :
    m.bridge = WpaEx.start ∧ c.visible = [] ∧
      CtrlRequest.messages (attachCalls [c]) = c.received ∧
      (m'.loop? = none ∧
        (m'.bridge = WpaEx.start ∨ m'.bridge = WpaEx.start.exit .pollFailed) ∨
        m' = .running .start) := by
  cases m with
  | opening cl p k =>
      cases c with
      | opening c =>
          obtain ⟨s, _, rfl⟩ := Option.map_eq_some_iff.mp h
          exact ⟨rfl, rfl, rfl, .inl (opened_cases inv cl s)⟩
      | attaching | request | loop =>
          cases h
  | attaching r =>
      cases c with
      | attaching c =>
          obtain ⟨r', _, rfl⟩ := Option.map_eq_some_iff.mp h
          exact ⟨rfl, rfl, rfl, attached_cases r'⟩
      | opening | request | loop =>
          cases h
  | running l =>
      cases hm
  | exited e =>
      cases h

end WpaEx.Main

namespace WholeSystem

/-- The program is in its main loop. -/
def Started (w : WholeSystem) : Prop :=
  w.program.loop?.isSome

/--
A run of the composed system matches, whose steps satisfy `A`.  Once the program is in its
main loop, requests may be `late`: a message has passed for the confirmation of `ATTACH`,
which is still to be answered.
-/
structure Refined (A : System → Action → Prop) (U : GraphemeTable) (pid : Pid) (s₀ : System)
    (hist : List WholeAction) (w : WholeSystem) (hist' : List Action) (s : System) : Prop where
  run : Run (System.step U pid) A s₀ hist' s
  callbacks : hist'.filter Action.isCallback = (outside hist).filter Action.isCallback
  sent : WpaEx.sends (System.syscalls hist') =
    WpaEx.sends (Main.visibleCalls (programCalls hist))
  starting : ¬ w.Started → s = w.view.withSocket [] [] ∧
    System.arrivals (outside hist) = attachMessages hist ++ w.socket ∧
    System.arrivals hist' = []
  started : w.Started →
    (∃ late, (late = [] ∨ ∀ s d, A s (.notify d)) ∧ w.unanswered = late ++ s.unanswered) ∧
    s = w.view.withSocket s.unanswered w.socket ∧
    System.arrivals (outside hist) = attachMessages hist ++ System.arrivals hist'

variable {A : System → Action → Prop}
variable {U : GraphemeTable} {self : Pid} {inv : Invocation} {s₀ s : System}
variable {hist : List WholeAction} {w w' : WholeSystem} {hist' : List Action} {a : Action}

/-- Only the datagrams under way may differ. -/
theorem Refined.exists_view (h : Refined A U self s₀ hist w hist' s) :
    ∃ u k, s = w.view.withSocket u k := by
  by_cases hw : w.Started
  · exact ⟨_, _, (h.started hw).2.1⟩
  · exact ⟨_, _, (h.starting hw).1⟩

theorem sends_concat
    {calls : List Action} {c : WholeAction}
    (h : WpaEx.sends (System.syscalls hist') = WpaEx.sends (Main.visibleCalls (programCalls hist)))
    (hcalls : WpaEx.sends (System.syscalls calls) =
      WpaEx.sends (Main.visibleCalls (programCalls [c]))) :
    WpaEx.sends (System.syscalls (hist' ++ calls)) =
      WpaEx.sends (Main.visibleCalls (programCalls (hist ++ [c]))) := by
  rw [System.syscalls_append, WpaEx.sends_append, h, hcalls, programCalls_concat,
    Main.visibleCalls, Main.visibleCalls, Main.visibleCalls, List.flatMap_append,
    WpaEx.sends_append]

theorem view_withOutside {s : System} (h : s.bridge = w.view.bridge) :
    (w.withOutside s).view = s := by
  obtain ⟨_, _, _, _, _, _, _⟩ := s
  cases h
  rfl

theorem step_outside (hstep : w.step U self inv (.outside a) = some w') :
    ∃ v, w.view.step U self a = some v ∧ w' = w.withOutside v := by
  have hview : (w.view.step U self a).map w.withOutside = some w' := by
    cases a <;> first | exact hstep | cases hstep
  obtain ⟨v, hv, hw'⟩ := Option.map_eq_some_iff.mp hview
  exact ⟨v, hv, hw'.symm⟩

/-- A callback is one of the composed system. -/
theorem refined_callback
    (hcallback : a.isCallback = true) (hA : ∀ s, s.server = w.server → A s a)
    (hstep : w.step U self inv (.outside a) = some w')
    (h : Refined A U self s₀ hist w hist' s) :
    ∃ s', Refined A U self s₀ (hist ++ [.outside a]) w' (hist' ++ [a]) s' := by
  obtain ⟨v, hv, rfl⟩ := step_outside hstep
  obtain ⟨hbridge, hunanswered, hsocket⟩ := System.step_callback hcallback hv
  have hsame : (w.withOutside v).view = v := view_withOutside hbridge
  have harrivals : System.arrivals [a] = [] := by
    cases a <;> first | rfl | cases hcallback
  have houtside : System.arrivals (outside (hist ++ [.outside a])) =
      System.arrivals (outside hist) := by
    rw [outside_concat, System.arrivals_append]
    exact harrivals ▸ List.append_nil _
  have hattach : attachMessages (hist ++ [.outside a]) = attachMessages hist := by
    rw [attachMessages_concat]
    exact List.append_nil _
  have hcallbacks : (hist' ++ [a]).filter Action.isCallback =
      (outside (hist ++ [.outside a])).filter Action.isCallback := by
    rw [List.filter_append, h.callbacks, outside_concat, List.filter_append]
    rfl
  have hsent : WpaEx.sends (System.syscalls [a]) =
      WpaEx.sends (Main.visibleCalls (programCalls [.outside a])) := by
    cases a <;> first | rfl | cases hcallback
  have hrun (u k : List Binary) (hs : s = w.view.withSocket u k) :
      Run (System.step U self) A s₀ (hist' ++ [a]) (v.withSocket u k) :=
    .snoc h.run (hA s (hs ▸ rfl)) (hs ▸ System.step_withSocket hcallback u k hv)
  by_cases hw : w.Started
  · obtain ⟨⟨late, hnotes, hlate⟩, hs, haccounted⟩ := h.started hw
    refine ⟨_, hrun _ _ hs, hcallbacks, sends_concat h.sent hsent, fun hnot => absurd hw hnot,
      fun _ => ⟨⟨late, hnotes, ?_⟩, ?_, ?_⟩⟩
    · exact hunanswered.trans hlate
    · rw [hsame]
      exact congrArg (v.withSocket s.unanswered) hsocket.symm
    · rw [houtside, hattach, haccounted, System.arrivals_append, harrivals, List.append_nil]
  · obtain ⟨hs, haccounted, hnone⟩ := h.starting hw
    refine ⟨_, hrun _ _ hs, hcallbacks, sends_concat h.sent hsent, fun _ => ⟨?_, ?_, ?_⟩,
      fun hstarted => absurd hstarted hw⟩
    · rw [hsame]
    · rw [houtside, hattach, haccounted]
      exact congrArg (attachMessages hist ++ ·) hsocket.symm
    · rw [System.arrivals_append, hnone, harrivals, List.append_nil]

/-- A datagram arrives: an answer to a late request, another answer, or a notification. -/
theorem refined_arrival
    {d : Binary} (ha : a = .answer d ∨ a = .notify d) (hA : ∀ s, s.server = w.server → A s a)
    (hstep : w.step U self inv (.outside a) = some w')
    (h : Refined A U self s₀ hist w hist' s) :
    ∃ calls s', Refined A U self s₀ (hist ++ [.outside a]) w' (hist' ++ calls) s' := by
  obtain ⟨unanswered, rfl, hpop⟩ : ∃ unanswered,
      w' = { w with unanswered := unanswered, socket := w.socket ++ [d] } ∧
        (a = .notify d ∧ unanswered = w.unanswered ∨
          a = .answer d ∧ ∃ r, w.unanswered = r :: unanswered) := by
    obtain ⟨v, hv, rfl⟩ := step_outside hstep
    rcases ha with rfl | rfl
    · obtain ⟨r, rest, hrest, rfl⟩ := System.step_answer hv
      exact ⟨rest, rfl, .inr ⟨rfl, r, hrest⟩⟩
    · cases hv
      exact ⟨w.unanswered, rfl, .inl ⟨rfl, rfl⟩⟩
  have hcallback : a.isCallback = false := by
    rcases ha with rfl | rfl <;> rfl
  have harrivals : System.arrivals [a] = [d] := by
    rcases ha with rfl | rfl <;> rfl
  have houtside : System.arrivals (outside (hist ++ [.outside a])) =
      System.arrivals (outside hist) ++ [d] := by
    rw [outside_concat, System.arrivals_append, ← harrivals]
    rfl
  have hattach : attachMessages (hist ++ [.outside a]) = attachMessages hist := by
    rw [attachMessages_concat]
    exact List.append_nil _
  have hcallbacks (calls : List Action) (hcalls : calls.filter Action.isCallback = []) :
      (hist' ++ calls).filter Action.isCallback =
        (outside (hist ++ [.outside a])).filter Action.isCallback := by
    rw [List.filter_append, h.callbacks, outside_concat, List.filter_append, hcalls]
    simp [outside, hcallback]
  have hquiet : WpaEx.sends (Main.visibleCalls (programCalls [.outside a])) = [] := rfl
  by_cases hw : w.Started
  · obtain ⟨⟨late, hnotes, hlate⟩, hs, haccounted⟩ := h.started hw
    have hallowed : A s a := hA s (hs ▸ rfl)
    -- the message is queued as `a'`, and `late` and `u` are left unanswered
    have hqueued (a' : Action) (u late : List Binary) (ha' : a' = .answer d ∨ a' = .notify d)
        (hA' : A s a') (hnotes : late = [] ∨ ∀ s d, A s (.notify d))
        (hlate : unanswered = late ++ u)
        (hstep' : s.step U self a' = some (s.withSocket u (s.socket ++ [d]))) :
        ∃ calls s', Refined A U self s₀ (hist ++ [.outside a])
          { w with unanswered := unanswered, socket := w.socket ++ [d] } (hist' ++ calls) s' := by
      obtain ⟨harrived, hfilter, hsyscalls⟩ : System.arrivals [a'] = [d] ∧
          [a'].filter Action.isCallback = [] ∧ System.syscalls [a'] = [] := by
        rcases ha' with rfl | rfl <;> exact ⟨rfl, rfl, rfl⟩
      refine ⟨[a'], _, .snoc h.run hA' hstep', hcallbacks _ hfilter,
        sends_concat h.sent (by rw [hquiet, hsyscalls]; rfl), fun hnot => absurd hw hnot,
        fun _ => ⟨⟨late, hnotes, hlate⟩, ?_, ?_⟩⟩
      · rw [hs]
        rfl
      · rw [houtside, hattach, haccounted, System.arrivals_append, harrived, List.append_assoc]
    rcases hpop with ⟨rfl, rfl⟩ | ⟨rfl, r, hr⟩
    · exact hqueued (.notify d) s.unanswered late (.inr rfl) hallowed hnotes hlate rfl
    · cases late with
      | nil =>
          have hfirst : s.unanswered = r :: unanswered := hlate.symm.trans hr
          refine hqueued (.answer d) unanswered [] (.inl rfl) hallowed (.inl rfl) rfl ?_
          simp only [System.step, hfirst, System.withSocket]
      | cons r' late =>
          obtain ⟨rfl, hrest⟩ := List.cons_eq_cons.mp (hr.symm.trans hlate)
          have hall := hnotes.resolve_left (List.cons_ne_nil r late)
          exact hqueued (.notify d) s.unanswered late (.inr rfl) (hall s d) (.inr hall) hrest rfl
  · obtain ⟨hs, haccounted, hnone⟩ := h.starting hw
    refine ⟨[], s, ?_, hcallbacks [] rfl, sends_concat h.sent hquiet.symm,
      fun _ => ⟨hs, ?_, ?_⟩, fun hstarted => absurd hstarted hw⟩
    · rw [List.append_nil]
      exact h.run
    · rw [houtside, hattach, haccounted, List.append_assoc]
    · rw [List.append_nil]
      exact hnone

section Program

variable {c : MainCall}

/-- What a call of the program does to the channels. -/
structure Moves (inv : Invocation) (w : WholeSystem) (c : MainCall) (w' : WholeSystem) : Prop where
  enabled : w.Enabled c
  program : w.program.step inv c = some w'.program
  stdin : w.stdin = c.input ++ w'.stdin
  socket : w.socket = c.received ++ w'.socket
  stdout : w'.stdout = w.stdout ++ c.output
  unanswered : w'.unanswered = w.unanswered ++ c.sent
  server : w'.server = w.server
  effects : w'.effects = w.effects

theorem step_program (hstep : w.step U self inv (.program c) = some w') : Moves inv w c w' := by
  simp only [step] at hstep
  split at hstep
  · next henabled =>
      split at hstep
      · next program stdin socket hprogram hstdin hsocket =>
          cases hstep
          obtain ⟨_, hinput, hbeq⟩ := List.dropPrefix?_eq_some_iff.mp hstdin
          obtain ⟨_, hreceived, hbeq'⟩ := List.dropPrefix?_eq_some_iff.mp hsocket
          rw [eq_of_beq hbeq] at hinput
          rw [eq_of_beq hbeq'] at hreceived
          exact ⟨henabled, hprogram, hinput, hreceived, rfl, rfl, rfl, rfl⟩
      · cases hstep
  · cases hstep

/-- Until the main loop begins, messages go to `wpa_ctrl_attach` or are left in the socket. -/
theorem arrivals_of_startup
    (hw : ¬ w.Started) (hmoves : Moves inv w c w')
    (h : System.arrivals (outside hist) = attachMessages hist ++ w.socket) :
    System.arrivals (outside (hist ++ [.program c])) =
      attachMessages (hist ++ [.program c]) ++ w'.socket := by
  obtain ⟨_, _, hattach, _⟩ := Main.startup_cases hmoves.program (by simpa [Started] using hw)
  have hsame : outside (hist ++ [.program c]) = outside hist := by
    rw [outside_concat]
    exact List.append_nil _
  have hreceived : attachMessages [.program c] = c.received := hattach
  rw [hsame, h, attachMessages_concat, hreceived, hmoves.socket, List.append_assoc]

/-- A call of the startup is nothing, a `poll` that fails, or what the socket holds arrives. -/
theorem refined_startup
    (hw : ¬ w.Started) (hpoll : ∀ s, A s (.syscall (.poll .failed)))
    (hstarts : w'.Started → (w'.unanswered = [] ∨ ∀ s d, A s (.notify d)) ∧
      ∀ s, ∀ d ∈ w'.socket, A s (.notify d))
    (hmoves : Moves inv w c w') (h : Refined A U self s₀ hist w hist' s) :
    ∃ calls s', Refined A U self s₀ (hist ++ [.program c]) w' (hist' ++ calls) s' := by
  obtain ⟨hs, haccounted, hnone⟩ := h.starting hw
  obtain ⟨hbridge, hvisible, _, hafter⟩ :=
    Main.startup_cases hmoves.program (by simpa [Started] using hw)
  have hview (b : WpaEx) (hb : w'.program.bridge = b) :
      w'.view.withSocket [] [] = { s with bridge := b } := by
    have hstdin : w.stdin = w'.stdin := by
      rw [hmoves.stdin, MainCall.input, hvisible]
      rfl
    have hstdout : w'.stdout = w.stdout := by
      rw [hmoves.stdout, MainCall.output, hvisible]
      exact List.append_nil _
    rw [hs, System.withSocket, System.withSocket, view, view, hb, hmoves.server, hmoves.effects,
      hstdin, hstdout]
  have houtside := arrivals_of_startup hw hmoves haccounted
  have hcallbacks (calls : List Action) (hcalls : calls.filter Action.isCallback = []) :
      (hist' ++ calls).filter Action.isCallback =
        (outside (hist ++ [.program c])).filter Action.isCallback := by
    rw [List.filter_append, h.callbacks, outside_concat, List.filter_append, hcalls]
    rfl
  have hstart : s.bridge = WpaEx.start := by
    rw [hs]
    exact hbridge
  have hstays (hb : w'.program.bridge = WpaEx.start) : s = w'.view.withSocket [] [] := by
    rw [hview _ hb, ← hstart]
  have hsent (calls : List Action) (hcalls : WpaEx.sends (System.syscalls calls) = []) :
      WpaEx.sends (System.syscalls (hist' ++ calls)) =
        WpaEx.sends (Main.visibleCalls (programCalls (hist ++ [.program c]))) := by
    refine sends_concat h.sent (hcalls.trans ?_)
    simp [programCalls, Main.visibleCalls, hvisible, WpaEx.sends]
  rcases hafter with ⟨hnot, hb | hb⟩ | hrunning
  · refine ⟨[], s, ?_, hcallbacks [] rfl, hsent [] rfl, fun _ => ⟨hstays hb, houtside, ?_⟩,
      fun hstarted => ?_⟩
    · rw [List.append_nil]
      exact h.run
    · rw [List.append_nil]
      exact hnone
    · simp [Started, hnot] at hstarted
  · have hfailed := System.step_pollFailed U self hstart
    refine ⟨[.syscall (.poll .failed)], _, .snoc h.run (hpoll s) hfailed, hcallbacks _ rfl,
      hsent _ rfl, fun _ => ⟨?_, houtside, ?_⟩, fun hstarted => ?_⟩
    · rw [hview _ hb]
    · rw [System.arrivals_append, hnone]
      rfl
    · simp [Started, hnot] at hstarted
  · have hstarted : w'.Started := by simp [Started, hrunning, Main.loop?]
    have hb : w'.program.bridge = WpaEx.start := by
      rw [hrunning]
      rfl
    have hsocket : s.unanswered = [] ∧ s.socket = [] := by
      rw [hs]
      exact ⟨rfl, rfl⟩
    have hnotifies : (w'.socket.map Action.notify).filter Action.isCallback = [] := by
      simp [Action.isCallback]
    have hnotified : System.arrivals (w'.socket.map .notify) = w'.socket := by
      simp [System.arrivals, List.filterMap_map]
    have hquiet : WpaEx.sends (System.syscalls (w'.socket.map .notify)) = [] := by
      simp [System.syscalls, WpaEx.sends, List.filterMap_map]
    obtain ⟨hlate, hnotes⟩ := hstarts hstarted
    refine ⟨w'.socket.map .notify, s.withSocket s.unanswered (s.socket ++ w'.socket), ?_,
      hcallbacks _ hnotifies, hsent _ hquiet, fun hnot => absurd hstarted hnot,
      fun _ => ⟨⟨w'.unanswered, hlate, ?_⟩, ?_, ?_⟩⟩
    · exact h.run.append (System.run_notify s w'.socket hnotes)
    · exact hsocket.1 ▸ (List.append_nil _).symm
    · rw [hsocket.1, hsocket.2, List.nil_append, hstays hb]
      rfl
    · rw [houtside, System.arrivals_append, hnone, hnotified]
      rfl

/-- `wpa_ctrl_request` does not read stdin. -/
theorem loop_of_visible_read
    {r : ReadResult} (h : c.visible = [.read r]) : c = .loop (.read r) := by
  cases c with
  | opening | attaching =>
      cases h
  | request c =>
      unfold MainCall.visible at h
      split at h <;> simp_all
  | loop sc =>
      cases h
      rfl

/-- A call of the main loop is nothing or a system call. -/
theorem refined_loop
    {l : WpaEx.Loop} (hw : w.program = .running l) (hsize : l.wpaBuffer.length = bufferSize)
    (hA : ∀ sc u, [sc].filter WpaEx.shown = c.visible →
      A (w.view.withSocket u w.socket) (.syscall sc))
    (hmoves : Moves inv w c w') (h : Refined A U self s₀ hist w hist' s) :
    ∃ calls s', Refined A U self s₀ (hist ++ [.program c]) w' (hist' ++ calls) s' := by
  have hstarted : w.Started := by simp [Started, hw, Main.loop?]
  obtain ⟨⟨late, hnotes, hlate⟩, hs, haccounted⟩ := h.started hstarted
  generalize s.unanswered = u at hs hlate
  subst hs
  obtain ⟨l', hstep, hw'⟩ : ∃ l', l.step c = some l' ∧ w'.program = .running l' := by
    have hprogram := hmoves.program
    rw [hw] at hprogram
    obtain ⟨l', hstep, hl'⟩ := Option.map_eq_some_iff.mp hprogram
    exact ⟨l', hstep, hl'.symm⟩
  have hstarted' : w'.Started := by simp [Started, hw', Main.loop?]
  have hpermits := hmoves.enabled.1
  rw [hw] at hpermits
  have hvisible : c.sent = WpaEx.sends c.visible ∧ c.received = WpaEx.receives c.visible ∧
      attachMessages [.program c] = [] := by
    obtain ⟨_, rfl⟩ | ⟨_, rfl⟩ := WpaEx.Loop.inLoop hstep <;> exact ⟨rfl, rfl, rfl⟩
  have houtside : System.arrivals (outside (hist ++ [.program c])) =
      attachMessages (hist ++ [.program c]) ++ System.arrivals hist' := by
    rw [outside_concat, attachMessages_concat, hvisible.2.2, List.append_nil, ← haccounted]
    exact congrArg System.arrivals (List.append_nil _)
  have hcallbacks (calls : List Action) (hcalls : calls.filter Action.isCallback = []) :
      (hist' ++ calls).filter Action.isCallback =
        (outside (hist ++ [.program c])).filter Action.isCallback := by
    rw [List.filter_append, h.callbacks, outside_concat, List.filter_append, hcalls]
    rfl
  have hbridge : w.program.bridge = l.bridge := by rw [hw]; rfl
  have hbridge' : w'.program.bridge = l'.bridge := by rw [hw']; rfl
  have hsent : w'.unanswered = late ++ (u ++ c.sent) := by
    rw [hmoves.unanswered, hlate, List.append_assoc]
  have hsends (calls : List Action)
      (hcalls : WpaEx.sends (System.syscalls calls) = WpaEx.sends c.visible) :
      WpaEx.sends (System.syscalls (hist' ++ calls)) =
        WpaEx.sends (Main.visibleCalls (programCalls (hist ++ [.program c]))) := by
    refine sends_concat h.sent (hcalls.trans ?_)
    simp [programCalls, Main.visibleCalls]
  cases (WpaEx.Loop.step_refines hstep hsize hpermits).2 with
  | stays hsame hc =>
      have hquiet : c.sent = [] ∧ c.received = [] ∧ c.input = [] ∧ c.output = [] := by
        rw [hvisible.1, hvisible.2.1, MainCall.input, MainCall.output, hc]
        exact ⟨rfl, rfl, rfl, rfl⟩
      obtain ⟨hsent', hreceived, hinput, houtput⟩ := hquiet
      have hstays : w.view.withSocket u w.socket = w'.view.withSocket u w'.socket := by
        rw [view, view, hbridge, hbridge', hsame, hmoves.server, hmoves.effects, hmoves.stdin,
          hmoves.stdout, hmoves.socket, hinput, houtput, hreceived]
        simp [System.withSocket]
      refine ⟨[], _, ?_, hcallbacks [] rfl, hsends [] (hc ▸ rfl),
        fun hnot => absurd hstarted' hnot, fun _ => ⟨⟨late, hnotes, ?_⟩, hstays, ?_⟩⟩
      · rw [List.append_nil]
        exact h.run
      · rw [hsent, hsent', List.append_nil]
        rfl
      · rw [houtside, List.append_nil]
  | steps sc hsc hpossible hshown =>
      have hmoved : c.sent = sc.sent ∧ c.received = sc.received ∧ c.input = sc.input ∧
          c.output = sc.output := by
        rw [hvisible.1, hvisible.2.1, MainCall.input, MainCall.output, ← hshown,
          WpaEx.sends_filter_shown, WpaEx.receives_filter_shown, WpaEx.inputs_filter_shown,
          WpaEx.outputs_filter_shown]
        simp [WpaEx.sends, WpaEx.receives, WpaEx.inputs, WpaEx.outputs]
      obtain ⟨hsent', hreceived, hinput, houtput⟩ := hmoved
      have henabled : (w.view.withSocket u w.socket).Enabled sc := by
        refine ⟨?_, fun hread => hmoves.enabled.2 (loop_of_visible_read ?_)⟩
        · have hbuffer : w.program.bridge.buffer = l.buffer := by
            rw [hbridge]
            rfl
          exact hbuffer.symm ▸ hpossible
        · rw [← hshown, hread]
          rfl
      have hbridge'' : (w.view.withSocket u w.socket).bridge.step sc = some l'.bridge := by
        rw [← hsc, ← hbridge]
        rfl
      have hsyscall := System.step_syscall_eq U self henabled hbridge''
        (hinput ▸ hmoves.stdin) (hreceived ▸ hmoves.socket)
      refine ⟨[.syscall sc], _, .snoc h.run (hA sc u hshown) hsyscall, hcallbacks _ rfl,
        hsends _ ?_, fun hnot => absurd hstarted' hnot, fun _ => ⟨⟨late, hnotes, ?_⟩, ?_, ?_⟩⟩
      · rw [← hshown, WpaEx.sends_filter_shown]
        rfl
      · rw [hsent, hsent']
        rfl
      · rw [view, view, hbridge', hmoves.server, hmoves.effects, hmoves.stdout, houtput]
        rfl
      · have hnone : System.arrivals [.syscall sc] = [] := rfl
        rw [houtside, System.arrivals_append, hnone, List.append_nil]

end Program

section Runs

variable {port : Port} {manager : Pid}

/--
The actions of a run of the whole system under the condition `B` are, in the matching run,
actions under the condition `A`.
-/
structure Carries (A : System → Action → Prop) (B : WholeSystem → WholeAction → Prop)
    (U : GraphemeTable) (pid : Pid) (inv : Invocation) (w₀ : WholeSystem) : Prop where
  outside : ∀ w s a, B w (.outside a) → s.server = w.server → A s a
  startup : ∀ s, A s (.syscall (.poll .failed))
  starts : ∀ hist w c w', Run (step U pid inv) B w₀ hist w → ¬ w.Started →
    w.step U pid inv (.program c) = some w' → w'.Started →
    (w'.unanswered = [] ∨ ∀ s d, A s (.notify d)) ∧ ∀ s, ∀ d ∈ w'.socket, A s (.notify d)
  loop : ∀ w c sc u, B w (.program c) → [sc].filter WpaEx.shown = c.visible →
    A (w.view.withSocket u w.socket) (.syscall sc)

theorem carries_true (w₀ : WholeSystem) :
    Carries (fun _ _ => True) (fun _ _ => True) U self inv w₀ :=
  ⟨fun _ _ _ _ _ => trivial, fun _ => trivial,
    fun _ _ _ _ _ _ _ _ => ⟨.inr fun _ _ => trivial, fun _ _ _ => trivial⟩,
    fun _ _ _ _ _ _ => trivial⟩

variable {B : WholeSystem → WholeAction → Prop}

/-- What the program does in a run of the whole system is a run of the program. -/
theorem run_program
    (hrun : Run (step U self inv) B (start inv port manager) hist w) :
    Run (Main.step inv) Main.Permits (.start inv) (programCalls hist) w.program := by
  induction hrun with
  | start =>
      exact .start
  | @snoc hist w w' a _ _ hstep ih =>
      rw [programCalls_concat]
      cases a with
      | outside a =>
          obtain ⟨v, _, rfl⟩ := step_outside hstep
          have hnone : programCalls [.outside a] = [] := rfl
          rw [hnone, List.append_nil]
          exact ih
      | program c =>
          have hmoves := step_program hstep
          exact .snoc ih hmoves.enabled.1 hmoves.program

/-- Once the main loop has begun, `ATTACH` has been sent and confirmed. -/
theorem attached_of_started
    (hrun : Run (step U self inv) B (start inv port manager) hist w) (hw : w.Started) :
    Main.Attached (programCalls hist) := by
  obtain ⟨l, hl⟩ := Option.isSome_iff_exists.mp hw
  have hcame := Main.run_came (run_program hrun)
  rw [Main.eq_running_of_loop? hl] at hcame
  exact hcame.1

/-- Every run of the whole system is matched by one of the composed system. -/
theorem run_refined
    (hcarries : Carries A B U self inv (start inv port manager))
    (hrun : Run (step U self inv) B (start inv port manager) hist w) :
    ∃ hist' s, Refined A U self (System.start port manager) hist w hist' s := by
  induction hrun with
  | start =>
      obtain ⟨hnone, hb⟩ := Main.start_cases inv
      have hnot : ¬ (start inv port manager).Started := by simp [Started, start, hnone]
      have hview (b : WpaEx) (hb : (Main.start inv).bridge = b) :
          (start inv port manager).view.withSocket [] [] =
            { System.start port manager with bridge := b } := by
        rw [← hb]
        rfl
      rcases hb with hb | hb
      · exact ⟨[], _, .start, rfl, rfl, fun _ => ⟨(hview _ hb).symm, rfl, rfl⟩,
          fun h => absurd h hnot⟩
      · exact ⟨[.syscall (.poll .failed)], _,
          .snoc .start (hcarries.startup _) (System.step_pollFailed U self rfl), rfl, rfl,
          fun _ => ⟨(hview _ hb).symm, rfl, rfl⟩, fun h => absurd h hnot⟩
  | @snoc hist w w' a prev hallowed hstep ih =>
      obtain ⟨hist', s, h⟩ := ih
      cases a with
      | outside a =>
          have hA (s : System) (hs : s.server = w.server) : A s a :=
            hcarries.outside w s a hallowed hs
          cases a with
          | answer d =>
              obtain ⟨calls, h⟩ := refined_arrival (.inl rfl) hA hstep h
              exact ⟨_, h⟩
          | notify d =>
              obtain ⟨calls, h⟩ := refined_arrival (.inr rfl) hA hstep h
              exact ⟨_, h⟩
          | syscall sc =>
              cases hstep
          | call | giveUp | deliver | exitStatus =>
              exact ⟨_, refined_callback rfl hA hstep h⟩
      | program c =>
          have hmoves := step_program hstep
          by_cases hw : w.Started
          · obtain ⟨l, hl⟩ := Option.isSome_iff_exists.mp hw
            have hl := Main.eq_running_of_loop? hl
            have hcame := Main.run_came (run_program prev)
            rw [hl] at hcame
            have hA (sc : Syscall) (u : List Binary) :=
              hcarries.loop w c sc u hallowed
            obtain ⟨calls, h⟩ := refined_loop hl hcame.2.1 hA hmoves h
            exact ⟨_, h⟩
          · have hstarts := hcarries.starts hist w c w' prev hw hstep
            obtain ⟨calls, h⟩ := refined_startup hw hcarries.startup hstarts hmoves h
            exact ⟨_, h⟩

/-- The messages that wait for the main loop to begin. -/
def beforeLoop (w : WholeSystem) : List Binary :=
  match w.program.loop? with
  | some _ => []
  | none => w.socket

/-- What is to be seen outside of the program is the same. -/
structure SameOutside (hist : List WholeAction) (w : WholeSystem) (hist' : List Action)
    (s : System) : Prop where
  callbacks : hist'.filter Action.isCallback = (outside hist).filter Action.isCallback
  server : s.server = w.server
  effects : s.effects = w.effects
  stdin : s.stdin = w.stdin
  stdout : s.stdout = w.stdout
  bridge : s.bridge = w.program.bridge
  arrivals : System.arrivals (outside hist) =
    attachMessages hist ++ (System.arrivals hist' ++ w.beforeLoop)

/--
The clients and the server do not notice the startup: every run of the whole system is
matched by one of the composed system, in which the program starts in its main loop.
-/
theorem run_refines
    (hrun : Run (step U self inv) (fun _ _ => True) (start inv port manager) hist w) :
    ∃ hist' s, Run (System.step U self) (fun _ _ => True) (System.start port manager) hist' s ∧
      SameOutside hist w hist' s := by
  obtain ⟨hist', s, h⟩ := run_refined (carries_true _) hrun
  refine ⟨hist', s, h.run, ?_⟩
  by_cases hw : w.Started
  · obtain ⟨_, hs, harrivals⟩ := h.started hw
    obtain ⟨l, hl⟩ := Option.isSome_iff_exists.mp hw
    rw [hs]
    refine ⟨h.callbacks, rfl, rfl, rfl, rfl, rfl, ?_⟩
    rw [harrivals, beforeLoop, hl, List.append_nil]
  · obtain ⟨hs, harrivals, hnone⟩ := h.starting hw
    rw [hs]
    refine ⟨h.callbacks, rfl, rfl, rfl, rfl, rfl, ?_⟩
    have hloop : w.program.loop? = none := by
      simpa [Started] using hw
    rw [harrivals, beforeLoop, hloop, hnone, List.nil_append]

/-- What gets to the server of the messages of the supplicant. -/
structure Delivers (pid manager : Pid) (hist : List WholeAction) (w : WholeSystem) : Prop where
  starting : ¬ w.Started → System.delivered (outside hist) = []
  started : w.Started → CtrlRequest.Confirmed (attachMessages hist) ∧
    ∃ after, System.arrivals (outside hist) = attachMessages hist ++ after ∧
      System.delivered (outside hist) <+: after ∧
      (¬ w.view.bridge.Exited → after = System.delivered (outside hist) ++ w.view.inFlight)
  events : System.events w.effects =
    (System.delivered (outside hist)).filterMap (System.eventOf pid manager)

theorem delivered_filter (hist : List Action) :
    System.delivered (hist.filter Action.isCallback) = System.delivered hist := by
  induction hist with
  | nil =>
      rfl
  | cons a hist ih =>
      have hcons (hist : List Action) :
          System.delivered (a :: hist) = System.delivered [a] ++ System.delivered hist :=
        System.delivered_append [a] hist
      rw [List.filter_cons, hcons hist]
      split
      · rw [hcons, ih]
      · next hquiet =>
          have hnone : System.delivered [a] = [] := by
            cases a <;> first | rfl | exact absurd rfl hquiet
          rw [ih, hnone, List.nil_append]

/-- The run that matches has short datagrams, too. -/
theorem Refined.short
    (h : Refined A U self s₀ hist w hist' s)
    (hshort : ∀ d ∈ System.arrivals (outside hist), d.length < bufferSize) :
    Run (System.step U self) System.ShortArrivals s₀ hist' s := by
  refine h.run.restrict fun _ a ha _ d hd => ?_
  have hmem : d ∈ System.arrivals hist' := by
    obtain ⟨front, back, rfl⟩ := List.append_of_mem ha
    rw [← List.singleton_append, System.arrivals_append, System.arrivals_append]
    exact List.mem_append_right _ (List.mem_append_left _ hd)
  by_cases hw : w.Started
  · refine hshort d ?_
    rw [(h.started hw).2.2]
    exact List.mem_append_right _ hmem
  · rw [(h.starting hw).2.2] at hmem
    cases hmem

/--
The server gets the messages that the supplicant sends after it has confirmed `ATTACH`, in
order and without gaps, and no other message; what does not get there is on its way.
-/
theorem run_delivers
    (hrun : Run (step U self inv) (fun _ _ => True) (start inv port manager) hist w)
    (hshort : ∀ d ∈ System.arrivals (outside hist), d.length < bufferSize) :
    Delivers self manager hist w := by
  obtain ⟨hist', s, h⟩ := run_refined (carries_true _) hrun
  have hrun' := h.short hshort
  have hchannels := System.run_channels (fun _ _ h => h) hrun'
  have hdelivered : System.delivered hist' = System.delivered (outside hist) := by
    rw [← delivered_filter, h.callbacks, delivered_filter]
  have hprefix := hdelivered ▸ hchannels.delivered_isPrefix
  have heffects : s.effects = w.effects := by
    obtain ⟨u, k, hs⟩ := h.exists_view
    rw [hs]
    rfl
  refine ⟨fun hw => ?_, fun hw => ⟨?_, System.arrivals hist', (h.started hw).2.2, hprefix, ?_⟩, ?_⟩
  · rw [(h.starting hw).2.2] at hprefix
    exact List.prefix_nil.mp hprefix
  · exact (attached_of_started hrun hw).2
  · intro halive
    have hs := (h.started hw).2.1
    have hbridge : s.bridge = w.view.bridge := by
      rw [hs]
      rfl
    have hflight : s.inFlight = w.view.inFlight := by
      rw [hs]
      rfl
    rw [← hdelivered, ← hflight]
    exact hchannels.arrivals_of_alive (hbridge ▸ halive)
  · rw [← heffects, ← hdelivered]
    exact (System.run_eventsKept hrun').1

/--
A client calls the server before the program is attached; a notification comes before the
confirmation, and one right behind it.
-/
def launchCalls : List WholeAction :=
  WpaCtrl.staleRun.map (fun c => .program (.opening c)) ++
    [.outside (.call ⟨1, 0⟩ (.request (.atom .ping))),
      .program (.attaching (.send (lit "ATTACH") .ok)),
      .outside (.notify (lit "<3>CTRL-EVENT-SCAN-RESULTS ")),
      .program (.attaching (.select .ready)),
      .program (.attaching (.recv 10 (.datagram (lit "<3>CTRL-EVENT-SCAN-RESULTS ")))),
      .outside (.answer (lit "OK\n")), .outside (.notify (lit "<3>CTRL-EVENT-SCAN-STARTED ")),
      .program (.attaching (.select .ready)),
      .program (.attaching (.recv 10 (.datagram (lit "OK\n")))),
      .program (.loop (.poll (.ready false true))), .program (.loop (.pending true)),
      .program (.loop (.recv (.datagram (lit "<3>CTRL-EVENT-SCAN-STARTED ")))),
      .program (.loop (.writev (frame (lit "<3>CTRL-EVENT-SCAN-STARTED ")) (.written 29))),
      .outside (.deliver (lit "<3>CTRL-EVENT-SCAN-STARTED "))]

theorem exists_launch :
    ∃ w, Run (step .latin 9 Main.firstInvocation) (fun _ _ => True)
      (start Main.firstInvocation 5 7) launchCalls w ∧
      System.events w.effects = [(7, ⟨9, .bare .scanStarted⟩)] := by
  have hend : (run? (step .latin 9 Main.firstInvocation) (fun _ _ => True)
      (start Main.firstInvocation 5 7) launchCalls).map (fun w => System.events w.effects) =
        some [(7, ⟨9, .bare .scanStarted⟩)] := by
    decide +kernel
  obtain ⟨w, hw, hevents⟩ := Option.map_eq_some_iff.mp hend
  exact ⟨w, run_of_run? hw, hevents⟩

theorem run_refines_launch :
    ∃ w hist' s, System.events w.effects = [(7, ⟨9, .bare .scanStarted⟩)] ∧
      SameOutside launchCalls w hist' s := by
  obtain ⟨w, hrun, hevents⟩ := exists_launch
  obtain ⟨hist', s, _, h⟩ := run_refines hrun
  exact ⟨w, hist', s, hevents, h⟩

theorem run_delivers_launch :
    ∃ w, System.events w.effects = [(7, ⟨9, .bare .scanStarted⟩)] ∧
      Delivers 9 7 launchCalls w := by
  obtain ⟨w, hrun, hevents⟩ := exists_launch
  exact ⟨w, hevents, run_delivers hrun (by decide +kernel)⟩

end Runs

end WholeSystem
end WpaSupplicant
