import WpaSupplicant.BridgeMachine
import WpaSupplicant.ServerHandlers

/-!
# The composed system

Clients, the GenServer, the `{:packet, 2}` port, wpa_ex and the supplicant's
socket.  A state holds what is in each of the channels between them; an action
is one callback of the server, one system call of wpa_ex or one datagram of the
supplicant, which answers request datagrams one by one in the order it got them.

* `Channels`: nothing is lost, duplicated or reordered in any of the channels;
* `run_channels`: so it is after every run.
-/

namespace WpaSupplicant

open StepSystem (Run)

structure System where
  /-- `none` once the server has terminated. -/
  server : Option ServerState
  /-- What the server has sent, oldest first. -/
  effects : List Effect
  /-- Written by the port and not yet read by wpa_ex. -/
  stdin : Binary
  bridge : WpaEx
  /-- The request datagrams that the supplicant has not answered. -/
  unanswered : List Binary
  /-- The datagrams queued for wpa_ex. -/
  socket : List Binary
  /-- Written by wpa_ex and not yet delivered by the port. -/
  stdout : Binary

/-- What happens next. -/
inductive Action
  | call (client : From) (call : Call)
  | giveUp (client : From)
  | answer (d : Binary)
  | notify (d : Binary)
  | syscall (sc : Syscall)
  | deliver (message : Binary)
  | exitStatus (status : Nat)

/-- The payloads given to the port. -/
def commands (effects : List Effect) : List Binary :=
  effects.filterMap fun
    | .command _ payload => some payload
    | _ => none

@[simp] theorem commands_append (xs ys : List Effect) :
    commands (xs ++ ys) = commands xs ++ commands ys :=
  List.filterMap_append

namespace System

/-- A server that has just started, a port that has just been opened. -/
def start (port : Port) (manager : Pid) : System where
  server := some (Server.init port manager)
  effects := []
  stdin := []
  bridge := .start
  unanswered := []
  socket := []
  stdout := []

/--
The end of a callback.  A command that is too long for a frame makes the port
fail, and the server, which is linked to it, with it.
-/
def absorb (s : System) (result : Except Raise Callback) : System :=
  match result with
  | .ok (.continue effects state) =>
      if ∀ payload ∈ commands effects, FitsFrame payload then
        { s with
          server := some state
          effects := s.effects ++ effects
          stdin := s.stdin ++ frames (commands effects) }
      else
        { s with server := none }
  | .ok (.stop _) => { s with server := none }
  | .error _ => { s with server := none }

/-- A `read` of no bytes: the port is closed and empty, or there is no room. -/
def AtEnd (s : System) : Prop :=
  s.bridge.buffer.free = 0 ∨ s.server.isNone ∧ s.stdin = []

/-- The kernel can make the system call return so. -/
def Enabled (s : System) (sc : Syscall) : Prop :=
  sc.Possible s.bridge.buffer ∧ (sc = .read (.bytes []) → s.AtEnd)

instance (s : System) : Decidable s.AtEnd :=
  inferInstanceAs (Decidable (_ ∨ _))

instance (s : System) (sc : Syscall) : Decidable (s.Enabled sc) :=
  inferInstanceAs (Decidable (_ ∧ _))

/-- One action; `none` when it cannot happen. -/
def step (U : GraphemeTable) (self : Pid) (s : System) : Action → Option System
  | .call client call =>
      s.server.map fun state => s.absorb (Server.handleCall U call client state)
  | .giveUp _ => some s
  | .answer d =>
      match s.unanswered with
      | [] => none
      | _ :: rest => some { s with unanswered := rest, socket := s.socket ++ [d] }
  | .notify d => some { s with socket := s.socket ++ [d] }
  | .syscall sc =>
      if s.Enabled sc then
        match s.bridge.step sc, s.stdin.dropPrefix? sc.input,
            s.socket.dropPrefix? sc.received with
        | some bridge, some stdin, some socket =>
            some { s with
              bridge := bridge
              stdin := stdin
              socket := socket
              stdout := s.stdout ++ sc.output
              unanswered := s.unanswered ++ sc.sent }
        | _, _, _ => none
      else
        none
  | .deliver message =>
      match s.server, unframe? s.stdout with
      | some state, some (m, rest) =>
          if message = m then
            some ({ s with stdout := rest }.absorb (Server.handleInfo self (.data m) state))
          else
            none
      | _, _ => none
  | .exitStatus status =>
      match s.server, s.bridge.point, unframe? s.stdout with
      | some state, .exited _, none =>
          some (s.absorb (Server.handleInfo self (.exitStatus status) state))
      | _, _, _ => none

section Histories

/-- The requests handed to `handle_call`. -/
def accepted (hist : List Action) : List (From × Term) :=
  hist.filterMap fun
    | .call client (.request command) => some (client, command)
    | _ => none

/-- The datagrams of the supplicant. -/
def arrivals (hist : List Action) : List Binary :=
  hist.filterMap fun
    | .answer d | .notify d => some d
    | _ => none

/-- The replies of the supplicant. -/
def answers (hist : List Action) : List Binary :=
  hist.filterMap fun
    | .answer d => some d
    | _ => none

/-- The messages that the port has delivered to the server. -/
def delivered (hist : List Action) : List Binary :=
  hist.filterMap fun
    | .deliver message => some message
    | _ => none

/-- The system calls of wpa_ex. -/
def syscalls (hist : List Action) : List Syscall :=
  hist.filterMap fun
    | .syscall sc => some sc
    | _ => none

variable (xs ys : List Action)

@[simp] theorem accepted_append : accepted (xs ++ ys) = accepted xs ++ accepted ys :=
  List.filterMap_append

@[simp] theorem arrivals_append : arrivals (xs ++ ys) = arrivals xs ++ arrivals ys :=
  List.filterMap_append

@[simp] theorem answers_append : answers (xs ++ ys) = answers xs ++ answers ys :=
  List.filterMap_append

@[simp] theorem delivered_append : delivered (xs ++ ys) = delivered xs ++ delivered ys :=
  List.filterMap_append

@[simp] theorem syscalls_append : syscalls (xs ++ ys) = syscalls xs ++ syscalls ys :=
  List.filterMap_append

end Histories

section Absorb

variable (s : System) (result : Except Raise Callback)

@[simp] theorem bridge_absorb : (s.absorb result).bridge = s.bridge := by
  unfold absorb
  repeat' split
  all_goals rfl

@[simp] theorem socket_absorb : (s.absorb result).socket = s.socket := by
  unfold absorb
  repeat' split
  all_goals rfl

@[simp] theorem stdout_absorb : (s.absorb result).stdout = s.stdout := by
  unfold absorb
  repeat' split
  all_goals rfl

@[simp] theorem unanswered_absorb : (s.absorb result).unanswered = s.unanswered := by
  unfold absorb
  repeat' split
  all_goals rfl

/-- The commands of a callback go to the port whole. -/
theorem exists_commands_absorb :
    ∃ effects, (s.absorb result).effects = s.effects ++ effects ∧
      (s.absorb result).stdin = s.stdin ++ frames (commands effects) ∧
      ∀ payload ∈ commands effects, FitsFrame payload := by
  unfold absorb
  split
  · next effects state =>
      split
      · next hfit =>
          exact ⟨effects, rfl, rfl, hfit⟩
      · exact ⟨[], by simp [commands]⟩
  · exact ⟨[], by simp [commands]⟩
  · exact ⟨[], by simp [commands]⟩

end Absorb

/-- What a system call does to the channels. -/
theorem step_syscall
    {U : GraphemeTable} {self : Pid} {s s' : System} {sc : Syscall}
    (h : s.step U self (.syscall sc) = some s') :
    sc.Possible s.bridge.buffer ∧ s.bridge.step sc = some s'.bridge ∧
      s.stdin = sc.input ++ s'.stdin ∧ s.socket = sc.received ++ s'.socket ∧
      s'.stdout = s.stdout ++ sc.output ∧ s'.unanswered = s.unanswered ++ sc.sent ∧
      s'.server = s.server ∧ s'.effects = s.effects := by
  simp only [step] at h
  split at h
  · next henabled =>
      split at h
      · next bridge stdin socket hbridge hstdin hsocket =>
          cases h
          obtain ⟨_, hinput, hbeq⟩ := List.dropPrefix?_eq_some_iff.mp hstdin
          obtain ⟨_, hreceived, hbeq'⟩ := List.dropPrefix?_eq_some_iff.mp hsocket
          rw [eq_of_beq hbeq] at hinput
          rw [eq_of_beq hbeq'] at hreceived
          exact ⟨henabled.1, hbridge, hinput, hreceived, rfl, rfl, rfl, rfl⟩
      · cases h
  · cases h

/-- What a delivery does to the channels. -/
theorem step_deliver
    {U : GraphemeTable} {self : Pid} {s s' : System} {message : Binary}
    (h : s.step U self (.deliver message) = some s') :
    ∃ state rest, s.server = some state ∧ unframe? s.stdout = some (message, rest) ∧
      s' = { s with stdout := rest }.absorb
        (Server.handleInfo self (.data message) state) := by
  simp only [step] at h
  split at h
  · next state m rest hserver hstdout =>
      split at h
      · next heq =>
          subst heq
          exact ⟨state, rest, hserver, hstdout, (Option.some.inj h).symm⟩
      · cases h
  · cases h

section Steps

variable {U : GraphemeTable} {self : Pid} {s s' : System}

theorem step_call
    {client : From} {call : Call} (h : s.step U self (.call client call) = some s') :
    ∃ state, s.server = some state ∧ s' = s.absorb (Server.handleCall U call client state) := by
  obtain ⟨state, hstate, hs'⟩ := Option.map_eq_some_iff.mp h
  exact ⟨state, hstate, hs'.symm⟩

theorem step_answer
    {d : Binary} (h : s.step U self (.answer d) = some s') :
    ∃ request rest, s.unanswered = request :: rest ∧
      s' = { s with unanswered := rest, socket := s.socket ++ [d] } := by
  simp only [step] at h
  split at h
  · cases h
  · next request rest hunanswered =>
      exact ⟨request, rest, hunanswered, (Option.some.inj h).symm⟩

theorem step_exitStatus
    {status : Nat} (h : s.step U self (.exitStatus status) = some s') :
    s.bridge.Exited ∧ s' = { s with server := none } := by
  simp only [step] at h
  split at h
  · next state e _ hpoint _ =>
      exact ⟨⟨e, hpoint⟩, (Option.some.inj h).symm⟩
  · cases h

/-- Actions of the server and of the supplicant leave wpa_ex and its output alone. -/
theorem step_outside
    {a : Action} (h : s.step U self a = some s')
    (hsyscall : syscalls [a] = []) (hdeliver : delivered [a] = []) :
    s'.bridge = s.bridge ∧ s'.stdout = s.stdout := by
  cases a with
  | call client call =>
      obtain ⟨state, _, rfl⟩ := step_call h
      simp
  | giveUp | notify =>
      cases h
      exact ⟨rfl, rfl⟩
  | answer d =>
      obtain ⟨_, _, _, rfl⟩ := step_answer h
      exact ⟨rfl, rfl⟩
  | syscall sc =>
      cases hsyscall
  | deliver message =>
      cases hdeliver
  | exitStatus status =>
      obtain ⟨_, rfl⟩ := step_exitStatus h
      exact ⟨rfl, rfl⟩

end Steps

section Invariants

open WpaEx (sends receives writes outputs)

/-- Every datagram fits the receive buffer with a byte to spare. -/
def ShortArrivals (_ : System) (a : Action) : Prop :=
  ∀ d ∈ arrivals [a], d.length < bufferSize

instance (s : System) (a : Action) : Decidable (ShortArrivals s a) :=
  inferInstanceAs (Decidable (∀ d ∈ arrivals [a], d.length < bufferSize))

/--
What wpa_ex has received is what the port has delivered, what is queued for it
in whole frames and what wpa_ex has in hand.  At its exit a message may be
dropped and an incomplete frame may remain.
-/
def MessagesKept (hist : List Action) (s : System) : Prop :=
  ∃ queued dropped cut,
    receives (syscalls hist) =
      delivered hist ++ (queued ++ (s.bridge.inHand ++ dropped)) ∧
    writes (syscalls hist) = (delivered hist ++ queued).map frame ∧
    s.stdout = frames queued ++ cut ∧ unframe? cut = none ∧
    (¬ s.bridge.Exited → dropped = [] ∧ cut = [])

/--
What the server has handed to the port is what wpa_ex has sent and what stands,
in whole frames, in the port and in the buffer of wpa_ex.
-/
def RequestsKept (hist : List Action) (s : System) : Prop :=
  ∃ unsent,
    commands s.effects = sends (syscalls hist) ++ unsent ∧
    (∀ payload ∈ unsent, FitsFrame payload) ∧
    (¬ s.bridge.Exited → s.bridge.unsent ++ s.stdin = frames unsent)

/-- The supplicant has answered the request datagrams one by one. -/
def AnswersKept (hist : List Action) (s : System) : Prop :=
  ∃ done, sends (syscalls hist) = done ++ s.unanswered ∧
    done.length = (answers hist).length

/-- The messages between the supplicant and the server. -/
def inFlight (s : System) : List Binary :=
  (packet2.parse s.stdout).1 ++ s.bridge.inHand ++ s.socket

/-- The commands between the server and the supplicant. -/
def unsent (s : System) : List Binary :=
  (packet2.parse (s.bridge.unsent ++ s.stdin)).1

/-- Nothing is lost, duplicated or reordered in the channels. -/
structure Channels (hist : List Action) (s : System) : Prop where
  aligned : s.bridge.Aligned
  short : ∀ d ∈ arrivals hist, d.length < bufferSize
  arrivals_eq : arrivals hist = receives (syscalls hist) ++ s.socket
  outputs_eq : outputs (syscalls hist) = frames (delivered hist) ++ s.stdout
  messages : MessagesKept hist s
  requests : RequestsKept hist s
  answered : AnswersKept hist s

variable {U : GraphemeTable} {self : Pid} {hist : List Action} {s s' : System}
  {a : Action}

theorem fitsFrame_of_short {d : Binary} (h : d.length < bufferSize) : FitsFrame d := by
  simp only [bufferSize] at h
  simp only [FitsFrame]
  omega

/-- The first message queued on stdout is the one that the port delivers. -/
theorem queued_of_unframe?
    {queued : List Binary} {cut message rest : Binary}
    (hfit : ∀ m ∈ queued, FitsFrame m) (hcut : unframe? cut = none)
    (h : unframe? (frames queued ++ cut) = some (message, rest)) :
    ∃ queued', queued = message :: queued' ∧ rest = frames queued' ++ cut := by
  cases queued with
  | nil =>
      rw [frames_nil, List.nil_append, hcut] at h
      cases h
  | cons m queued' =>
      rw [frames_cons, List.append_assoc, unframe?_frame_append (hfit m (by simp))] at h
      cases h
      exact ⟨queued', rfl, rfl⟩

theorem step_arrivals
    (hinv : arrivals hist = receives (syscalls hist) ++ s.socket)
    (h : s.step U self a = some s') :
    arrivals (hist ++ [a]) = receives (syscalls (hist ++ [a])) ++ s'.socket := by
  rw [arrivals_append, syscalls_append, WpaEx.receives_append, hinv]
  cases a with
  | call client call =>
      obtain ⟨_, _, rfl⟩ := step_call h
      simp [arrivals, syscalls, receives]
  | giveUp | notify =>
      cases h
      simp [arrivals, syscalls, receives]
  | answer d =>
      obtain ⟨_, _, _, rfl⟩ := step_answer h
      simp [arrivals, syscalls, receives]
  | syscall sc =>
      obtain ⟨_, _, _, hsocket, _⟩ := step_syscall h
      simp [arrivals, syscalls, receives, hsocket]
  | deliver message =>
      obtain ⟨_, _, _, _, rfl⟩ := step_deliver h
      simp [arrivals, syscalls, receives]
  | exitStatus status =>
      obtain ⟨_, rfl⟩ := step_exitStatus h
      simp [arrivals, syscalls, receives]

/-- What the port has taken from stdout are the frames of what it delivered. -/
theorem step_outputs
    (hinv : outputs (syscalls hist) = frames (delivered hist) ++ s.stdout)
    (h : s.step U self a = some s') :
    outputs (syscalls (hist ++ [a])) = frames (delivered (hist ++ [a])) ++ s'.stdout := by
  rw [syscalls_append, delivered_append, WpaEx.outputs_append, frames_append, hinv]
  cases a with
  | call | giveUp | answer | notify | exitStatus =>
      rw [(step_outside h rfl rfl).2]
      simp [syscalls, delivered, outputs]
  | syscall sc =>
      obtain ⟨_, _, _, _, hstdout, _⟩ := step_syscall h
      simp [syscalls, delivered, outputs, hstdout]
  | deliver message =>
      obtain ⟨_, rest, _, hunframe, rfl⟩ := step_deliver h
      rw [eq_frame_append_of_unframe? hunframe]
      simp [syscalls, delivered, outputs]

theorem messagesKept_outside
    (hinv : MessagesKept hist s) (h : s.step U self a = some s')
    (hsyscall : syscalls [a] = []) (hdeliver : delivered [a] = []) :
    MessagesKept (hist ++ [a]) s' := by
  obtain ⟨hbridge, hstdout⟩ := step_outside h hsyscall hdeliver
  unfold MessagesKept
  rw [syscalls_append, delivered_append, hsyscall, hdeliver, List.append_nil,
    List.append_nil, hbridge, hstdout]
  exact hinv

theorem step_messagesKept
    (hshort : ∀ d ∈ receives (syscalls (hist ++ [a])), d.length < bufferSize)
    (hinv : MessagesKept hist s) (h : s.step U self a = some s') :
    MessagesKept (hist ++ [a]) s' := by
  cases a with
  | call | giveUp | answer | notify | exitStatus =>
      exact messagesKept_outside hinv h rfl rfl
  | syscall sc =>
      obtain ⟨hpossible, hbridge, _, _, hstdout, _⟩ := step_syscall h
      obtain ⟨queued, dropped, cut, hreceives, hwrites, hout, hcut, halive⟩ := hinv
      obtain ⟨rfl, rfl⟩ := halive (WpaEx.not_exited_of_step hbridge)
      have hsyscalls : syscalls (hist ++ [.syscall sc]) = syscalls hist ++ [sc] := by
        simp [syscalls]
      have hone : receives [sc] = sc.received ∧ writes [sc] = sc.written := by
        simp [receives, writes]
      rw [hsyscalls, WpaEx.receives_append, hone.1] at hshort
      have hhand : ∀ m ∈ s.bridge.inHand, FitsFrame m := by
        intro m hm
        refine fitsFrame_of_short (hshort m (List.mem_append_left _ ?_))
        rw [hreceives]
        simp [hm]
      obtain ⟨msgs, dropped, cut, hkept, hwritten, houtput, hcut', halive'⟩ :=
        WpaEx.step_conserves_messages hbridge hpossible
          (fun d hd => hshort d (List.mem_append_right _ hd)) hhand
      refine ⟨queued ++ msgs, dropped, cut, ?_, ?_, ?_, hcut', halive'⟩
      · rw [hsyscalls, WpaEx.receives_append, hone.1, hreceives, delivered_append]
        have : s.bridge.inHand ++ [] ++ sc.received =
            msgs ++ (s'.bridge.inHand ++ dropped) := by
          rw [List.append_nil, hkept]
        simp only [List.append_assoc] at this ⊢
        rw [this]
        simp [delivered]
      · rw [hsyscalls, WpaEx.writes_append, hone.2, hwrites, hwritten]
        simp [delivered]
      · rw [hstdout, hout, houtput]
        simp
  | deliver message =>
      obtain ⟨state, rest, _, hunframe, rfl⟩ := step_deliver h
      obtain ⟨queued, dropped, cut, hreceives, hwrites, hout, hcut, halive⟩ := hinv
      have hsyscalls : syscalls (hist ++ [.deliver message]) = syscalls hist := by
        simp [syscalls]
      have hdelivered : delivered (hist ++ [.deliver message]) =
          delivered hist ++ [message] := by
        simp [delivered]
      have hfit : ∀ m ∈ queued, FitsFrame m := by
        intro m hm
        refine fitsFrame_of_short (hshort m ?_)
        rw [hsyscalls, hreceives]
        simp [hm]
      rw [hout] at hunframe
      obtain ⟨queued', rfl, rfl⟩ := queued_of_unframe? hfit hcut hunframe
      refine ⟨queued', dropped, cut, ?_, ?_, by simp, hcut, by simpa using halive⟩
      · rw [hsyscalls, hdelivered, hreceives]
        simp
      · rw [hsyscalls, hdelivered, hwrites]
        simp

theorem step_requestsKept
    (haligned : s.bridge.Aligned) (hinv : RequestsKept hist s)
    (h : s.step U self a = some s') :
    RequestsKept (hist ++ [a]) s' := by
  obtain ⟨unsent, hcommands, hfit, hbytes⟩ := hinv
  -- a callback appends its commands at the end of what is not sent
  have habsorb (t : System) (hbridge : t.bridge = s.bridge) (hstdin : t.stdin = s.stdin)
      (heffects : t.effects = s.effects) (result : Except Raise Callback)
      (hsyscalls : syscalls (hist ++ [a]) = syscalls hist) :
      RequestsKept (hist ++ [a]) (t.absorb result) := by
    obtain ⟨effects, heffects', hstdin', hfit'⟩ := t.exists_commands_absorb result
    refine ⟨unsent ++ commands effects, ?_, ?_, ?_⟩
    · rw [heffects', heffects, commands_append, hcommands, hsyscalls, List.append_assoc]
    · intro payload hpayload
      exact (List.mem_append.mp hpayload).elim (hfit payload) (hfit' payload)
    · intro halive
      rw [bridge_absorb, hbridge] at halive ⊢
      rw [hstdin', hstdin, frames_append, ← hbytes halive, List.append_assoc]
  cases a with
  | call client call =>
      obtain ⟨_, _, rfl⟩ := step_call h
      exact habsorb s rfl rfl rfl _ (by simp [syscalls])
  | giveUp | notify =>
      cases h
      exact ⟨unsent, by simpa [syscalls] using hcommands, hfit, hbytes⟩
  | answer d =>
      obtain ⟨_, _, _, rfl⟩ := step_answer h
      exact ⟨unsent, by simpa [syscalls] using hcommands, hfit, hbytes⟩
  | syscall sc =>
      obtain ⟨hpossible, hbridge, hstdin, _, _, _, _, heffects⟩ := step_syscall h
      have hview := hbytes (WpaEx.not_exited_of_step hbridge)
      have hsends : sends (syscalls (hist ++ [.syscall sc])) =
          sends (syscalls hist) ++ sc.sent := by
        simp [syscalls, sends]
      rcases WpaEx.step_sends hbridge haligned with hnone | ⟨cmd, hone, hinput, _, hcut⟩
      · refine ⟨unsent, by rw [heffects, hsends, hnone, hcommands, List.append_nil], hfit, ?_⟩
        intro halive
        have hkept := WpaEx.step_conserves_requests hbridge haligned halive hpossible
        rw [hnone, frames_nil, List.nil_append] at hkept
        rw [← hkept, List.append_assoc, ← hstdin, hview]
      · obtain ⟨unsent', rfl, hview'⟩ := unframe?_view hfit hview hcut
        refine ⟨unsent', by rw [heffects, hsends, hone, hcommands]; simp, ?_, ?_⟩
        · exact fun payload hpayload => hfit payload (List.mem_cons_of_mem _ hpayload)
        · intro _
          rwa [hstdin, hinput, List.nil_append] at hview'
  | deliver message =>
      obtain ⟨_, rest, _, _, rfl⟩ := step_deliver h
      exact habsorb { s with stdout := rest } rfl rfl rfl _ (by simp [syscalls])
  | exitStatus status =>
      obtain ⟨_, rfl⟩ := step_exitStatus h
      exact ⟨unsent, by simpa [syscalls] using hcommands, hfit, hbytes⟩

theorem step_answersKept
    (hinv : AnswersKept hist s) (h : s.step U self a = some s') :
    AnswersKept (hist ++ [a]) s' := by
  obtain ⟨done, hsends, hlen⟩ := hinv
  cases a with
  | call client call =>
      obtain ⟨_, _, rfl⟩ := step_call h
      exact ⟨done, by simpa [syscalls] using hsends, by simpa [answers] using hlen⟩
  | giveUp | notify =>
      cases h
      exact ⟨done, by simpa [syscalls] using hsends, by simpa [answers] using hlen⟩
  | answer d =>
      obtain ⟨request, rest, hunanswered, rfl⟩ := step_answer h
      refine ⟨done ++ [request], ?_, ?_⟩
      · simpa [syscalls, hunanswered] using hsends
      · simpa [answers] using hlen
  | syscall sc =>
      obtain ⟨_, _, _, _, _, hunanswered, _, _⟩ := step_syscall h
      refine ⟨done, ?_, by simpa [answers] using hlen⟩
      rw [syscalls_append, WpaEx.sends_append, hsends, hunanswered]
      simp [syscalls, sends]
  | deliver message =>
      obtain ⟨_, _, _, _, rfl⟩ := step_deliver h
      exact ⟨done, by simpa [syscalls] using hsends, by simpa [answers] using hlen⟩
  | exitStatus status =>
      obtain ⟨_, rfl⟩ := step_exitStatus h
      exact ⟨done, by simpa [syscalls] using hsends, by simpa [answers] using hlen⟩

theorem step_bridge_aligned
    (hinv : s.bridge.Aligned) (h : s.step U self a = some s') :
    s'.bridge.Aligned := by
  cases a with
  | syscall sc =>
      obtain ⟨_, hbridge, _⟩ := step_syscall h
      exact WpaEx.step_aligned hbridge hinv
  | deliver message =>
      obtain ⟨_, _, _, _, rfl⟩ := step_deliver h
      simpa using hinv
  | call | giveUp | answer | notify | exitStatus =>
      rw [(step_outside h rfl rfl).1]
      exact hinv

/-- Every action keeps the channels. -/
theorem step_channels
    (hinv : Channels hist s) (hallowed : ShortArrivals s a)
    (h : s.step U self a = some s') :
    Channels (hist ++ [a]) s' := by
  have hshort : ∀ d ∈ arrivals (hist ++ [a]), d.length < bufferSize := by
    intro d hd
    rw [arrivals_append] at hd
    exact (List.mem_append.mp hd).elim (hinv.short d) (hallowed d)
  have harrivals := step_arrivals hinv.arrivals_eq h
  refine ⟨step_bridge_aligned hinv.aligned h, hshort, harrivals,
    step_outputs hinv.outputs_eq h, ?_, ?_, ?_⟩
  · refine step_messagesKept (fun d hd => hshort d ?_) hinv.messages h
    rw [harrivals]
    exact List.mem_append_left _ hd
  · exact step_requestsKept hinv.aligned hinv.requests h
  · exact step_answersKept hinv.answered h

theorem start_channels (port : Port) (manager : Pid) :
    Channels [] (start port manager) where
  aligned := by
    simp [start, WpaEx.start, WpaEx.Aligned, unframe?]
  short := by
    simp [arrivals]
  arrivals_eq := rfl
  outputs_eq := rfl
  messages := ⟨[], [], [], rfl, rfl, rfl, rfl, fun _ => ⟨rfl, rfl⟩⟩
  requests := by
    refine ⟨[], rfl, by simp, fun _ => ?_⟩
    simp [start, WpaEx.start, WpaEx.unsent]
  answered := ⟨[], rfl, rfl⟩

/-- After every run with short datagrams the channels are kept. -/
theorem run_channels
    {A : System → Action → Prop} (hA : ∀ s a, A s a → ShortArrivals s a)
    {port : Port} {manager : Pid}
    (hrun : Run (step U self) A (start port manager) hist s) :
    Channels hist s :=
  hrun.invariant (start_channels port manager)
    fun hinv hallowed hstep => step_channels hinv (hA _ _ hallowed) hstep

/-- The server gets the datagrams in the order of their arrival. -/
theorem Channels.delivered_isPrefix (h : Channels hist s) :
    delivered hist <+: arrivals hist := by
  obtain ⟨queued, dropped, cut, hreceives, _⟩ := h.messages
  rw [h.arrivals_eq, hreceives, List.append_assoc]
  exact List.prefix_append _ _

/-- While wpa_ex runs, a datagram is delivered or on its way. -/
theorem Channels.arrivals_of_alive
    (h : Channels hist s) (halive : ¬ s.bridge.Exited) :
    arrivals hist = delivered hist ++ s.inFlight := by
  obtain ⟨queued, dropped, cut, hreceives, _, hstdout, _, hcomplete⟩ := h.messages
  obtain ⟨rfl, rfl⟩ := hcomplete halive
  have hfit : ∀ m ∈ queued, FitsFrame m := by
    intro m hm
    refine fitsFrame_of_short (h.short m ?_)
    rw [h.arrivals_eq, hreceives]
    simp [hm]
  rw [inFlight, hstdout, List.append_nil, frames,
    packet2.parse_encode (packet2_round hfit), h.arrivals_eq, hreceives]
  simp

/-- While wpa_ex runs, a command is sent or on its way. -/
theorem Channels.commands_of_alive
    (h : Channels hist s) (halive : ¬ s.bridge.Exited) :
    commands s.effects = sends (syscalls hist) ++ s.unsent := by
  obtain ⟨unsent, hcommands, hfit, hbytes⟩ := h.requests
  rw [System.unsent, hbytes halive, frames, packet2.parse_encode (packet2_round hfit),
    hcommands]

end Invariants

end System
end WpaSupplicant
