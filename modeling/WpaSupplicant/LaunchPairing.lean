import WpaSupplicant.PendingWork
import WpaSupplicant.WholeSystem

/-!
# Requests and replies from the launch on

The supplicant answers `ATTACH` like any other request, though no client has asked for it.  If
its answers can be told from its notifications, `wpa_ctrl_attach` gets the first of them, and
what waits for the main loop is notifications.

* `run_sent`, `run_answered`: what the program has sent, and how much of it is answered;
* `starts_of_admissible`: what has come when the main loop begins;
* `carries_admissible`: so the assumptions on the composed system hold in the matching run;
* `launch_paired`: and requests and replies are paired.
-/

namespace WpaSupplicant

open StepSystem (Run run? run_of_run?)
open Decode (Reply)
open WpaEx (Main MainCall Invocation sends unsolicited solicited)

namespace WpaEx.Main

variable {inv : Invocation} {calls : List MainCall} {m : Main}

/-- Before the main loop nothing of it is to be seen. -/
theorem visibleCalls_of_came (h : Came inv calls m) (hnone : m.loop? = none) :
    visibleCalls calls = [] := by
  cases m with
  | running l =>
      cases hnone
  | attaching r =>
      exact h.2.2
  | opening | exited =>
      exact h.2

theorem sent_eq (c : MainCall) :
    c.sent = CtrlRequest.sent (attachCalls [c]) ++ sends c.visible := by
  cases c with
  | attaching c =>
      exact (List.append_nil _).symm
  | opening | request | loop =>
      rfl

/-- What the program sends: what `wpa_ctrl_attach` sends, and then what the main loop does. -/
theorem run_sent
    (hrun : Run (step inv) Permits (start inv) calls m) :
    calls.flatMap MainCall.sent =
      CtrlRequest.sent (attachCalls calls) ++ sends (visibleCalls calls) := by
  induction hrun with
  | start =>
      rfl
  | @snoc calls m m' c prev hpermits hstep ih =>
      have hcame := run_came prev
      have hone : visibleCalls calls = [] ∨ attachCalls [c] = [] := by
        cases m with
        | running l =>
            obtain ⟨l', hstep, _⟩ := Option.map_eq_some_iff.mp hstep
            exact .inr (attachCalls_of_loop hstep)
        | opening | attaching | exited =>
            exact .inl (visibleCalls_of_came hcame rfl)
      have hsent : CtrlRequest.sent (attachCalls calls ++ attachCalls [c]) =
          CtrlRequest.sent (attachCalls calls) ++ CtrlRequest.sent (attachCalls [c]) :=
        List.flatMap_append
      rw [List.flatMap_append, List.flatMap_singleton, ih, attachCalls_concat, hsent,
        visibleCalls_concat, WpaEx.sends_append, sent_eq]
      rcases hone with hnone | hnone
      · rw [hnone]
        simp [sends]
      · rw [hnone]
        simp [CtrlRequest.sent]

end WpaEx.Main

namespace System

variable {U : GraphemeTable} {s s' : System} {a : Action}

/-- The assumptions are about the server and the messages. -/
theorem admissible_congr (h : s.server = s'.server) (hs : Admissible U s a) :
    Admissible U s' a := by
  cases a with
  | call client call =>
      cases call <;> exact hs
  | deliver message =>
      exact fun state hstate => hs state (h ▸ hstate)
  | giveUp | answer | notify | syscall | exitStatus =>
      exact hs

theorem accepted_filter (hist : List Action) :
    accepted (hist.filter Action.isCallback) = accepted hist := by
  rw [accepted, accepted, List.filterMap_filter]
  congr 1
  funext a
  cases a <;> rfl

end System

namespace WholeSystem

/-- The assumptions on clients, on the supplicant and on the codec. -/
def Admissible (U : GraphemeTable) (w : WholeSystem) (a : WholeAction) : Prop :=
  match a with
  | .outside a => System.Admissible U w.view a
  | .program _ => True

instance (U : GraphemeTable) (w : WholeSystem) (a : WholeAction) :
    Decidable (Admissible U w a) :=
  match a with
  | .outside a => inferInstanceAs (Decidable (System.Admissible U w.view a))
  | .program _ => .isTrue trivial

/-- What the program has sent to the supplicant, `ATTACH` included. -/
def datagrams (hist : List WholeAction) : List Binary :=
  (programCalls hist).flatMap MainCall.sent

/-- The requests that the main loop has sent. -/
def requestsSent (hist : List WholeAction) : List Binary :=
  sends (Main.visibleCalls (programCalls hist))

/-- A notification, and not too long. -/
def IsNote (d : Binary) : Prop :=
  d.length ≤ 2047 ∧ HasPriority d

variable {B : WholeSystem → WholeAction → Prop}
variable {U : GraphemeTable} {self : Pid} {inv : Invocation} {port : Port} {manager : Pid}
variable {hist : List WholeAction} {w w' : WholeSystem} {c : MainCall}

theorem datagrams_concat (hist : List WholeAction) (a : WholeAction) :
    datagrams (hist ++ [a]) = datagrams hist ++ datagrams [a] := by
  rw [datagrams, programCalls_concat, List.flatMap_append]
  rfl

/-- Each answer is for one datagram. -/
theorem run_answered
    (hrun : Run (step U self inv) B (start inv port manager) hist w) :
    (System.answers (outside hist)).length + w.unanswered.length = (datagrams hist).length := by
  refine hrun.invariant (I := fun hist w => (System.answers (outside hist)).length +
    w.unanswered.length = (datagrams hist).length) rfl ?_
  intro hist w a w' ih _ hstep
  rw [outside_concat, System.answers_append, datagrams_concat, List.length_append,
    List.length_append, ← ih]
  cases a with
  | outside a =>
      obtain ⟨v, hv, rfl⟩ := step_outside hstep
      cases a with
      | answer d =>
          obtain ⟨r, rest, hrest, rfl⟩ := System.step_answer hv
          have hlength : w.unanswered.length = rest.length + 1 := congrArg List.length hrest
          have hnone : datagrams [.outside (.answer d)] = [] := rfl
          rw [hlength, hnone, List.length_nil, Nat.add_zero, Nat.add_comm rest.length 1,
            ← Nat.add_assoc]
          rfl
      | notify d =>
          cases hv
          rfl
      | syscall sc =>
          cases hstep
      | call | giveUp | deliver | exitStatus =>
          obtain ⟨_, hunanswered, _⟩ := System.step_callback rfl hv
          rw [withOutside, hunanswered]
          rfl
  | program c =>
      have hmoves := step_program hstep
      have hsent : datagrams [.program c] = c.sent := List.flatMap_singleton ..
      rw [hmoves.unanswered, hsent, List.length_append, ← Nat.add_assoc]
      rfl

/-- The first messages are those that `wpa_ctrl_attach` takes, as long as it does. -/
theorem arrivals_of_starting
    (hrun : Run (step U self inv) B (start inv port manager) hist w) (hw : ¬ w.Started) :
    System.arrivals (outside hist) = attachMessages hist ++ w.socket := by
  obtain ⟨_, _, h⟩ := run_refined (carries_true _) (hrun.restrict fun _ _ _ _ => trivial)
  exact (h.starting hw).2.1

/-- The answers are solicited, and what is not is a notification. -/
def Sorted (hist : List WholeAction) : Prop :=
  solicited (System.arrivals (outside hist)) = System.answers (outside hist) ∧
    ∀ d ∈ System.arrivals (outside hist), unsolicited d → IsNote d

theorem sorted_of_admissible {a : WholeAction} (h : Admissible U w a) : Sorted [a] := by
  cases a with
  | outside a =>
      cases a with
      | answer d =>
          have hd : unsolicited d = false := h.2
          simp [Sorted, outside, System.arrivals, System.answers, solicited, hd]
      | notify d =>
          have hd : unsolicited d = true := h.2.unsolicited
          have hnote : IsNote d := h
          simp [Sorted, outside, System.arrivals, System.answers, solicited, hd, hnote]
      | call | giveUp | deliver | syscall | exitStatus =>
          simp [Sorted, outside, System.arrivals, System.answers, solicited]
  | program c =>
      simp [Sorted, outside, System.arrivals, System.answers, solicited]

theorem run_sorted
    (hrun : Run (step U self inv) (Admissible U) (start inv port manager) hist w) :
    Sorted hist := by
  refine hrun.invariant (I := fun hist _ => Sorted hist) ⟨rfl, fun d hd => by cases hd⟩ ?_
  intro hist w a w' ⟨hsolicited, hnotes⟩ hallowed _
  obtain ⟨hsolicited', hnotes'⟩ := sorted_of_admissible hallowed
  refine ⟨?_, fun d hd => ?_⟩
  · rw [outside_concat, System.arrivals_append, System.answers_append,
      WpaEx.solicited_append, hsolicited, hsolicited']
  · rw [outside_concat, System.arrivals_append] at hd
    exact (List.mem_append.mp hd).elim (hnotes d) (hnotes' d)

/-- Of what `wpa_ctrl_attach` has taken only the confirmation is solicited. -/
theorem solicited_of_confirmed {ds : List Binary} (h : CtrlRequest.Confirmed ds) :
    solicited ds = [CtrlRequest.okReply] := by
  obtain ⟨front, rfl, hfront⟩ := h
  have hnone : solicited front = [] := by
    refine List.filter_eq_nil_iff.mpr fun d hd => ?_
    simp [unsolicited, hfront d hd]
  have hok : solicited [CtrlRequest.okReply] = [CtrlRequest.okReply] := by
    decide +kernel
  rw [WpaEx.solicited_append, hnone, hok, List.nil_append]

/-- Once the main loop has begun, its requests have been sent behind `ATTACH`. -/
theorem datagrams_of_started
    (hrun : Run (step U self inv) B (start inv port manager) hist w) (hw : w.Started) :
    datagrams hist = lit "ATTACH" :: requestsSent hist := by
  rw [datagrams, Main.run_sent (run_program hrun), (attached_of_started hrun hw).1]
  rfl

/-- When the main loop begins, no answer is due, and what waits is notifications. -/
theorem starts_of_admissible
    (hrun : Run (step U self inv) (Admissible U) (start inv port manager) hist w)
    (hw : ¬ w.Started) (hstep : w.step U self inv (.program c) = some w') (hw' : w'.Started) :
    w'.unanswered = [] ∧ ∀ d ∈ w'.socket, IsNote d := by
  have hmoves := step_program hstep
  have hrun' : Run (step U self inv) (Admissible U) (start inv port manager)
      (hist ++ [.program c]) w' := hrun.snoc trivial hstep
  have hrequests : requestsSent (hist ++ [.program c]) = [] := by
    have hnone : w.program.loop? = none := by simpa [Started] using hw
    obtain ⟨_, hvisible, _⟩ := Main.startup_cases hmoves.program hnone
    have hbefore := Main.visibleCalls_of_came (Main.run_came (run_program hrun)) hnone
    have hone : programCalls [.program c] = [c] := rfl
    rw [requestsSent, programCalls_concat, hone, Main.visibleCalls_concat, hbefore, hvisible]
    rfl
  have hsent := datagrams_of_started hrun' hw'
  have hconfirmed := solicited_of_confirmed (attached_of_started hrun' hw').2
  obtain ⟨hsolicited, hnotes⟩ := run_sorted hrun'
  have harrivals := arrivals_of_startup hw hmoves (arrivals_of_starting hrun hw)
  -- one datagram has been sent, and its answer is the confirmation
  have hanswered := run_answered hrun'
  rw [hsent, hrequests] at hanswered
  rw [harrivals, WpaEx.solicited_append, attachMessages, hconfirmed] at hsolicited
  rw [← hsolicited] at hanswered
  simp only [List.length_append, List.length_cons, List.length_nil] at hanswered
  have hnone : solicited w'.socket = [] := List.eq_nil_of_length_eq_zero (by omega)
  refine ⟨List.eq_nil_of_length_eq_zero (by omega), fun d hd => hnotes d ?_ ?_⟩
  · rw [harrivals]
    exact List.mem_append_right _ hd
  · have hd' := List.filter_eq_nil_iff.mp hnone d hd
    simpa using hd'

/-- The assumptions on the whole system make those on the composed one hold. -/
theorem carries_admissible :
    Carries (System.Admissible U) (Admissible U) U self inv (start inv port manager) where
  outside _ _ _ hallowed hserver := System.admissible_congr hserver.symm hallowed
  startup _ := trivial
  starts _ _ _ _ hrun hw hstep hw' :=
    have ⟨hanswered, hnotes⟩ := starts_of_admissible hrun hw hstep hw'
    ⟨.inl hanswered, fun _ => hnotes⟩
  loop _ _ _ _ _ _ := trivial

/--
The `k`-th request came from the client and was sent as the `k`-th datagram after `ATTACH`, and
the `k`-th answer of the supplicant after the one to `ATTACH` decodes to the value.
-/
def AnsweredBy (U : GraphemeTable) (hist : List WholeAction) (k : Nat) (client : From)
    (value : Reply) : Prop :=
  ∃ (command : Term) (payload d : Binary),
    (System.accepted (outside hist))[k]? = some (client, command) ∧
    Encode.encode U command = .ok payload ∧
    (datagrams hist)[k + 1]? = some payload ∧
    (System.answers (outside hist))[k + 1]? = some d ∧
    Decode.resp command d = .ok value

/-- Requests and replies are paired, from the launch of the program on. -/
structure Paired (U : GraphemeTable) (hist : List WholeAction) (w : WholeSystem) : Prop where
  /-- The first datagram is `ATTACH`, and the first answer is for it. -/
  attached : w.Started →
    (datagrams hist).head? = some (lit "ATTACH") ∧
      (System.answers (outside hist)).head? = some CtrlRequest.okReply
  kth : ∀ k client value, (replies w.effects)[k]? = some (client, value) →
    AnsweredBy U hist k client value
  /-- The requests without a reply are pending. -/
  pending : ∀ state ∈ w.server,
    state.requests =
      (System.accepted (outside hist)).drop (replies w.effects).length
  alive : ¬ w.program.bridge.Exited → w.server.isSome
  /-- A request is sent or on its way, also while the program is still attaching. -/
  sent : ¬ w.program.bridge.Exited →
    (System.accepted (outside hist)).map (fun r => Encode.encode U r.2) =
      (requestsSent hist ++ w.view.unsent).map .ok
  answered : (System.answers (outside hist)).length + w.unanswered.length =
    (datagrams hist).length

variable {hist' : List Action} {s : System}

section Pairing

variable (h : Refined (System.Admissible U) U self (System.start port manager) hist w hist' s)
include h

/-- Requests are answered in the matching run only once the main loop has begun. -/
theorem started_of_answer {k : Nat} {d : Binary} (hk : (System.answers hist')[k]? = some d) :
    w.Started := by
  by_contra hw
  have hnone : System.answers hist' = [] := by
    rw [← System.solicited_arrivals h.run, (h.starting hw).2.2]
    rfl
  rw [hnone] at hk
  cases hk

variable (hrun : Run (step U self inv) (Admissible U) (start inv port manager) hist w)
include hrun

/-- In the matching run there is one answer less, the one to `ATTACH`. -/
theorem answers_of_started (hw : w.Started) :
    System.answers (outside hist) = CtrlRequest.okReply :: System.answers hist' := by
  have harrivals := (h.started hw).2.2
  have hconfirmed := solicited_of_confirmed (attached_of_started hrun hw).2
  rw [← (run_sorted hrun).1, ← System.solicited_arrivals h.run, harrivals,
    WpaEx.solicited_append, attachMessages, hconfirmed]
  rfl

theorem answeredBy_of_refined
    {k : Nat} {client : From} {value : Reply}
    (hk : (replies s.effects)[k]? = some (client, value)) :
    AnsweredBy U hist k client value := by
  obtain ⟨command, payload, d, haccepted, hencode, hsent, hanswer, hdecode⟩ :=
    System.run_answeredBy h.run hk
  have hw := started_of_answer h hanswer
  refine ⟨command, payload, d, ?_, hencode, ?_, ?_, hdecode⟩
  · rwa [← System.accepted_filter, ← h.callbacks, System.accepted_filter]
  · rw [datagrams_of_started hrun hw, List.getElem?_cons_succ, requestsSent, ← h.sent]
    exact hsent
  · rw [answers_of_started h hrun hw, List.getElem?_cons_succ]
    exact hanswer

end Pairing

/--
A client calls before the program is attached, and gets its reply past the confirmation and
two notifications.
-/
def launchPing : List WholeAction :=
  launchCalls ++
    [.program (.loop (.pending false)), .program (.loop (.poll (.ready true false))),
      .program (.loop (.read (.bytes (frame (lit "PING"))))),
      .program (.request (.send (lit "PING") .ok)), .program (.request (.select .ready)),
      .outside (.answer (lit "PONG\n")),
      .program (.request (.recv 2048 (.datagram (lit "PONG\n")))),
      .program (.loop (.writev (frame (lit "PONG\n")) (.written 7))),
      .outside (.deliver (lit "PONG\n"))]

end WholeSystem
end WpaSupplicant
