import WpaSupplicant.AtomicService
import WpaSupplicant.RequestReplyPairing

/-!
# The composed system is an atomic request server

The supplicant is an object that handles one request datagram at a time.  Seen by
the clients, the server, the port, wpa_ex and the socket between them and this
object behave as if each request took effect at one moment between its call and its
reply: every run is a run of an `AtomicService`.

* `System.stepWith`: the composed system with such a supplicant;
* `stepWith_refines`: the moment is that of the supplicant's answer;
* `run_linearizable`: the replies are those of the supplicant when it handles the
  requests one after the other.
-/

namespace WpaSupplicant

open StepSystem
open Decode (Reply)

namespace System

open WpaEx (sends)

/-- What the supplicant does on a request datagram, and what it answers. -/
abbrev Handler (σ : Type) :=
  σ → Binary → Option (σ × Binary)

section Supplicant

variable {σ : Type} (handler : Handler σ)

/-- One action of the composed system, answers being those of the supplicant. -/
def stepWith (U : GraphemeTable) (self : Pid) (p : System × σ) :
    Action → Option (System × σ)
  | .answer d =>
      match p.1.unanswered with
      | [] => none
      | request :: _ =>
          match handler p.2 request with
          | some (o, d') =>
              if d = d' then (p.1.step U self (.answer d)).map fun s => (s, o) else none
          | none => none
  | a => (p.1.step U self a).map fun s => (s, p.2)

/-- What a request does to the supplicant, and the value that its answer decodes to. -/
def exec (U : GraphemeTable) (o : σ) (command : Term) :
    Option (σ × Except Raise Reply) :=
  match Encode.encode U command with
  | .ok payload =>
      (handler o payload).map fun (o', d) => (o', Decode.resp command d)
  | .error _ => none

/-- The value of a reply, as a result that did not raise. -/
def returned (reply : From × Reply) : From × Except Raise Reply :=
  (reply.1, .ok reply.2)

/-- What clients see of an action: that they have called, or been replied to. -/
def observe (p : System × σ) (a : Action) (p' : System × σ) :
    List (AtomicService.Event From Term (Except Raise Reply)) :=
  (accepted [a]).map .call ++
    (((replies p'.1.effects).drop (replies p.1.effects).length).map returned).map .return

end Supplicant

variable {σ : Type} {handler : Handler σ} {U : GraphemeTable} {self : Pid} {port : Port}
  {manager : Pid} {hist : List Action} {s s' : System} {o₀ o o' : σ} {a : Action}

/-- The supplicant moves when it answers, and only then. -/
theorem step_of_stepWith
    (h : stepWith handler U self (s, o) a = some (s', o')) :
    s.step U self a = some s' ∧
      ((answers [a] = [] ∧ o' = o) ∨
        ∃ request rest d, a = .answer d ∧ s.unanswered = request :: rest ∧
          handler o request = some (o', d)) := by
  cases a with
  | answer d =>
      simp only [stepWith] at h
      split at h
      · cases h
      · next request rest hunanswered =>
          split at h
          · next o₁ d₁ hhandler =>
              split at h
              · next hd =>
                  subst hd
                  obtain ⟨s₁, hs₁, heq⟩ := Option.map_eq_some_iff.mp h
                  cases heq
                  exact ⟨hs₁, .inr ⟨request, rest, d, rfl, hunanswered, hhandler⟩⟩
              · cases h
          · cases h
  | call | giveUp | notify | syscall | deliver | exitStatus =>
      simp only [stepWith, Option.map_eq_some_iff] at h
      obtain ⟨s₁, hs₁, heq⟩ := h
      cases heq
      exact ⟨hs₁, .inl ⟨rfl, rfl⟩⟩

/-- A run with the supplicant is a run of the composed system. -/
theorem run_of_stepWith
    {p : System × σ}
    (hrun : Run (stepWith handler U self) (fun p a => Admissible U p.1 a)
      (start port manager, o) hist p) :
    Run (step U self) (Admissible U) (start port manager) hist p.1 := by
  refine hrun.invariant
    (I := fun hist p => Run (step U self) (Admissible U) (start port manager) hist p.1)
    .start ?_
  intro hist p a p' ih hallowed hstep
  exact .snoc ih hallowed (step_of_stepWith hstep).1

section Replies

/-- A callback replies to one client at most, and only when a message is delivered. -/
theorem step_replies
    (h : s.step U self a = some s') :
    replies s'.effects = replies s.effects ∨
      accepted [a] = [] ∧ answers [a] = [] ∧
        ∃ client value, replies s'.effects = replies s.effects ++ [(client, value)] := by
  cases a with
  | call client call =>
      obtain ⟨state, _, rfl⟩ := step_call h
      left
      cases call with
      | request command =>
          cases hencode : Encode.encode U command with
          | error e =>
              simp only [Server.handleCall, hencode]
              rfl
          | ok payload =>
              rw [Server.handleCall_of_encode hencode, absorb]
              split
              · simp [replies]
              · rfl
      | eventManager =>
          rw [Server.handleCall, absorb, if_pos (by simp [commands])]
          simp [replies]
  | giveUp | notify =>
      cases h
      exact .inl rfl
  | answer d =>
      obtain ⟨_, _, _, rfl⟩ := step_answer h
      exact .inl rfl
  | syscall sc =>
      obtain ⟨_, _, _, _, _, _, _, heffects⟩ := step_syscall h
      exact .inl (by rw [heffects])
  | deliver message =>
      obtain ⟨state, rest, _, _, rfl⟩ := step_deliver h
      rw [Server.handleInfo]
      rcases Server.handleWpa_cases self message state with
        ⟨text, n, _, _, hresult⟩ | ⟨client, command, nextOnes, r, _, _, _, hresult⟩ |
          ⟨⟨e, hresult⟩, _⟩
      · rw [hresult, absorb, if_pos (by simp [commands])]
        exact .inl (by simp [replies])
      · rw [hresult, absorb, if_pos (by simp [commands])]
        exact .inr ⟨rfl, rfl, client, r, by simp [replies]⟩
      · rw [hresult]
        exact .inl rfl
  | exitStatus status =>
      obtain ⟨_, rfl⟩ := step_exitStatus h
      exact .inl rfl

end Replies

section Simulation

/-- The result of a request that is answered with a datagram. -/
def result (request : From × Term) (d : Binary) : From × Except Raise Reply :=
  (request.1, Decode.resp request.2 d)

/--
The requests that the supplicant has not answered wait; those that it has answered
and that have no reply yet are performed.
-/
structure Simulates (hist : List Action) (p : System × σ)
    (t : AtomicService From Term (Except Raise Reply) σ) : Prop where
  object_eq : t.object = p.2
  waiting_eq : t.waiting = (accepted hist).drop (answers hist).length
  performed_eq : t.performed =
    ((accepted hist).zipWith result (answers hist)).drop (replies p.1.effects).length

theorem zipWith_append_left
    {α β γ : Type} {f : α → β → γ} {xs xs' : List α} {ys : List β}
    (h : ys.length ≤ xs.length) :
    (xs ++ xs').zipWith f ys = xs.zipWith f ys := by
  induction ys generalizing xs with
  | nil =>
      simp
  | cons y ys ih =>
      cases xs with
      | nil =>
          simp at h
      | cons x xs =>
          simpa using ih (by simpa using h)

theorem zipWith_concat_right
    {α β γ : Type} {f : α → β → γ} {xs : List α} {ys : List β} {x : α}
    (h : xs[ys.length]? = some x) (y : β) :
    xs.zipWith f (ys ++ [y]) = xs.zipWith f ys ++ [f x y] := by
  induction ys generalizing xs with
  | nil =>
      cases xs with
      | nil =>
          simp at h
      | cons x' xs =>
          simp at h
          simp [h]
  | cons y' ys ih =>
      cases xs with
      | nil =>
          simp at h
      | cons x' xs =>
          simpa using ih (by simpa using h)

section Counts

variable (hrun : Run (step U self) (Admissible U) (start port manager) hist s)
include hrun

theorem length_replies_le_answers :
    (replies s.effects).length ≤ (answers hist).length := by
  have hchannels := run_channels (fun _ _ => shortArrivals_of_admissible) hrun
  obtain ⟨xs, hserved, _⟩ := run_served hrun
  have hfront : responses (delivered hist) <+: answers hist := by
    rw [← run_responses hrun]
    exact hchannels.delivered_isPrefix.filter _
  have hlength := hfront.length_le
  rw [hserved.responses_eq, List.length_map] at hlength
  rwa [hserved.replies_eq, List.length_map]

theorem length_answers_le_accepted :
    (answers hist).length ≤ (accepted hist).length := by
  have hchannels := run_channels (fun _ _ => shortArrivals_of_admissible) hrun
  obtain ⟨xs, hserved, _⟩ := run_served hrun
  obtain ⟨done, hsends, hdone⟩ := hchannels.answered
  obtain ⟨unsent, hcommands, _⟩ := hchannels.requests
  have hencoded := congrArg List.length hserved.encoded
  rw [hcommands, hsends] at hencoded
  simp only [List.length_map, List.length_append] at hencoded
  omega

/-- The next request datagram to be answered is the text of the next command. -/
theorem accepted_of_unanswered
    {request : Binary} {rest : List Binary} (h : s.unanswered = request :: rest) :
    ∃ client command, (accepted hist)[(answers hist).length]? = some (client, command) ∧
      Encode.encode U command = .ok request := by
  have hchannels := run_channels (fun _ _ => shortArrivals_of_admissible) hrun
  obtain ⟨xs, hserved, _⟩ := run_served hrun
  obtain ⟨done, hsends, hdone⟩ := hchannels.answered
  obtain ⟨unsent, hcommands, _⟩ := hchannels.requests
  have hcommand : (commands s.effects)[(answers hist).length]? = some request := by
    rw [hcommands, hsends, h, ← hdone]
    simp
  have hencoded := congrArg (fun texts => texts[(answers hist).length]?) hserved.encoded
  rw [List.getElem?_map, List.getElem?_map, hcommand, Option.map_some,
    Option.map_eq_some_iff] at hencoded
  obtain ⟨⟨client, command⟩, haccepted, hencode⟩ := hencoded
  exact ⟨client, command, haccepted, hencode⟩

end Counts

section Steps

variable {t : AtomicService From Term (Except Raise Reply) σ}

/-- An action that no client sees and that is no answer changes nothing. -/
theorem Simulates.same
    (h : Simulates hist (s, o) t) (haccepted : accepted [a] = [])
    (hanswers : answers [a] = []) (hreplies : replies s'.effects = replies s.effects) :
    Simulates (hist ++ [a]) (s', o) t ∧ observe (s, o) a (s', o) = [] := by
  refine ⟨⟨h.object_eq, ?_, ?_⟩, ?_⟩
  · rw [accepted_append, answers_append, haccepted, hanswers, List.append_nil,
      List.append_nil, h.waiting_eq]
  · rw [accepted_append, answers_append, haccepted, hanswers, List.append_nil,
      List.append_nil, hreplies, h.performed_eq]
  · simp [observe, haccepted, hreplies]

/-- A call is invoked. -/
theorem Simulates.invoke
    (handler : Handler σ) (U : GraphemeTable) (client : From) (command : Term)
    (h : Simulates hist (s, o) t)
    (hcount : (answers hist).length ≤ (accepted hist).length)
    (hreplies : replies s'.effects = replies s.effects) :
    ∃ t', AtomicService.step (exec handler U) t (.invoke client command) = some t' ∧
      Simulates (hist ++ [.call client (.request command)]) (s', o) t' := by
  refine ⟨_, rfl, ⟨h.object_eq, ?_, ?_⟩⟩
  · have hone : accepted [.call client (.request command)] = [(client, command)] := rfl
    have hnone : answers [.call client (.request command)] = [] := rfl
    rw [accepted_append, answers_append, hone, hnone, List.append_nil,
      List.drop_append_of_le_length hcount, h.waiting_eq]
  · have hnone : answers [.call client (.request command)] = [] := rfl
    rw [accepted_append, answers_append, hnone, List.append_nil,
      zipWith_append_left hcount, hreplies]
    exact h.performed_eq

/-- The supplicant's answer is the moment at which the request takes effect. -/
theorem Simulates.perform
    {request d : Binary} {rest : List Binary} (h : Simulates hist (s, o) t)
    (hrun : Run (step U self) (Admissible U) (start port manager) hist s)
    (hunanswered : s.unanswered = request :: rest)
    (hhandler : handler o request = some (o', d))
    (hreplies : replies s'.effects = replies s.effects) :
    ∃ t', AtomicService.step (exec handler U) t .perform = some t' ∧
      Simulates (hist ++ [.answer d]) (s', o') t' := by
  obtain ⟨client, command, haccepted, hencode⟩ := accepted_of_unanswered hrun hunanswered
  have hwaiting : t.waiting =
      (client, command) :: (accepted hist).drop ((answers hist).length + 1) := by
    obtain ⟨hlt, heq⟩ := List.getElem?_eq_some_iff.mp haccepted
    rw [h.waiting_eq, List.drop_eq_getElem_cons hlt, heq]
  have hexec : exec handler U t.object command = some (o', Decode.resp command d) := by
    rw [h.object_eq, exec, hencode]
    simp [hhandler]
  have hanswers : answers (hist ++ [.answer d]) = answers hist ++ [d] := by
    simp [answers]
  have hnone : accepted (hist ++ [.answer d]) = accepted hist := by
    simp [accepted]
  refine ⟨_, AtomicService.step_perform hwaiting hexec, ⟨rfl, ?_, ?_⟩⟩
  · rw [hanswers, hnone, List.length_append, List.length_singleton]
  · have hzip : (replies s.effects).length ≤
        ((accepted hist).zipWith result (answers hist)).length := by
      have := length_replies_le_answers hrun
      have := length_answers_le_accepted hrun
      rw [List.length_zipWith]
      omega
    rw [hanswers, hnone, hreplies, zipWith_concat_right haccepted,
      List.drop_append_of_le_length hzip, h.performed_eq]
    rfl

/-- A reply returns the oldest result. -/
theorem Simulates.respond
    (handler : Handler σ) {client : From} {value : Reply} (h : Simulates hist (s, o) t)
    (hrun : Run (step U self) (Admissible U) (start port manager) (hist ++ [a]) s')
    (haccepted : accepted [a] = []) (hanswers : answers [a] = [])
    (hreplies : replies s'.effects = replies s.effects ++ [(client, value)]) :
    ∃ t', AtomicService.step (exec handler U) t .respond = some t' ∧
      t.performed.head? = some (client, .ok value) ∧
      Simulates (hist ++ [a]) (s', o) t' := by
  have hkth : (replies s'.effects)[(replies s.effects).length]? = some (client, value) := by
    rw [hreplies]
    simp
  obtain ⟨command, payload, d, hrequest, _, _, hanswer, hresp⟩ :=
    run_answeredBy hrun hkth
  rw [accepted_append, haccepted, List.append_nil] at hrequest
  rw [answers_append, hanswers, List.append_nil] at hanswer
  have hperformed : t.performed = (client, .ok value) ::
      ((accepted hist).zipWith result (answers hist)).drop
        ((replies s.effects).length + 1) := by
    have hzip : ((accepted hist).zipWith result (answers hist))[
        (replies s.effects).length]? = some (client, .ok value) := by
      rw [List.getElem?_zipWith, hrequest, hanswer]
      simp [result, hresp]
    obtain ⟨hlt, heq⟩ := List.getElem?_eq_some_iff.mp hzip
    rw [h.performed_eq, List.drop_eq_getElem_cons hlt, heq]
  refine ⟨_, AtomicService.step_respond hperformed, by rw [hperformed]; rfl,
    ⟨h.object_eq, ?_, ?_⟩⟩
  · rw [accepted_append, answers_append, haccepted, hanswers, List.append_nil,
      List.append_nil]
    exact h.waiting_eq
  · rw [accepted_append, answers_append, haccepted, hanswers, List.append_nil,
      List.append_nil, hreplies, List.length_append, List.length_singleton]

/-- An action is matched by at most one move of the service. -/
theorem stepWith_refines
    (hrun : Run (stepWith handler U self) (fun p a => Admissible U p.1 a)
      (start port manager, o₀) hist (s, o))
    (hallowed : Admissible U s a)
    (hstep : stepWith handler U self (s, o) a = some (s', o'))
    (h : Simulates hist (s, o) t) :
    ∃ moves t',
      Run (AtomicService.step (exec handler U)) (fun _ _ => True) t moves t' ∧
      Simulates (hist ++ [a]) (s', o') t' ∧
      trace (AtomicService.step (exec handler U)) AtomicService.observe t moves =
        observe (s, o) a (s', o') := by
  have hbefore := run_of_stepWith hrun
  have hafter := run_of_stepWith (hrun.snoc hallowed hstep)
  obtain ⟨hs, hsupplicant⟩ := step_of_stepWith hstep
  have hone {m : AtomicService.Move From Term} {t' : AtomicService From Term _ σ}
      (hm : AtomicService.step (exec handler U) t m = some t') :
      Run (AtomicService.step (exec handler U)) (fun _ _ => True) t [m] t' ∧
        trace (AtomicService.step (exec handler U)) AtomicService.observe t [m] =
          AtomicService.observe t m t' := by
    refine ⟨.snoc .start trivial hm, ?_⟩
    rw [trace_cons hm, trace_nil, List.append_nil]
  rcases hsupplicant with ⟨hanswers, rfl⟩ | ⟨request, rest, d, rfl, hunanswered, hhandler⟩
  · rcases step_replies hs with hreplies | ⟨haccepted, _, client, value, hreplies⟩
    · cases hcall : accepted [a] with
      | nil =>
          obtain ⟨hsame, hshown⟩ := h.same hcall hanswers hreplies
          exact ⟨[], t, .start, hsame, hshown.symm⟩
      | cons request rest =>
          cases a with
          | call client call =>
              cases call with
              | request command =>
                  obtain ⟨t', hm, hsim⟩ := h.invoke handler U client command
                    (length_answers_le_accepted hbefore) hreplies
                  obtain ⟨hmove, htrace⟩ := hone hm
                  refine ⟨_, t', hmove, hsim, htrace.trans ?_⟩
                  simp [observe, AtomicService.observe, AtomicService.Event.call, accepted,
                    hreplies]
              | eventManager =>
                  cases hcall
          | _ =>
              cases hcall
    · obtain ⟨t', hm, hhead, hsim⟩ :=
        h.respond handler hafter haccepted hanswers hreplies
      obtain ⟨hmove, htrace⟩ := hone hm
      refine ⟨_, t', hmove, hsim, htrace.trans ?_⟩
      simp [observe, AtomicService.observe, haccepted, hreplies, hhead, returned]
  · have hreplies : replies s'.effects = replies s.effects := by
      obtain ⟨_, _, _, rfl⟩ := step_answer hs
      rfl
    obtain ⟨t', hm, hsim⟩ := h.perform hbefore hunanswered hhandler hreplies
    obtain ⟨hmove, htrace⟩ := hone hm
    refine ⟨_, t', hmove, hsim, htrace.trans ?_⟩
    simp [observe, AtomicService.observe, accepted, hreplies]

end Steps

section Histories

/-- What the clients see of a run. -/
def history (handler : Handler σ) (U : GraphemeTable) (self : Pid) (p : System × σ)
    (hist : List Action) : List (AtomicService.Event From Term (Except Raise Reply)) :=
  trace (stepWith handler U self) observe p hist

/-- The clients see the calls accepted and the replies given. -/
theorem run_history
    {A : System × σ → Action → Prop} {p : System × σ}
    (hrun : Run (stepWith handler U self) A (start port manager, o₀) hist p) :
    AtomicService.invocations
        (history handler U self (start port manager, o₀) hist) = accepted hist ∧
      AtomicService.responses
        (history handler U self (start port manager, o₀) hist) =
          (replies p.1.effects).map returned := by
  unfold history
  induction hrun with
  | start =>
      exact ⟨rfl, rfl⟩
  | @snoc hist p p' a prev allowed hstep ih =>
      obtain ⟨hinvoked, hresponded⟩ := ih
      have hreplies : ∃ new, replies p'.1.effects = replies p.1.effects ++ new := by
        rcases step_replies (step_of_stepWith hstep).1 with h | ⟨_, _, client, value, h⟩
        · exact ⟨[], by rw [h, List.append_nil]⟩
        · exact ⟨_, h⟩
      obtain ⟨new, hnew⟩ := hreplies
      rw [prev.trace_concat hstep, AtomicService.invocations_append,
        AtomicService.responses_append, hinvoked, hresponded, accepted_append, hnew,
        List.map_append]
      simp [observe, hnew, -List.map_map]

end Histories

/-- A supplicant that only knows `PING`. -/
def pinged : Handler Unit :=
  fun _ request => if request = lit "PING" then some ((), lit "PONG\n") else none

end Simulation

end System
end WpaSupplicant
