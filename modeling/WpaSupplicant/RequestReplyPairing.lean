import WpaSupplicant.BridgeOrdering
import WpaSupplicant.ClassifierAgreement

/-!
# Whose reply is whose

The server keeps no number with a request: a response goes to the oldest
request that is pending.  With a supplicant that answers request datagrams one
by one this is the request the response answers, as the queue of the server,
the frames that are not sent, the datagrams that are not answered and the
responses that are on their way always add up.

* `step_served`: a callback keeps the exchanges that are over;
* `run_paired`: the `k`-th reply goes to the client of the `k`-th request.
-/

namespace WpaSupplicant

open StepSystem (Run)
open Decode (Reply)

/-- A request that has been answered. -/
structure Exchange where
  client : From
  command : Term
  response : Binary
  value : Reply
  decoded : Decode.resp command response = .ok value

namespace Exchange

/-- The request, as the server queues it. -/
def request (x : Exchange) : From × Term :=
  (x.client, x.command)

/-- The `GenServer.reply` that the exchange ends with. -/
def reply (x : Exchange) : From × Reply :=
  (x.client, x.value)

end Exchange

/-- The responses given to clients. -/
def replies (effects : List Effect) : List (From × Reply) :=
  effects.filterMap fun
    | .reply client (.response value) => some (client, value)
    | _ => none

/-- The messages that the server takes for responses. -/
def responses (messages : List Binary) : List Binary :=
  messages.filter fun message => (Server.notification? message).isNone

@[simp] theorem replies_append (xs ys : List Effect) :
    replies (xs ++ ys) = replies xs ++ replies ys :=
  List.filterMap_append

@[simp] theorem responses_append (xs ys : List Binary) :
    responses (xs ++ ys) = responses xs ++ responses ys :=
  List.filter_append ..

namespace System

open WpaEx (sends receives unsolicited)

/-- Commands that have a text of at most 2046 bytes. -/
def HasShortText (U : GraphemeTable) (command : Term) : Prop :=
  match Encode.encode U command with
  | .ok payload => payload.length ≤ 2046
  | .error _ => False

/-- The decoder that the message reaches does not raise. -/
def Decodes (message : Binary) (state : ServerState) : Prop :=
  match Server.notification? message with
  | some text => Returns (Decode.notif text)
  | none => ∀ request ∈ state.requests.head?, Returns (Decode.resp request.2 message)

/-- The assumptions on clients, on the supplicant and on the codec. -/
def Admissible (U : GraphemeTable) (s : System) (a : Action) : Prop :=
  match a with
  | .call _ (.request command) => HasShortText U command
  | .answer d => d.length ≤ 2047 ∧ unsolicited d = false
  | .notify d => d.length ≤ 2047 ∧ HasPriority d
  | .deliver message => ∀ state ∈ s.server, Decodes message state
  | _ => True

section Decidability

instance (U : GraphemeTable) (command : Term) : Decidable (HasShortText U command) :=
  match h : Encode.encode U command with
  | .ok payload => decidable_of_iff (payload.length ≤ 2046) (by simp [HasShortText, h])
  | .error _ => .isFalse (by simp [HasShortText, h])

instance (d : Binary) : Decidable (HasPriority d) :=
  decidable_of_iff _ (isSome_notification?_iff d)

instance (message : Binary) (state : ServerState) : Decidable (Decodes message state) :=
  match h : Server.notification? message with
  | some text => decidable_of_iff (Returns (Decode.notif text)) (by simp [Decodes, h])
  | none =>
      decidable_of_iff
        (∀ request ∈ state.requests.head?, Returns (Decode.resp request.2 message))
        (by simp [Decodes, h])

instance (U : GraphemeTable) (s : System) (a : Action) : Decidable (Admissible U s a) :=
  match a with
  | .call _ (.request command) => inferInstanceAs (Decidable (HasShortText U command))
  | .call _ .eventManager => .isTrue trivial
  | .giveUp _ | .syscall _ | .exitStatus _ => .isTrue trivial
  | .answer _ | .notify _ => inferInstanceAs (Decidable (_ ∧ _))
  | .deliver message => inferInstanceAs (Decidable (∀ state ∈ s.server, Decodes message state))

end Decidability

variable {U : GraphemeTable} {self : Pid} {port : Port} {manager : Pid}
  {hist : List Action} {s s' : System} {a : Action}

theorem shortArrivals_of_admissible (h : Admissible U s a) : ShortArrivals s a := by
  intro d hd
  cases a with
  | answer d' | notify d' =>
      obtain rfl : d = d' := by simpa [arrivals] using hd
      exact Nat.lt_of_le_of_lt h.1 (by decide)
  | _ =>
      simp [arrivals] at hd

/-- The server tells the replies of the supplicant from its notifications. -/
theorem run_responses
    (hrun : Run (step U self) (Admissible U) (start port manager) hist s) :
    responses (arrivals hist) = answers hist := by
  refine hrun.invariant (I := fun hist _ => responses (arrivals hist) = answers hist)
    rfl ?_
  intro hist s a s' ih hallowed _
  rw [arrivals_append, answers_append, responses_append, ih]
  cases a with
  | answer d =>
      have hnone : Server.notification? d = none := by
        rw [← Option.not_isSome_iff_eq_none, isSome_notification?_iff]
        intro hd
        simpa [hallowed.2] using hd.unsolicited
      simp [responses, arrivals, answers, hnone]
  | notify d =>
      have hsome := (isSome_notification?_iff d).mpr hallowed.2
      simpa [responses, arrivals, answers, Option.isSome_iff_ne_none] using hsome
  | _ =>
      simp [responses, arrivals, answers]

/-- The requests that are over, and those that are pending. -/
structure Served (U : GraphemeTable) (hist : List Action) (s : System)
    (xs : List Exchange) : Prop where
  replies_eq : replies s.effects = xs.map Exchange.reply
  responses_eq : responses (delivered hist) = xs.map Exchange.response
  isPrefix : xs.map Exchange.request <+: accepted hist
  pending : ∀ state ∈ s.server,
    accepted hist = xs.map Exchange.request ++ state.requests
  encoded : (accepted hist).map (fun r => Encode.encode U r.2) =
    (commands s.effects).map .ok

section Step

variable {xs : List Exchange}

/-- Whatever is no callback leaves the exchanges alone. -/
theorem Served.same
    (h : Served U hist s xs) (hserver : ∀ state ∈ s'.server, state ∈ s.server)
    (heffects : s'.effects = s.effects)
    (haccepted : accepted [a] = []) (hdelivered : delivered [a] = []) :
    Served U (hist ++ [a]) s' xs := by
  have haccepted' : accepted (hist ++ [a]) = accepted hist := by
    rw [accepted_append, haccepted, List.append_nil]
  have hdelivered' : delivered (hist ++ [a]) = delivered hist := by
    rw [delivered_append, hdelivered, List.append_nil]
  exact {
    replies_eq := by rw [heffects, h.replies_eq]
    responses_eq := by rw [hdelivered', h.responses_eq]
    isPrefix := by rw [haccepted']; exact h.isPrefix
    pending := fun state hstate => by rw [haccepted', h.pending state (hserver state hstate)]
    encoded := by rw [haccepted', heffects, h.encoded] }

/-- A callback that goes on ends some exchanges and leaves the others pending. -/
theorem Served.callback
    {ys : List Exchange} {effects : List Effect} {state state' : ServerState}
    (h : Served U hist s xs) (hserver : s.server = some state)
    (hserver' : s'.server = some state') (heffects : s'.effects = s.effects ++ effects)
    (hreplies : replies effects = ys.map Exchange.reply)
    (hresponses : responses (delivered [a]) = ys.map Exchange.response)
    (hpending : state.requests ++ accepted [a] =
      ys.map Exchange.request ++ state'.requests)
    (hencoded : (accepted [a]).map (fun r => Encode.encode U r.2) =
      (commands effects).map .ok) :
    Served U (hist ++ [a]) s' (xs ++ ys) := by
  have haccepted : accepted (hist ++ [a]) =
      (xs ++ ys).map Exchange.request ++ state'.requests := by
    rw [accepted_append, h.pending state hserver, List.append_assoc, hpending]
    simp
  refine ⟨?_, ?_, ?_, ?_, ?_⟩
  · rw [heffects, replies_append, h.replies_eq, hreplies, List.map_append]
  · rw [delivered_append, responses_append, h.responses_eq, hresponses, List.map_append]
  · rw [haccepted]
    exact List.prefix_append _ _
  · intro state₁ hstate₁
    rw [hserver', Option.mem_some_iff] at hstate₁
    rw [haccepted, hstate₁]
  · rw [accepted_append, List.map_append, h.encoded, hencoded, heffects, commands_append,
      List.map_append]

/-- A request is queued behind those that are pending. -/
theorem served_call
    {client : From} {command : Term} (h : Served U hist s xs)
    (hallowed : HasShortText U command)
    (hstep : s.step U self (.call client (.request command)) = some s') :
    Served U (hist ++ [.call client (.request command)]) s' xs ∧ s'.server.isSome := by
  obtain ⟨state, hserver, rfl⟩ := step_call hstep
  unfold HasShortText at hallowed
  split at hallowed
  · next payload hencode =>
      have hfit : ∀ p ∈ commands [.command state.port payload], FitsFrame p := by
        simp [commands, FitsFrame]
        omega
      rw [Server.handleCall_of_encode hencode, absorb, if_pos hfit]
      refine ⟨?_, rfl⟩
      rw [← List.append_nil xs]
      exact h.callback hserver rfl rfl rfl rfl rfl (by simp [accepted, commands, hencode])
  · exact hallowed.elim

/-- A response is for the oldest request; a notification is for no client. -/
theorem served_deliver
    {message : Binary} (h : Served U hist s xs)
    (hallowed : ∀ state ∈ s.server, Decodes message state)
    (hcount : (responses (delivered (hist ++ [.deliver message]))).length ≤
      (commands s'.effects).length)
    (hstep : s.step U self (.deliver message) = some s') :
    ∃ xs', Served U (hist ++ [.deliver message]) s' xs' ∧ s'.server.isSome := by
  obtain ⟨state, rest, hserver, _, rfl⟩ := step_deliver hstep
  have hdecodes := hallowed state hserver
  rw [Server.handleInfo] at hcount ⊢
  rcases Server.handleWpa_cases self message state with
    ⟨text, n, hmessage, _, hresult⟩ |
      ⟨client, command, nextOnes, r, hmessage, hrequests, hresp, hresult⟩ |
      ⟨⟨e, hresult⟩, hraises⟩
  · rw [hresult, absorb, if_pos (by simp [commands])]
    refine ⟨xs ++ [], h.callback hserver rfl rfl rfl ?_ ?_ rfl, rfl⟩
    · simp [delivered, responses, hmessage]
    · simp [accepted]
  · rw [hresult, absorb, if_pos (by simp [commands])]
    refine ⟨xs ++ [⟨client, command, message, r, hresp⟩],
      h.callback hserver rfl rfl rfl ?_ ?_ rfl, rfl⟩
    · simp [delivered, responses, hmessage]
    · simp [accepted, hrequests, Exchange.request]
  · -- with a request pending, only a decoder that raises can get here
    cases hraises with
    | notification text hmessage hnotif =>
        simp only [Decodes, hmessage] at hdecodes
        exact absurd hdecodes hnotif
    | response client command nextOnes hmessage hrequests hresp =>
        simp only [Decodes, hmessage, hrequests] at hdecodes
        exact absurd (hdecodes _ rfl) hresp
    | unexpected hmessage hrequests =>
        have hencoded := congrArg List.length h.encoded
        rw [h.pending state hserver, hrequests] at hencoded
        rw [delivered_append, responses_append, h.responses_eq, hresult, absorb] at hcount
        simp [delivered, responses, hmessage] at hcount hencoded
        omega

theorem step_served
    (h : Served U hist s xs) (hallowed : Admissible U s a)
    (hcount : (responses (delivered (hist ++ [a]))).length ≤
      (commands s'.effects).length)
    (hstep : s.step U self a = some s') :
    ∃ xs', Served U (hist ++ [a]) s' xs' ∧
      (s.server.isSome → s.bridge.Exited ∨ s'.server.isSome) := by
  cases a with
  | call client call =>
      cases call with
      | request command =>
          obtain ⟨hserved, hserver⟩ := served_call h hallowed hstep
          exact ⟨xs, hserved, fun _ => .inr hserver⟩
      | eventManager =>
          obtain ⟨state, hserver, rfl⟩ := step_call hstep
          rw [Server.handleCall, absorb, if_pos (by simp [commands])]
          refine ⟨xs ++ [], h.callback hserver rfl rfl rfl rfl ?_ rfl, fun _ => .inr rfl⟩
          simp [accepted]
  | deliver message =>
      obtain ⟨xs', hserved, hserver⟩ := served_deliver h hallowed hcount hstep
      exact ⟨xs', hserved, fun _ => .inr hserver⟩
  | giveUp | notify =>
      cases hstep
      exact ⟨xs, h.same (fun _ hstate => hstate) rfl rfl rfl, .inr⟩
  | answer d =>
      obtain ⟨_, _, _, rfl⟩ := step_answer hstep
      exact ⟨xs, h.same (fun _ hstate => hstate) rfl rfl rfl, .inr⟩
  | syscall sc =>
      obtain ⟨_, _, _, _, _, _, hserver, heffects⟩ := step_syscall hstep
      rw [hserver]
      exact ⟨xs, h.same (by simp [hserver]) heffects rfl rfl, .inr⟩
  | exitStatus status =>
      obtain ⟨hexit, rfl⟩ := step_exitStatus hstep
      exact ⟨xs, h.same (by simp) rfl rfl rfl, fun _ => .inl hexit⟩

/-- A program that has ended stays so. -/
theorem step_exited
    (h : s.bridge.Exited) (hstep : s.step U self a = some s') :
    s'.bridge.Exited := by
  cases a with
  | syscall sc =>
      exact absurd h (WpaEx.not_exited_of_step (step_syscall hstep).2.1)
  | deliver message =>
      obtain ⟨_, _, _, _, rfl⟩ := step_deliver hstep
      simpa using h
  | call | giveUp | answer | notify | exitStatus =>
      rw [(step_outside hstep rfl rfl).1]
      exact h

end Step

/-- Every response that is delivered answers a datagram that was sent. -/
theorem length_responses_le_sends
    (hchannels : Channels hist s) (hresponses : responses (arrivals hist) = answers hist) :
    (responses (delivered hist)).length ≤ (sends (syscalls hist)).length := by
  have hfront : responses (delivered hist) <+: answers hist := by
    rw [← hresponses]
    exact hchannels.delivered_isPrefix.filter _
  obtain ⟨done, hsends, hdone⟩ := hchannels.answered
  have hlength := hfront.length_le
  rw [hsends, List.length_append]
  omega

theorem run_served
    (hrun : Run (step U self) (Admissible U) (start port manager) hist s) :
    ∃ xs, Served U hist s xs ∧ (s.bridge.Exited ∨ s.server.isSome) := by
  induction hrun with
  | start =>
      refine ⟨[], ⟨rfl, rfl, List.nil_prefix, ?_, rfl⟩, .inr rfl⟩
      intro state hstate
      cases hstate
      rfl
  | @snoc hist s s' a prev allowed hstep ih =>
      obtain ⟨xs, hserved, hlives⟩ := ih
      have hrun := prev.snoc allowed hstep
      have hchannels := run_channels (fun _ _ => shortArrivals_of_admissible) hrun
      have hcount := length_responses_le_sends hchannels (run_responses hrun)
      obtain ⟨unsent, hcommands, _⟩ := hchannels.requests
      obtain ⟨xs', hserved', hserver⟩ := step_served hserved allowed
        (by rw [hcommands, List.length_append]; omega) hstep
      refine ⟨xs', hserved', ?_⟩
      rcases hlives with hexit | hsome
      · exact .inl (step_exited hexit hstep)
      · exact (hserver hsome).imp_left fun hexit => step_exited hexit hstep

/--
The `k`-th request came from the client and was sent as the `k`-th datagram, and
the `k`-th answer of the supplicant decodes to the value.
-/
def AnsweredBy (U : GraphemeTable) (hist : List Action) (k : Nat) (client : From)
    (value : Reply) : Prop :=
  ∃ (command : Term) (payload d : Binary),
    (accepted hist)[k]? = some (client, command) ∧
    Encode.encode U command = .ok payload ∧
    (sends (syscalls hist))[k]? = some payload ∧
    (answers hist)[k]? = some d ∧
    Decode.resp command d = .ok value

/-- Replies and requests are paired, and no request is lost. -/
structure Paired (U : GraphemeTable) (hist : List Action) (s : System) : Prop where
  kth : ∀ k client value, (replies s.effects)[k]? = some (client, value) →
    AnsweredBy U hist k client value
  /-- The requests without a reply are pending. -/
  pending : ∀ state ∈ s.server,
    state.requests = (accepted hist).drop (replies s.effects).length
  alive : ¬ s.bridge.Exited → s.server.isSome
  /-- A pending request is on its way, with the supplicant, or its reply is. -/
  conserved : ¬ s.bridge.Exited → ∀ state ∈ s.server,
    state.requests.length =
      s.unsent.length + s.unanswered.length + (responses s.inFlight).length

theorem getElem?_of_isPrefix
    {α : Type} {ys zs : List α} (h : ys <+: zs) {k : Nat} {y : α} (hk : ys[k]? = some y) :
    zs[k]? = some y := by
  obtain ⟨tail, rfl⟩ := h
  rw [List.getElem?_append_left (List.getElem?_eq_some_iff.mp hk).1, hk]

theorem kth_of_served
    {xs : List Exchange} (hserved : Served U hist s xs) (hchannels : Channels hist s)
    (hresponses : responses (arrivals hist) = answers hist)
    {k : Nat} {client : From} {value : Reply}
    (hk : (replies s.effects)[k]? = some (client, value)) :
    AnsweredBy U hist k client value := by
  rw [hserved.replies_eq, List.getElem?_map, Option.map_eq_some_iff] at hk
  obtain ⟨x, hx, hreply⟩ := hk
  cases hreply
  have haccepted : (accepted hist)[k]? = some (x.client, x.command) :=
    getElem?_of_isPrefix hserved.isPrefix (by rw [List.getElem?_map, hx]; rfl)
  have hdelivered : (responses (delivered hist))[k]? = some x.response := by
    rw [hserved.responses_eq, List.getElem?_map, hx]
    rfl
  have hanswer : (answers hist)[k]? = some x.response := by
    rw [← hresponses]
    exact getElem?_of_isPrefix (hchannels.delivered_isPrefix.filter _) hdelivered
  have hsent : k < (sends (syscalls hist)).length :=
    (List.getElem?_eq_some_iff.mp hdelivered).1.trans_le
      (length_responses_le_sends hchannels hresponses)
  have hpayload : (sends (syscalls hist))[k]? = some (sends (syscalls hist))[k] :=
    List.getElem?_eq_getElem hsent
  obtain ⟨unsent, hcommands, _⟩ := hchannels.requests
  have hencoded := congrArg (fun texts => texts[k]?) hserved.encoded
  rw [List.getElem?_map, List.getElem?_map, haccepted,
    getElem?_of_isPrefix ⟨unsent, hcommands.symm⟩ hpayload] at hencoded
  exact ⟨x.command, _, x.response, haccepted, Option.some.inj hencoded, hpayload, hanswer,
    x.decoded⟩

theorem run_answeredBy
    (hrun : Run (step U self) (Admissible U) (start port manager) hist s)
    {k : Nat} {client : From} {value : Reply}
    (hk : (replies s.effects)[k]? = some (client, value)) :
    AnsweredBy U hist k client value := by
  obtain ⟨xs, hserved, _⟩ := run_served hrun
  exact kth_of_served hserved (run_channels (fun _ _ => shortArrivals_of_admissible) hrun)
    (run_responses hrun) hk

/--
In every interleaving of client calls, of the system calls of wpa_ex, of the
answers and notifications of the supplicant and of deliveries, each reply goes
to the client whose request it answers.
-/
theorem run_paired
    (hrun : Run (step U self) (Admissible U) (start port manager) hist s) :
    Paired U hist s := by
  have hchannels := run_channels (fun _ _ => shortArrivals_of_admissible) hrun
  have hresponses := run_responses hrun
  obtain ⟨xs, hserved, hlives⟩ := run_served hrun
  refine ⟨fun _ _ _ => kth_of_served hserved hchannels hresponses, ?_,
    hlives.resolve_left, ?_⟩
  · intro state hstate
    rw [hserved.pending state hstate, hserved.replies_eq]
    simp
  · intro halive state hstate
    have hrequests := congrArg List.length (hserved.pending state hstate)
    have hencoded := congrArg List.length hserved.encoded
    have hcommands := congrArg List.length (hchannels.commands_of_alive halive)
    have hover := congrArg List.length hserved.responses_eq
    have harrived := congrArg (fun ds => (responses ds).length)
      (hchannels.arrivals_of_alive halive)
    obtain ⟨done, hsends, hdone⟩ := hchannels.answered
    rw [hsends] at hcommands
    simp only [hresponses, responses_append, List.length_append, List.length_map]
      at hrequests hencoded hcommands hover harrived
    omega

/-- The reply to `PING` goes to its client, past a notification. -/
theorem run_paired_ping :
    ∃ s, Paired .latin pingRun s ∧
      replies s.effects = [(⟨1, 0⟩, .atom .pong)] := by
  have hend : (StepSystem.run? (step .latin 9) (Admissible .latin) (start 5 7) pingRun).map
      (fun s => replies s.effects) = some [(⟨1, 0⟩, .atom .pong)] := by
    decide +kernel
  obtain ⟨s, hs, hreplies⟩ := Option.map_eq_some_iff.mp hend
  exact ⟨s, run_paired (StepSystem.run_of_run? hs), hreplies⟩

end System
end WpaSupplicant
