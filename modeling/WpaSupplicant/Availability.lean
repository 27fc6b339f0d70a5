import WpaSupplicant.ExitReasons
import WpaSupplicant.Linearizability
import WpaSupplicant.Responsiveness

/-!
# Nothing goes down by itself

The server has no guard around the encoder and the decoder, and wpa_ex exits on every error.
With clients whose commands have a short text, a supplicant whose messages decode and a
kernel that serves every system call, neither of them ever ends.

* `Behaved`: the assumptions, each on one party, and none on what the port delivers;
* `step_admissible`: the messages that are delivered decode, as those of the supplicant do;
* `run_up`: no run ends the server or wpa_ex;
* `eventually_replied_of_behaved`: so every request is answered.
-/

namespace WpaSupplicant

open StepSystem (Run Schedule run? run_of_run?)

namespace System

/--
The clients' commands have a short text, the system calls do not fail, and the supplicant's
messages decode: a notification by itself, an answer as the reply to whatever pending
command has the text that it answers.
-/
def Behaved (U : GraphemeTable) (s : System) (a : Action) : Prop :=
  match a with
  | .call _ (.request command) => HasShortText U command
  | .answer d => d.length ≤ 2047 ∧ WpaEx.unsolicited d = false ∧
      ∀ text ∈ s.unanswered.head?, ∀ state ∈ s.server, ∀ request ∈ state.requests,
        Encode.encode U request.2 = .ok text → Returns (Decode.resp request.2 d)
  | .notify d => d.length ≤ 2047 ∧ ∃ text ∈ Server.notification? d, Returns (Decode.notif text)
  | .syscall sc => ¬ WpaEx.Failed sc
  | _ => True

instance (U : GraphemeTable) (s : System) (a : Action) : Decidable (Behaved U s a) :=
  match a with
  | .call _ (.request command) => inferInstanceAs (Decidable (HasShortText U command))
  | .call _ .eventManager | .giveUp _ | .deliver _ | .exitStatus _ => .isTrue trivial
  | .answer d => inferInstanceAs (Decidable (d.length ≤ 2047 ∧ WpaEx.unsolicited d = false ∧
      ∀ text ∈ s.unanswered.head?, ∀ state ∈ s.server, ∀ request ∈ state.requests,
        Encode.encode U request.2 = .ok text → Returns (Decode.resp request.2 d)))
  | .notify d => inferInstanceAs (Decidable (d.length ≤ 2047 ∧
      ∃ text ∈ Server.notification? d, Returns (Decode.notif text)))
  | .syscall sc => inferInstanceAs (Decidable (¬ WpaEx.Failed sc))

/-- The server and wpa_ex are there. -/
def Up (s : System) : Prop :=
  s.server.isSome ∧ ¬ s.bridge.Exited

/-- What has been sent on either side decodes, in the order in which it has been sent. -/
structure WellFormed (U : GraphemeTable) (hist : List Action) : Prop where
  accepted : ∀ request ∈ accepted hist, HasShortText U request.2
  answered : ∀ (k : Nat) (client : From) (command : Term) (d : Binary),
    (System.accepted hist)[k]? = some (client, command) → (answers hist)[k]? = some d →
      Returns (Decode.resp command d)
  notified : ∀ d ∈ arrivals hist, ∀ text ∈ Server.notification? d,
    Returns (Decode.notif text)

variable {U : GraphemeTable} {self : Pid} {port : Port} {manager : Pid}
variable {hist : List Action} {s s' : System} {a : Action}

theorem noFailure_of_behaved (h : Behaved U s a) : s.NoFailure a := by
  intro sc hsc
  cases a with
  | syscall sc' =>
      obtain rfl : sc = sc' := by simpa [syscalls] using hsc
      exact h
  | _ =>
      simp [syscalls] at hsc

section Delivered

variable (hrun : Run (step U self) (Admissible U) (start port manager) hist s)
include hrun

/-- A message that is delivered decodes. -/
theorem decodes_of_deliver
    {message : Binary} (hstep : s.step U self (.deliver message) = some s')
    (h : WellFormed U hist) {state : ServerState} (hstate : s.server = some state) :
    Decodes message state := by
  have hshort := hrun.restrict (B := ShortArrivals)
    fun _ _ _ hallowed => shortArrivals_of_admissible hallowed
  have hchannels := run_channels (fun _ _ h => h) (hshort.snoc (by simp [ShortArrivals, arrivals])
    hstep)
  have hfront : delivered hist ++ [message] <+: arrivals hist := by
    have hall := hchannels.delivered_isPrefix
    rw [delivered_append, arrivals_append] at hall
    simpa [delivered, arrivals] using hall
  unfold Decodes
  split
  · next text htext =>
      exact h.notified message (hfront.subset (by simp)) text htext
  · next hnone =>
      intro request hrequest
      obtain ⟨xs, hserved, _⟩ := run_served hrun
      have hresponses : responses [message] = [message] := by simp [responses, hnone]
      have hanswers : responses (delivered hist ++ [message]) <+: answers hist := by
        rw [← run_responses hrun]
        exact hfront.filter _
      rw [responses_append, hresponses, hserved.responses_eq] at hanswers
      obtain ⟨nextOnes, hrequests⟩ : ∃ nextOnes, state.requests = request :: nextOnes :=
        List.head?_eq_some_iff.mp hrequest
      refine h.answered xs.length request.1 request.2 message ?_ ?_
      · rw [hserved.pending state hstate, hrequests]
        simp
      · exact getElem?_of_isPrefix hanswers (by simp)

/-- The command that an answer is for is still pending. -/
theorem mem_requests_of_unanswered
    {text : Binary} {rest : List Binary} (h : s.unanswered = text :: rest)
    {state : ServerState} (hstate : s.server = some state) :
    ∃ request ∈ state.requests, (accepted hist)[(answers hist).length]? = some request ∧
      Encode.encode U request.2 = .ok text := by
  obtain ⟨client, command, haccepted, hencode⟩ := accepted_of_unanswered hrun h
  obtain ⟨xs, hserved, _⟩ := run_served hrun
  have hle := length_replies_le_answers hrun
  rw [hserved.replies_eq, List.length_map] at hle
  refine ⟨(client, command), ?_, haccepted, hencode⟩
  rw [hserved.pending state hstate, List.getElem?_append_right (by simpa using hle)] at haccepted
  exact List.mem_of_getElem? haccepted

/-- The commands that the port has been given are short. -/
theorem length_le_of_commands
    (h : WellFormed U hist) {cmd : Binary} (hcmd : cmd ∈ commands s.effects) :
    cmd.length ≤ maxPayload := by
  obtain ⟨xs, hserved, _⟩ := run_served hrun
  have hmem : Except.ok cmd ∈ (commands s.effects).map (.ok : Binary → Except Raise Binary) :=
    List.mem_map_of_mem hcmd
  rw [← hserved.encoded] at hmem
  obtain ⟨request, hrequest, hencode⟩ := List.mem_map.mp hmem
  have hshort := h.accepted request hrequest
  rw [HasShortText, hencode] at hshort
  exact hshort

end Delivered

section Steps

variable (hrun : Run (step U self) (Admissible U) (start port manager) hist s)
  (hwellFormed : WellFormed U hist)
include hrun hwellFormed

/-- What the parties do well is done well by the channels between them. -/
theorem step_admissible
    (hbehaved : Behaved U s a) (hstep : s.step U self a = some s') :
    Admissible U s a := by
  cases a with
  | call client call =>
      cases call with
      | request command =>
          exact hbehaved
      | eventManager =>
          trivial
  | answer d =>
      exact ⟨hbehaved.1, hbehaved.2.1⟩
  | notify d =>
      obtain ⟨hlen, text, htext, _⟩ := hbehaved
      refine ⟨hlen, (isSome_notification?_iff d).mp ?_⟩
      rw [Option.mem_def.mp htext]
      rfl
  | deliver message =>
      exact fun state hstate => decodes_of_deliver hrun hstep hwellFormed hstate
  | giveUp | syscall | exitStatus =>
      trivial

theorem step_wellFormed
    (hup : s.Up) (hbehaved : Behaved U s a) (hstep : s.step U self a = some s') :
    WellFormed U (hist ++ [a]) := by
  -- the lists of all the other actions are the same
  have hsame (haccepted : accepted [a] = []) (hanswers : answers [a] = [])
      (harrivals : arrivals [a] = []) : WellFormed U (hist ++ [a]) := by
    obtain ⟨hcommands, hdecoded, hnotified⟩ := hwellFormed
    refine ⟨?_, ?_, ?_⟩
    · rwa [accepted_append, haccepted, List.append_nil]
    · rwa [accepted_append, answers_append, haccepted, hanswers, List.append_nil,
        List.append_nil]
    · rwa [arrivals_append, harrivals, List.append_nil]
  cases a with
  | call client call =>
      cases call with
      | request command =>
          have hone : accepted [.call client (.request command)] = [(client, command)] := rfl
          have hnone : answers [.call client (.request command)] = [] := rfl
          have hnone' : arrivals [.call client (.request command)] = [] := rfl
          refine ⟨fun request hrequest => ?_, fun k client' command' d hk hd => ?_, ?_⟩
          · rw [accepted_append, hone] at hrequest
            rcases List.mem_append.mp hrequest with hrequest | hrequest
            · exact hwellFormed.accepted request hrequest
            · obtain rfl := List.mem_singleton.mp hrequest
              exact hbehaved
          · rw [answers_append, hnone, List.append_nil] at hd
            have hlt := (List.getElem?_eq_some_iff.mp hd).1
            have hle := length_answers_le_accepted hrun
            rw [accepted_append, List.getElem?_append_left (hlt.trans_le hle)] at hk
            exact hwellFormed.answered k client' command' d hk hd
          · rw [arrivals_append, hnone', List.append_nil]
            exact hwellFormed.notified
      | eventManager =>
          exact hsame rfl rfl rfl
  | answer d =>
      obtain ⟨text, rest, hunanswered, _⟩ := step_answer hstep
      obtain ⟨state, hstate⟩ := Option.isSome_iff_exists.mp hup.1
      obtain ⟨request, hmem, hkth, hencode⟩ :=
        mem_requests_of_unanswered hrun hunanswered hstate
      have hreturns := hbehaved.2.2 text (by rw [hunanswered]; rfl) state hstate request hmem
        hencode
      have hnone : accepted [.answer d] = [] := rfl
      have hone : answers [.answer d] = [d] := rfl
      have hone' : arrivals [.answer d] = [d] := rfl
      refine ⟨?_, fun k client command d' hk hd' => ?_, fun d' hd' => ?_⟩
      · rw [accepted_append, hnone, List.append_nil]
        exact hwellFormed.accepted
      · rw [accepted_append, hnone, List.append_nil] at hk
        rw [answers_append, hone] at hd'
        rcases Nat.lt_trichotomy k (answers hist).length with hlt | rfl | hgt
        · rw [List.getElem?_append_left hlt] at hd'
          exact hwellFormed.answered k client command d' hk hd'
        · rw [List.getElem?_concat_length] at hd'
          cases hd'
          rw [hkth] at hk
          cases hk
          exact hreturns
        · have := (List.getElem?_eq_some_iff.mp hd').1
          rw [List.length_append, List.length_singleton] at this
          omega
      · rw [arrivals_append, hone'] at hd'
        rcases List.mem_append.mp hd' with hd' | hd'
        · exact hwellFormed.notified d' hd'
        · obtain rfl := List.mem_singleton.mp hd'
          -- an answer is no notification
          intro text htext
          have hsome : (Server.notification? d').isSome := by
            rw [Option.mem_def.mp htext]
            rfl
          have := ((isSome_notification?_iff d').mp hsome).unsolicited
          rw [hbehaved.2.1] at this
          cases this
  | notify d =>
      obtain ⟨_, text, htext, hreturns⟩ := hbehaved
      have hnone : accepted [.notify d] = [] := rfl
      have hnone' : answers [.notify d] = [] := rfl
      have hone : arrivals [.notify d] = [d] := rfl
      refine ⟨?_, ?_, fun d' hd' => ?_⟩
      · rw [accepted_append, hnone, List.append_nil]
        exact hwellFormed.accepted
      · rw [accepted_append, answers_append, hnone, hnone', List.append_nil, List.append_nil]
        exact hwellFormed.answered
      · rw [arrivals_append, hone] at hd'
        rcases List.mem_append.mp hd' with hd' | hd'
        · exact hwellFormed.notified d' hd'
        · obtain rfl := List.mem_singleton.mp hd'
          intro text' htext'
          cases htext.symm.trans htext'
          exact hreturns
  | giveUp | syscall | deliver | exitStatus =>
      exact hsame rfl rfl rfl

end Steps

/-- What ends wpa_ex does not happen, and without it nothing ends the server. -/
theorem step_up
    (hrun : Run (step U self) (Admissible U) (start port manager) (hist ++ [a]) s')
    (hwellFormed : WellFormed U (hist ++ [a])) (hexplained : Explained (hist ++ [a]) s')
    (hup : s.Up) (hstep : s.step U self a = some s') :
    s'.Up := by
  have halive : ¬ s'.bridge.Exited := by
    rintro ⟨e, hend⟩
    cases hexplained.reason e hend with
    | serverGone hserver _ =>
        cases a with
        | syscall sc =>
            have hsame := (step_syscall hstep).2.2.2.2.2.2.1
            have hsome := hup.1
            rw [← hsame, hserver] at hsome
            cases hsome
        | deliver message =>
            obtain ⟨_, _, _, _, rfl⟩ := step_deliver hstep
            rw [bridge_absorb] at hend
            exact hup.2 ⟨_, hend⟩
        | call | giveUp | answer | notify | exitStatus =>
            rw [(step_outside hstep rfl rfl).1] at hend
            exact hup.2 ⟨_, hend⟩
    | requestTooLong cmd rest hlong hcommands =>
        have hle : cmd.length ≤ maxPayload :=
          length_le_of_commands hrun hwellFormed (by simp [hcommands])
        omega
  obtain ⟨_, _, hlives⟩ := run_served hrun
  exact ⟨hlives.resolve_left halive, halive⟩

theorem run_behaved
    (hrun : Run (step U self) (Behaved U) (start port manager) hist s) :
    Run (step U self) (Admissible U) (start port manager) hist s ∧ WellFormed U hist ∧
      s.Up := by
  induction hrun with
  | start =>
      refine ⟨.start, ⟨fun _ hrequest => ?_, fun _ _ _ _ hk => ?_, fun _ hd => ?_⟩, rfl, ?_⟩
      · cases hrequest
      · cases hk
      · cases hd
      · rintro ⟨e, hend⟩
        cases hend
  | @snoc hist s s' a prev hbehaved hstep ih =>
      obtain ⟨hadmissible, hwellFormed, hup⟩ := ih
      have hrun' := hadmissible.snoc
        (step_admissible hadmissible hwellFormed hbehaved hstep) hstep
      have hwellFormed' := step_wellFormed hadmissible hwellFormed hup hbehaved hstep
      have hexplained := run_explained ((prev.snoc hbehaved hstep).restrict (B := NoFailure)
        fun _ _ _ h => noFailure_of_behaved h)
      exact ⟨hrun', hwellFormed', step_up hrun' hwellFormed' hexplained hup hstep⟩

variable {r : Schedule (step U self) (start port manager)} {k : Nat}

theorem pingRun_behaved :
    ∀ n < 15, Behaved .latin (pingState n) (pingRun[n]?.getD (.giveUp ⟨1, 0⟩)) := by
  decide +kernel

end System
end WpaSupplicant
