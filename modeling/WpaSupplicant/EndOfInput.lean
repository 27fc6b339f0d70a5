import WpaSupplicant.BridgeOrdering
import WpaSupplicant.MainProgram

/-!
# The end of the input

wpa_ex ends when its stdin does.  By then everything it has taken in has gone out: its
input has become requests, every request has its reply, and every message has been written.

* `run_relays`: what is on its way at every point of a run;
* `endOfInput_drained`: and at the end of the input nothing is.
-/

namespace WpaSupplicant

open StepSystem (Run run? run_of_run?)

namespace WpaEx

/-- The bytes that a run takes from stdin. -/
def inputs (hist : List Syscall) : Binary :=
  hist.flatMap Syscall.input

@[simp] theorem inputs_append (xs ys : List Syscall) :
    inputs (xs ++ ys) = inputs xs ++ inputs ys :=
  List.flatMap_append

/-- `Permits`, and the datagrams leave a byte of the receive buffer free. -/
def PermitsShort (s : WpaEx) (sc : Syscall) : Prop :=
  Permits s sc ∧ ShortReceive s sc

/-- What is on its way. -/
structure Relays (hist : List Syscall) (s : WpaEx) : Prop where
  aligned : s.Aligned
  fits : ∀ m ∈ s.inHand, FitsFrame m
  requests : inputs hist = frames (sends hist) ++ s.unsent
  messages : outputs hist ++ frames s.inHand = frames (receives hist)

variable {hist : List Syscall} {s s' : WpaEx} {sc : Syscall}

theorem step_relays
    (hstep : step s sc = some s') (hpermits : PermitsShort s sc) (halive : ¬ s'.Exited)
    (h : Relays hist s) :
    Relays (hist ++ [sc]) s' := by
  obtain ⟨hpossible, hshort⟩ := hpermits
  obtain ⟨msgs, dropped, cut, hmoved, _, houtput, _, hend⟩ :=
    step_conserves_messages hstep hpossible hshort h.fits
  obtain ⟨rfl, rfl⟩ := hend halive
  rw [List.append_nil] at hmoved houtput
  have hrequests := step_conserves_requests hstep h.aligned halive hpossible
  refine ⟨step_aligned hstep h.aligned, fun m hm => ?_, ?_, ?_⟩
  · have hmem : m ∈ s.inHand ++ sc.received := hmoved ▸ List.mem_append_right _ hm
    rcases List.mem_append.mp hmem with hm | hm
    · exact h.fits m hm
    · exact System.fitsFrame_of_short (hshort m hm)
  · have hsc : inputs [sc] = sc.input ∧ sends [sc] = sc.sent := by simp [inputs, sends]
    rw [inputs_append, sends_append, frames_append, hsc.1, hsc.2, h.requests,
      List.append_assoc, hrequests, List.append_assoc]
  · have hsc : outputs [sc] = sc.output ∧ receives [sc] = sc.received := by
      simp [outputs, receives]
    rw [outputs_append, receives_append, frames_append, hsc.1, hsc.2, ← h.messages, houtput,
      List.append_assoc, List.append_assoc, ← frames_append, ← frames_append, hmoved]

theorem run_relays
    (hrun : Run step PermitsShort start hist s) (halive : ¬ s.Exited) :
    Relays hist s := by
  induction hrun with
  | start =>
      exact ⟨rfl, fun _ hm => absurd hm List.not_mem_nil, rfl, rfl⟩
  | snoc prev hpermits hstep ih =>
      exact step_relays hstep hpermits halive (ih (not_exited_of_step hstep))

section Exits

/-- The kernel lets the program down, or the supplicant does not answer. -/
def Failed : Syscall → Prop
  | .poll .failed | .read .failed | .send _ .failed | .select .timeout | .select .failed
  | .recv .failed | .writev _ .failed => True
  | .writev bytes (.written n) => n ≠ bytes.length
  | _ => False

/-- How the program ends. -/
inductive ExitCases (s : WpaEx) : Syscall → Exit → Prop
  | failed (sc : Syscall) (e : Exit)
      (hfailed : Failed sc) (hother : e ≠ .endOfFile) :
      ExitCases s sc e
  | endOfFile (wpaReady : Bool) (input : Binary)
      (hpoint : s.point = .readErl wpaReady) (hempty : input.take s.buffer.free = []) :
      ExitCases s (.read (.bytes input)) .endOfFile
  | tooLong (sc : Syscall) (b : ErlBuffer)
      (hreceived : sc.Possible s.buffer → b.received = s.unsent ++ sc.input)
      (hdispatch : tryDispatch b = .tooLong) :
      ExitCases s sc .messageTooLong

theorem leaveErl_ne_exited (b : ErlBuffer) (wpaReady : Bool) (e : Exit) :
    (leaveErl b wpaReady).point ≠ .exited e := by
  cases wpaReady <;> simp [leaveErl]

theorem dispatch_exited
    {b : ErlBuffer} {wpaReady : Bool} {e : Exit} (h : (dispatch b wpaReady).point = .exited e) :
    e = .messageTooLong ∧ tryDispatch b = .tooLong := by
  unfold dispatch at h
  split at h
  · exact absurd h (leaveErl_ne_exited b wpaReady e)
  · next hdispatch =>
      cases h
      exact ⟨rfl, hdispatch⟩
  · cases h

theorem afterRequest_exited
    {b : ErlBuffer} {q : Request} {e : Exit} (h : (afterRequest b q).point = .exited e) :
    e = .messageTooLong ∧ tryDispatch (b.shift q.processed) = .tooLong := by
  unfold afterRequest at h
  split at h
  · exact dispatch_exited h
  · exact absurd h (leaveErl_ne_exited _ _ e)

theorem sendToErl_exited
    {msg bytes : Binary} {r : WriteResult} {next : WpaEx} {e : Exit}
    (h : sendToErl s msg bytes r next = some s') (hs : ∀ e, s.point ≠ .exited e)
    (hend : s'.point = .exited e) :
    Failed (.writev bytes r) ∧ e ≠ .endOfFile ∨ s' = next := by
  unfold sendToErl at h
  split at h
  · cases r with
    | interrupted =>
        cases h
        exact absurd hend (hs e)
    | failed =>
        cases h
        cases hend
        exact .inl ⟨trivial, by decide⟩
    | written n =>
        by_cases hn : n = bytes.length
        · simp only [hn, if_true, Option.some.injEq] at h
          exact .inr h.symm
        · simp only [hn, if_false, Option.some.injEq] at h
          subst h
          cases hend
          exact .inl ⟨hn, by decide⟩
  · cases h

/-- The program ends for one of these reasons. -/
theorem step_exit_cases
    {e : Exit} (hstep : step s sc = some s') (hend : s'.point = .exited e) :
    ExitCases s sc e := by
  obtain ⟨b, p⟩ := s
  cases p with
  | poll =>
      rcases sc with (⟨erl, wpa⟩ | _ | _) | _ | _ | _ | _ | _ | _ <;> cases hstep
      · cases erl
        · exact absurd hend (leaveErl_ne_exited b wpa e)
        · cases hend
      · cases hend
      · cases hend
        exact .failed _ _ trivial (by decide)
  | readErl wpaReady =>
      rcases sc with _ | (_ | _ | input) | _ | _ | _ | _ | _
      case read.bytes =>
        simp only [step] at hstep
        split at hstep
        · next hempty =>
            cases hstep
            cases hend
            exact .endOfFile wpaReady input rfl hempty
        · cases hstep
          obtain ⟨rfl, hdispatch⟩ := dispatch_exited hend
          refine .tooLong _ _ (fun hpossible => ?_) hdispatch
          have htake : input.take b.free = input := List.take_of_length_le hpossible
          rw [ErlBuffer.received_store, htake]
          rfl
      all_goals cases hstep
      · exact absurd hend (leaveErl_ne_exited b wpaReady e)
      · cases hend
        exact .failed _ _ trivial (by decide)
  | sendRequest q =>
      rcases sc with _ | _ | ⟨cmd, r⟩ | _ | _ | _ | _
      case send =>
        simp only [step] at hstep
        split at hstep
        · cases r <;> cases hstep <;> cases hend
          exact .failed _ _ trivial (by decide)
        · cases hstep
      all_goals cases hstep
  | selectReply q =>
      rcases sc with _ | _ | _ | (_ | _ | _) | _ | _ | _ <;> cases hstep <;> cases hend
      · exact .failed _ _ trivial (by decide)
      · exact .failed _ _ trivial (by decide)
  | recvReply q =>
      rcases sc with _ | _ | _ | _ | _ | (d | _) | _
      case recv.datagram =>
        simp only [step] at hstep
        split at hstep <;> cases hstep <;> cases hend
      all_goals cases hstep
      cases hend
      exact .failed _ _ trivial (by decide)
  | msgCb q msg =>
      rcases sc with _ | _ | _ | _ | _ | _ | ⟨bytes, r⟩
      case writev =>
        rcases sendToErl_exited hstep (by simp) hend with ⟨hfailed, hother⟩ | rfl
        · exact .failed _ _ hfailed hother
        · cases hend
      all_goals cases hstep
  | sendReply q msg =>
      rcases sc with _ | _ | _ | _ | _ | _ | ⟨bytes, r⟩
      case writev =>
        rcases sendToErl_exited hstep (by simp) hend with ⟨hfailed, hother⟩ | rfl
        · exact .failed _ _ hfailed hother
        · obtain ⟨rfl, hdispatch⟩ := afterRequest_exited hend
          refine .tooLong _ _ (fun _ => ?_) hdispatch
          rw [ErlBuffer.received_shift]
          exact (List.append_nil _).symm
      all_goals cases hstep
  | pendingWpa =>
      rcases sc with _ | _ | _ | _ | ready | _ | _ <;> cases hstep
      cases ready <;> cases hend
  | recvWpa =>
      rcases sc with _ | _ | _ | _ | _ | (d | _) | _ <;> cases hstep <;> cases hend
      exact .failed _ _ trivial (by decide)
  | sendMessage msg =>
      rcases sc with _ | _ | _ | _ | _ | _ | ⟨bytes, r⟩
      case writev =>
        rcases sendToErl_exited hstep (by simp) hend with ⟨hfailed, hother⟩ | rfl
        · exact .failed _ _ hfailed hother
        · cases hend
      all_goals cases hstep
  | exited e =>
      cases sc <;> cases hstep

end Exits

/-- Nothing is left on its way. -/
structure Drained (hist : List Syscall) : Prop where
  requests : ∃ rest, inputs hist = frames (sends hist) ++ rest ∧ unframe? rest = none
  replies : ∀ xs cmd ys, hist = xs ++ .send cmd .ok :: ys → ReplyWritten ys
  messages : outputs hist = frames (receives hist)

/-- Every request that has been sent has its reply, once `process_erl` reads again. -/
theorem replyWritten_of_readErl
    {xs ys : List Syscall} {cmd : Binary} {wpaReady : Bool}
    (hrun : Run step PermitsShort start (xs ++ .send cmd .ok :: ys) s)
    (hread : s.point = .readErl wpaReady) :
    ReplyWritten ys := by
  obtain ⟨m, _, hrun⟩ := hrun.split
  have hsplit : Run step PermitsShort m ([.send cmd .ok] ++ ys) s := hrun
  obtain ⟨m', hsend, hys⟩ := hsplit.split
  obtain ⟨_, hsend⟩ := hsend.single
  obtain ⟨b, q, rfl⟩ : ∃ b q, m' = ⟨b, .selectReply q⟩ := by
    cases step_cases hsend with
    | sent b q =>
        exact ⟨b, q, rfl⟩
    | again hquiet _ | fails _ hquiet _ =>
        cases hquiet.1
  have halive : ¬ s.Exited := by
    rintro ⟨e, he⟩
    rw [hread] at he
    cases he
  rcases run_phase (hys.restrict fun _ _ _ h => h.2) with ⟨_, h⟩ | ⟨_, _, _, _, _, _, h⟩ | h
  · have := h.resolve_left halive
    simp [hread] at this
  · have := h.resolve_left halive
    simp [hread] at this
  · exact h

theorem drained_of_endOfFile
    (hrun : Run step PermitsShort start hist s) (hend : s.point = .exited .endOfFile) :
    Drained hist := by
  cases hrun with
  | start =>
      cases hend
  | @snoc hist s₁ s' sc prev hpermits hstep =>
      have hrelays := run_relays prev (not_exited_of_step hstep)
      obtain ⟨wpaReady, input, rfl, hpoint, hempty⟩ : ∃ wpaReady input,
          sc = .read (.bytes input) ∧ s₁.point = .readErl wpaReady ∧
            input.take s₁.buffer.free = [] := by
        cases step_exit_cases hstep hend with
        | failed _ _ _ hother =>
            exact absurd rfl hother
        | endOfFile wpaReady input hpoint hempty =>
            exact ⟨wpaReady, input, rfl, hpoint, hempty⟩
      obtain ⟨b, p⟩ := s₁
      cases hpoint
      have hinput : input = [] := by
        rwa [List.take_of_length_le hpermits.1] at hempty
      subst hinput
      refine ⟨⟨b.received, ?_, hrelays.aligned⟩, ?_, ?_⟩
      · have hrequests : inputs hist = frames (sends hist) ++ b.received := hrelays.requests
        simpa [inputs, sends, Syscall.input, Syscall.sent] using hrequests
      · intro xs cmd ys heq
        rcases List.eq_nil_or_concat ys with rfl | ⟨ys', y, rfl⟩
        · obtain ⟨_, hlast⟩ := List.append_inj' heq rfl
          cases hlast
        · rw [List.concat_eq_append, ← List.cons_append, ← List.append_assoc] at heq
          obtain ⟨rfl, hlast⟩ := List.append_inj' heq rfl
          rw [List.concat_eq_append]
          exact ReplyWritten.snoc (replyWritten_of_readErl prev rfl)
      · have hmessages := hrelays.messages
        simpa [outputs, receives, Syscall.output, Syscall.received] using hmessages

section Shown

/-- What a call that is not shown moves is nothing. -/
theorem flatMap_filter_shown
    {α : Type*} {f : Syscall → List α} (hf : ∀ sc, shown sc = false → f sc = [])
    (calls : List Syscall) :
    (calls.filter shown).flatMap f = calls.flatMap f := by
  induction calls with
  | nil =>
      rfl
  | cons sc calls ih =>
      rw [List.filter_cons, List.flatMap_cons]
      split
      · rw [List.flatMap_cons, ih]
      · next hsc =>
          rw [ih, hf sc (by simpa using hsc), List.nil_append]

theorem quiet_of_not_shown (h : shown sc = false) : sc.Quiet := by
  unfold shown at h
  split at h
  · exact ⟨rfl, rfl, rfl, rfl, rfl⟩
  · exact ⟨rfl, rfl, rfl, rfl, rfl⟩
  · cases h

variable (calls : List Syscall)

theorem inputs_filter_shown : inputs (calls.filter shown) = inputs calls :=
  flatMap_filter_shown (fun _ h => (quiet_of_not_shown h).2.2.1) calls

theorem sends_filter_shown : sends (calls.filter shown) = sends calls :=
  flatMap_filter_shown (fun _ h => (quiet_of_not_shown h).1) calls

theorem receives_filter_shown : receives (calls.filter shown) = receives calls :=
  flatMap_filter_shown (fun _ h => (quiet_of_not_shown h).2.1) calls

theorem outputs_filter_shown : outputs (calls.filter shown) = outputs calls :=
  flatMap_filter_shown (fun _ h => (quiet_of_not_shown h).2.2.2.1) calls

theorem ReplyWritten.filter_shown (h : ReplyWritten hist) : ReplyWritten (hist.filter shown) := by
  obtain ⟨front, d, mid, back, rfl, hd, hfront⟩ := h
  refine ⟨front.filter shown, d, mid.filter shown, back.filter shown, ?_, hd, ?_⟩
  · rw [List.filter_append, List.filter_cons_of_pos rfl, List.filter_append,
      List.filter_cons_of_pos rfl]
  · rwa [receives_filter_shown]

theorem Drained.filter_shown (h : Drained hist) : Drained (hist.filter shown) := by
  obtain ⟨hrequests, hreplies, hmessages⟩ := h
  refine ⟨?_, fun xs cmd ys heq => ?_, ?_⟩
  · rwa [inputs_filter_shown, sends_filter_shown]
  · obtain ⟨xs', rest, rfl, _, hrest⟩ := List.filter_eq_append_iff.mp heq
    obtain ⟨quiet, ys', rfl, _, _, rfl⟩ := List.filter_eq_cons_iff.mp hrest
    exact (hreplies (xs' ++ quiet) cmd ys' (by simp)).filter_shown
  · rwa [outputs_filter_shown, receives_filter_shown]

end Shown

namespace Main

variable {inv : Invocation} {hist : List MainCall} {l : Loop}

/--
When the program ends because its input does, the input it has taken is the frames of the
requests it has sent and no further complete frame, every request has been answered and
the answer written, and stdout is the frames of all the messages it has received.
-/
theorem endOfInput_drained
    (hrun : Run (step inv) Permits (start inv) hist (.running l))
    (hshort : ∀ d ∈ receives (visibleCalls hist), d.length < bufferSize)
    (hend : l.point = .exited .endOfFile) :
    Drained (visibleCalls hist) := by
  obtain ⟨_, _, calls, hcalls, hshown⟩ := run_came hrun
  rw [← hshown, receives_filter_shown] at hshort
  rw [← hshown]
  refine Drained.filter_shown (drained_of_endOfFile (hcalls.restrict ?_) ?_)
  · intro s sc hsc hpermits
    exact ⟨hpermits, fun d hd => hshort d (List.mem_flatMap.mpr ⟨sc, hsc, hd⟩)⟩
  · rw [Loop.bridge, hend]
    rfl

/-- The calls of `servedCalls`, and then stdin is closed within a frame. -/
def endedCalls : List MainCall :=
  servedCalls ++ [.loop (.poll (.ready true false)), .loop (.read (.bytes [0, 9, 1])),
    .loop (.poll (.ready true false)), .loop (.read (.bytes []))]

theorem endOfInput_drained_ping :
    sends (visibleCalls endedCalls) = [lit "PING"] ∧ Drained (visibleCalls endedCalls) := by
  have hend : ((run? (step firstInvocation) Permits (start firstInvocation) endedCalls).bind
      loop?).map Loop.point = some (.exited .endOfFile) := by
    decide +kernel
  obtain ⟨l, hl, hpoint⟩ := Option.map_eq_some_iff.mp hend
  obtain ⟨m, hm, hloop⟩ := Option.bind_eq_some_iff.mp hl
  obtain rfl := eq_running_of_loop? hloop
  exact ⟨by decide +kernel, endOfInput_drained (run_of_run? hm) (by decide +kernel) hpoint⟩

end Main

end WpaEx
end WpaSupplicant
