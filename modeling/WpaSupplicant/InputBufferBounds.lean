import WpaSupplicant.BridgeMachine

/-!
# The input buffer never fills up

What `process_erl` leaves in `erl_buffer`, whatever has been read, and the parts
of the buffer that `memcpy`, `memmove` and `do_wpa_request` are given.

* `tryDispatch_eq_incomplete_iff`: when `try_dispatch` waits for more input;
* `run_bounded`: between requests the buffer waits, and a request in progress lies
  in the input;
* `two_mul_length_dispatchLoop_le`: each dispatch uses up two bytes;
* `input_buffer_never_full`: what follows for every run.
-/

namespace WpaSupplicant

namespace ErlBuffer

/-- `msglen`: what the first two bytes of the buffer announce. -/
def msglen (b : ErlBuffer) : Nat :=
  fromBe16 (b.bytes.getD 0 0) (b.bytes.getD 1 0)

/-- A header is missing, or the message behind it is, and its frame fits the buffer. -/
def Waits (b : ErlBuffer) : Prop :=
  b.ix < 2 ∨ b.ix < b.msglen + 2 ∧ b.msglen + 2 ≤ bufferSize

instance (b : ErlBuffer) : Decidable b.Waits :=
  inferInstanceAs (Decidable (_ ∨ _))

/-- A buffer that waits has room for more input. -/
theorem Waits.ix_lt {b : ErlBuffer} (h : b.Waits) : b.ix < bufferSize := by
  rcases h with hheader | ⟨hmessage, hfits⟩
  · exact hheader.trans (by decide)
  · exact hmessage.trans_le hfits

theorem waits_empty : empty.Waits :=
  .inl (by decide)

theorem waits_reset (b : ErlBuffer) : b.reset.Waits :=
  .inl (Nat.zero_lt_two)

end ErlBuffer

section Dispatching

variable {b : ErlBuffer}

/-- `try_dispatch` returns 0 exactly when the buffer waits. -/
theorem tryDispatch_eq_incomplete_iff : tryDispatch b = .incomplete ↔ b.Waits := by
  simp only [tryDispatch, ErlBuffer.Waits, ErlBuffer.msglen]
  split
  · next hheader =>
      simp [hheader]
  · next hheader =>
      split
      · next hlong =>
          simp only [reduceCtorEq, false_iff]
          omega
      · next hfits =>
          split
          · next hmessage =>
              simp only [true_iff]
              omega
          · next hmessage =>
              simp only [reduceCtorEq, false_iff]
              omega

/-- The slice that `do_wpa_request` is given for a request. -/
theorem tryDispatch_eq_request
    {cmd : Binary} {n : Nat} (h : tryDispatch b = .request cmd n) :
    cmd.length + 2 = n ∧ n ≤ b.ix ∧ cmd = (b.received.drop 2).take cmd.length := by
  have hcut := unframe?_of_tryDispatch h
  obtain ⟨hdispatch, _, hle⟩ := tryDispatch_of_unframe?_eq_some hcut
  obtain ⟨x, y, hreceived, _⟩ := unframe?_eq_some hcut
  rw [h] at hdispatch
  cases hdispatch
  have hdrop : b.received.drop 2 = cmd ++ b.received.drop (cmd.length + 2) :=
    congrArg (List.drop 2) hreceived
  exact ⟨rfl, hle, by rw [hdrop, List.take_left]⟩

/-- Each dispatch of the loop uses up at least two bytes of the input. -/
theorem two_mul_length_dispatchLoop_le (b : ErlBuffer) :
    2 * (dispatchLoop b).1.length ≤ b.ix := by
  fun_induction dispatchLoop b with
  | case1 | case2 =>
      exact Nat.zero_le _
  | case3 b cmd n hdispatch hlt ih =>
      have hshift : (b.shift n).ix = b.ix - n := rfl
      have hn := two_le_processed hdispatch
      simp only [List.length_cons]
      omega
  | case4 b cmd n hdispatch hle =>
      obtain ⟨hlen, hfits, _⟩ := tryDispatch_eq_request hdispatch
      simp only [List.length_singleton]
      omega

end Dispatching

/-- The slice that a request is given lies in the input. -/
def Request.Within (q : Request) (b : ErlBuffer) : Prop :=
  q.cmd.length + 2 = q.processed ∧ q.processed ≤ b.ix ∧
    q.cmd = (b.received.drop 2).take q.cmd.length

/-- A range of `erl_buffer`, and the buffer at the time it is used. -/
structure Access where
  buffer : ErlBuffer
  first : Nat
  size : Nat

/-- The range lies in the part of the buffer that holds input. -/
def Access.Within (a : Access) : Prop :=
  a.first + a.size ≤ a.buffer.ix

section Accesses

/-- The header that `try_dispatch` copies, and the message that it hands on. -/
def tryDispatchAccesses (b : ErlBuffer) : List Access :=
  if b.ix < 2 then
    []
  else
    match tryDispatch b with
    | .request _ processed => [⟨b, 0, 2⟩, ⟨b, 2, processed - 2⟩]
    | _ => [⟨b, 0, 2⟩]

/-- What the `memmove` behind a request reads and writes, and the dispatch after it. -/
def afterRequestAccesses (b : ErlBuffer) (q : Request) : List Access :=
  if q.processed < b.ix then
    ⟨b, q.processed, b.ix - q.processed⟩ :: ⟨b, 0, b.ix - q.processed⟩ ::
      tryDispatchAccesses (b.shift q.processed)
  else
    []

theorem tryDispatchAccesses_within (b : ErlBuffer) :
    ∀ a ∈ tryDispatchAccesses b, a.Within := by
  unfold tryDispatchAccesses
  split
  · simp
  · split
    · next cmd processed hdispatch =>
        obtain ⟨hlen, hle, _⟩ := tryDispatch_eq_request hdispatch
        simp only [List.mem_cons, List.not_mem_nil, or_false, forall_eq_or_imp, forall_eq,
          Access.Within]
        omega
    · simp only [List.mem_singleton, forall_eq, Access.Within]
      omega

theorem afterRequestAccesses_within (b : ErlBuffer) (q : Request) :
    ∀ a ∈ afterRequestAccesses b q, a.Within := by
  unfold afterRequestAccesses
  split
  · simp only [List.mem_cons, forall_eq_or_imp, Access.Within]
    exact ⟨by omega, by omega, tryDispatchAccesses_within _⟩
  · simp

end Accesses

namespace WpaEx

/--
Between requests the buffer waits, and the request in progress lies in the
input.
-/
def boundedPhases : Phases where
  idle := ErlBuffer.Waits
  sending := Request.Within
  waiting := Request.Within
  idle_reset := ErlBuffer.waits_reset
  idle_of_incomplete _ h := tryDispatch_eq_incomplete_iff.mp h
  sending_of_request _ _ _ _ h := tryDispatch_eq_request h
  waiting_of_sending _ _ h := h

section Runs

open StepSystem

/-- The request that `do_wpa_request` is working on. -/
def request? (s : WpaEx) : Option Request :=
  match s.point with
  | .sendRequest q | .selectReply q | .recvReply q | .msgCb q _ | .sendReply q _ => some q
  | _ => none

/-- The ranges of `erl_buffer` that are used between a system call and the next one. -/
def accesses (s : WpaEx) (sc : Syscall) : List Access :=
  match s.point, sc with
  | .readErl _, .read (.bytes input) =>
      if input.take s.buffer.free = [] then []
      else tryDispatchAccesses (s.buffer.store input)
  | .sendReply q _, .writev bytes (.written n) =>
      if n = bytes.length then afterRequestAccesses s.buffer q else []
  | _, _ => []

theorem accesses_within (s : WpaEx) (sc : Syscall) :
    ∀ a ∈ s.accesses sc, a.Within := by
  fun_cases accesses s sc with
  | case1 | case4 | case5 =>
      simp
  | case2 =>
      exact tryDispatchAccesses_within _
  | case3 =>
      exact afterRequestAccesses_within _ _

variable {s s' : WpaEx} {hist : List Syscall}

/-- No system call fills the buffer up, whatever it returns. -/
theorem run_bounded (hrun : Run step (fun _ _ => True) start hist s) :
    boundedPhases.Holds s := by
  refine hrun.invariant (I := fun _ s => boundedPhases.Holds s) ?_ ?_
  · exact ErlBuffer.waits_empty
  · exact fun hs _ hstep => Phases.holds_step hstep hs

theorem within_of_holds
    {q : Request} (hs : boundedPhases.Holds s) (hq : s.request? = some q) :
    q.Within s.buffer := by
  obtain ⟨b, p⟩ := s
  cases p <;> cases hq <;> exact hs

/-- The dispatch loop ends the program for a long message only. -/
theorem eq_messageTooLong_of_dispatch
    {b : ErlBuffer} {wpaReady : Bool} {e : Exit}
    (h : (dispatch b wpaReady).point = .exited e) :
    e = .messageTooLong := by
  unfold dispatch at h
  split at h
  · cases wpaReady <;> cases h
  · cases h
    rfl
  · cases h

/-- With room in the buffer, `read` returns 0 at the end of the file and only there. -/
theorem endOfFile_iff
    {wpaReady : Bool} {input : Binary} (hfree : 0 < s.buffer.free)
    (hpoint : s.point = .readErl wpaReady) (h : step s (.read (.bytes input)) = some s') :
    s'.point = .exited .endOfFile ↔ input = [] := by
  obtain ⟨b, p⟩ := s
  subst hpoint
  have hempty : input.take b.free = [] ↔ input = [] := by
    rw [List.take_eq_nil_iff, or_iff_right hfree.ne']
  rw [← hempty]
  simp only [step] at h
  split at h
  · next hinput =>
      cases h
      exact iff_of_true rfl hinput
  · next hinput =>
      cases h
      refine iff_of_false (fun hexit => ?_) hinput
      cases eq_messageTooLong_of_dispatch hexit

theorem sent_eq_nil_of_exited
    {sc : Syscall} (h : step s sc = some s') (hexit : s'.Exited) :
    sc.sent = [] := by
  cases step_cases h with
  | again hquiet _ | fails _ hquiet _ =>
      exact hquiet.1
  | sent b q =>
      obtain ⟨e, he⟩ := hexit
      cases he
  | _ =>
      rfl

/-- A call of `process_erl` sends no more requests than its loop dispatches. -/
theorem sends_isPrefix_dispatchLoop
    {b : ErlBuffer} {wpaReady : Bool}
    (hrun : Run step (fun _ sc => sc.input = []) (dispatch b wpaReady) hist s) :
    sends hist <+: (dispatchLoop b).1 := by
  have halive {hist : List Syscall} {s : WpaEx}
      (hrun : Run step (fun _ sc => sc.input = []) (dispatch b wpaReady) hist s)
      (h : ¬ s.Exited) : sends hist <+: (dispatchLoop b).1 := by
    rw [← remaining_dispatch b wpaReady, run_remaining hrun h]
    exact List.prefix_append _ _
  cases hrun with
  | start =>
      exact List.nil_prefix
  | @snoc hist m _ sc prev hread hstep =>
      by_cases hexit : s.Exited
      · have hsent := sent_eq_nil_of_exited hstep hexit
        have hlast : sends (hist ++ [sc]) = sends hist := by
          simp [sends, hsent]
        rw [hlast]
        exact halive prev (not_exited_of_step hstep)
      · exact halive (.snoc prev hread hstep) hexit

/--
In every run, whatever is read: at `poll` the buffer is not full and holds no
complete frame; `read` has room, and returns 0 at the end of the file only; the
request in progress and every range that is copied or moved lie in the input;
and a call of `process_erl` dispatches at most one request for each two bytes.
-/
theorem input_buffer_never_full
    (hrun : Run step (fun _ _ => True) start hist s) :
    (s.point = .poll →
        s.buffer.ix < bufferSize ∧ s.buffer.Waits ∧ unframe? s.buffer.received = none) ∧
      (∀ wpaReady, s.point = .readErl wpaReady →
        0 < s.buffer.free ∧
        ∀ input s', step s (.read (.bytes input)) = some s' →
          (s'.point = .exited .endOfFile ↔ input = [])) ∧
      (∀ q ∈ s.request?, q.Within s.buffer) ∧
      (∀ sc, ∀ a ∈ s.accesses sc, a.Within) ∧
      (∀ wpaReady input, s.point = .readErl wpaReady →
        (dispatchLoop (s.buffer.store input)).1.length ≤ (s.buffer.store input).ix / 2 ∧
        ∀ hist' s',
          Run step (fun _ sc => sc.input = []) (dispatch (s.buffer.store input) wpaReady)
            hist' s' →
          (sends hist').length ≤ (s.buffer.store input).ix / 2) := by
  have hs := run_bounded hrun
  have hfree {wpaReady : Bool} (hpoint : s.point = .readErl wpaReady) :
      0 < s.buffer.free := by
    rw [Phases.Holds, hpoint] at hs
    exact Nat.sub_pos_of_lt hs.ix_lt
  have hloop (b : ErlBuffer) : (dispatchLoop b).1.length ≤ b.ix / 2 := by
    have := two_mul_length_dispatchLoop_le b
    omega
  refine ⟨?_, ?_, fun q hq => within_of_holds hs hq, accesses_within s, ?_⟩
  · intro hpoint
    rw [Phases.Holds, hpoint] at hs
    exact ⟨hs.ix_lt, hs, unframe?_of_tryDispatch_incomplete
      (tryDispatch_eq_incomplete_iff.mpr hs)⟩
  · intro wpaReady hpoint
    exact ⟨hfree hpoint, fun input s' => endOfFile_iff (hfree hpoint) hpoint⟩
  · intro wpaReady input _
    refine ⟨hloop _, fun hist' s' hrun' => ?_⟩
    exact (sends_isPrefix_dispatchLoop hrun').length_le.trans (hloop _)

/-- All of the largest frame that fits, but its last byte. -/
def largestFrameButOne : List Syscall :=
  [.poll (.ready true false), .read (.bytes (7 :: 254 :: List.replicate 2045 0))]

/-- One byte is left for the last byte of the largest frame. -/
theorem input_buffer_never_full_largest :
    ∃ s, Run step (fun _ _ => True) start largestFrameButOne s ∧
      s.buffer.ix = 2047 ∧ s.buffer.msglen = 2046 ∧ s.buffer.ix < bufferSize ∧
      s.buffer.Waits := by
  have hend : (run? step (fun _ _ => True) start largestFrameButOne).map
      (fun s => (s.point, s.buffer.ix, s.buffer.msglen)) = some (.poll, 2047, 2046) := by
    decide +kernel
  obtain ⟨s, hs, hends⟩ := Option.map_eq_some_iff.mp hend
  simp only [Prod.mk.injEq] at hends
  have hrun := run_of_run? hs
  obtain ⟨hlt, hwaits, _⟩ := (input_buffer_never_full hrun).1 hends.1
  exact ⟨s, hrun, hends.2.1, hends.2.2, hlt, hwaits⟩

end Runs

end WpaEx
end WpaSupplicant
