import WpaSupplicant.BridgeMachine

/-!
# Datagrams longer than the receive buffer

`recv` copies what fits `wpa_buffer` and discards the rest.  wpa_ex receives at
two points of its program: in `wpa_ctrl_recv`, where the whole copy is passed
on, and in `wpa_ctrl_request`, where an unsolicited message first gives up a byte
for its terminator when it fills the buffer.

* `delivers_iff`: what a message in hand becomes on stdout;
* `receivedWhole_iff`: which datagrams every path delivers unshortened.
-/

namespace WpaSupplicant
namespace WpaEx

open StepSystem

/-- In every run from here, the first frame written, if any, is that of `d`. -/
def Delivers (s : WpaEx) (d : Binary) : Prop :=
  ∀ hist s', Run step (fun _ _ => True) s hist s' →
    ∀ f rest, writes hist = f :: rest → f = frame d

/--
Whichever way the datagram is received, its frame is written unshortened or the
program exits, and both ways of receiving an unsolicited message write the same
frame.
-/
structure ReceivedWhole (d : Binary) : Prop where
  reply : ∀ b q s, unsolicited d = false →
    step ⟨b, .recvReply q⟩ (.recv (.datagram d)) = some s → Delivers s d
  notification : ∀ b q s, unsolicited d = true →
    step ⟨b, .recvReply q⟩ (.recv (.datagram d)) = some s → Delivers s d
  idle : ∀ b s,
    step ⟨b, .recvWpa⟩ (.recv (.datagram d)) = some s → Delivers s d
  same : ∀ b q s b' s', unsolicited d = true →
    step ⟨b, .recvReply q⟩ (.recv (.datagram d)) = some s →
    step ⟨b', .recvWpa⟩ (.recv (.datagram d)) = some s' →
    s.inHand = s'.inHand

theorem frame_injective : Function.Injective frame := by
  intro x y h
  have h' := congrArg (List.drop 2) h
  simpa [frame, be16] using h'

section InHand

variable {s : WpaEx} {msg : Binary} (hmsg : s.inHand = [msg])
include hmsg

/-- With a message in hand the program retries, exits or writes its frame. -/
theorem step_of_inHand
    {s' : WpaEx} {sc : Syscall} (h : step s sc = some s') :
    (sc.written = [] ∧ (s' = s ∨ s'.Exited)) ∨ sc.written = [frame msg] := by
  cases step_cases h with
  | again hquiet _ =>
      exact .inl ⟨hquiet.2.2.2.2, .inl rfl⟩
  | fails e hquiet _ =>
      exact .inl ⟨hquiet.2.2.2.2, .inr ⟨e, rfl⟩⟩
  | shortWrite m n _ hn =>
      exact .inl ⟨if_neg hn, .inr ⟨_, rfl⟩⟩
  | wroteNotification | wroteReply | wroteMessage =>
      right
      cases hmsg
      exact if_pos rfl
  | _ =>
      cases hmsg

/-- Nothing keeps a message in hand from being written. -/
theorem exists_write :
    ∃ s', step s (.writev (frame msg) (.written (frame msg).length)) = some s' := by
  obtain ⟨b, p⟩ := s
  cases p <;> cases hmsg <;> simp [step, sendToErl]

/-- What is written of a message in hand is its frame. -/
theorem writes_of_inHand
    {hist : List Syscall} {s' : WpaEx}
    (hrun : Run step (fun _ _ => True) s hist s') :
    (writes hist = [] ∧ (s' = s ∨ s'.Exited)) ∨
      ∃ rest, writes hist = frame msg :: rest := by
  refine hrun.invariant
    (I := fun hist s' => (writes hist = [] ∧ (s' = s ∨ s'.Exited)) ∨
      ∃ rest, writes hist = frame msg :: rest) (.inl ⟨rfl, .inl rfl⟩) ?_
  intro hist m sc m' ih _ hstep
  have hsnoc : writes (hist ++ [sc]) = writes hist ++ sc.written := by
    simp [writes]
  rw [hsnoc]
  rcases ih with ⟨hnil, rfl | hexited⟩ | ⟨rest, hrest⟩
  · rcases step_of_inHand hmsg hstep with ⟨hwritten, hm'⟩ | hwritten
    · exact .inl ⟨by rw [hnil, hwritten, List.nil_append], hm'⟩
    · exact .inr ⟨[], by rw [hnil, hwritten, List.nil_append]⟩
  · exact absurd hexited (not_exited_of_step hstep)
  · exact .inr ⟨rest ++ sc.written, by rw [hrest, List.cons_append]⟩

/-- A message in hand is delivered as itself and as nothing else. -/
theorem delivers_iff (d : Binary) :
    Delivers s d ↔ msg = d := by
  constructor
  · intro h
    obtain ⟨s', hstep⟩ := exists_write hmsg
    let sc : Syscall := .writev (frame msg) (.written (frame msg).length)
    have hrun : Run step (fun _ _ => True) s ([] ++ [sc]) s' :=
      .snoc .start trivial hstep
    have hwrites : writes ([] ++ [sc]) = [frame msg] := by
      simp [writes, sc, Syscall.written]
    exact frame_injective (h _ _ hrun _ _ hwrites)
  · rintro rfl hist s' hrun f rest hwrites
    rcases writes_of_inHand hmsg hrun with ⟨hnil, _⟩ | ⟨rest', hrest⟩
    · simp [hnil] at hwrites
    · rw [hrest] at hwrites
      exact (List.cons.inj hwrites).1.symm

end InHand

section Copies

theorem recvCopy_eq_self_iff (d : Binary) :
    recvCopy d = d ↔ d.length ≤ bufferSize :=
  List.take_eq_self_iff d

/-- The terminator takes the last byte of a full buffer. -/
theorem nulTerminated_recvCopy_eq_self_iff (d : Binary) :
    nulTerminated (recvCopy d) = d ↔ d.length < bufferSize := by
  constructor
  · intro h
    have hlen := congrArg List.length h
    unfold nulTerminated at hlen
    split at hlen
    · simp only [List.length_take, recvCopy, bufferSize] at *
      omega
    · next hne =>
        simp only [recvCopy, List.length_take] at hlen hne
        omega
  · intro h
    rw [recvCopy_of_length_lt h, nulTerminated_of_length_lt h]

end Copies

section Receiving

variable (b : ErlBuffer) (q : Request) (d : Binary)

theorem step_recvReply_of_reply (h : unsolicited d = false) :
    step ⟨b, .recvReply q⟩ (.recv (.datagram d)) =
      some ⟨b, .sendReply q (recvCopy d)⟩ := by
  simp [step, unsolicited_recvCopy, h, goto]

theorem step_recvReply_of_unsolicited (h : unsolicited d = true) :
    step ⟨b, .recvReply q⟩ (.recv (.datagram d)) =
      some ⟨b, .msgCb q (nulTerminated (recvCopy d))⟩ := by
  simp [step, unsolicited_recvCopy, h, goto]

theorem step_recvWpa :
    step ⟨b, .recvWpa⟩ (.recv (.datagram d)) =
      some ⟨b, .sendMessage (recvCopy d)⟩ :=
  rfl

end Receiving

/--
A datagram arrives unshortened on every path exactly when it fits the buffer
and, if it is an unsolicited message, leaves a byte of it free.
-/
theorem receivedWhole_iff (d : Binary) :
    ReceivedWhole d ↔
      d.length ≤ bufferSize ∧ (unsolicited d = true → d.length < bufferSize) := by
  constructor
  · intro h
    constructor
    · have hidle := h.idle .empty _ (step_recvWpa .empty d)
      rw [delivers_iff rfl] at hidle
      exact (recvCopy_eq_self_iff d).mp hidle
    · intro hd
      have hnotification := h.notification .empty ⟨[], 2, false⟩ _ hd
        (step_recvReply_of_unsolicited _ _ d hd)
      rw [delivers_iff rfl] at hnotification
      exact (nulTerminated_recvCopy_eq_self_iff d).mp hnotification
  · rintro ⟨hle, hlt⟩
    have hcopy : recvCopy d = d := (recvCopy_eq_self_iff d).mpr hle
    have hnul (hd : unsolicited d = true) : nulTerminated (recvCopy d) = d :=
      (nulTerminated_recvCopy_eq_self_iff d).mpr (hlt hd)
    constructor
    · intro b q s hd hstep
      rw [step_recvReply_of_reply b q d hd, Option.some.injEq] at hstep
      subst hstep
      exact (delivers_iff rfl d).mpr hcopy
    · intro b q s hd hstep
      rw [step_recvReply_of_unsolicited b q d hd, Option.some.injEq] at hstep
      subst hstep
      exact (delivers_iff rfl d).mpr (hnul hd)
    · intro b s hstep
      rw [step_recvWpa, Option.some.injEq] at hstep
      subst hstep
      exact (delivers_iff rfl d).mpr hcopy
    · intro b q s b' s' hd hstep hstep'
      rw [step_recvReply_of_unsolicited b q d hd, Option.some.injEq] at hstep
      rw [step_recvWpa, Option.some.injEq] at hstep'
      subst hstep hstep'
      show [nulTerminated (recvCopy d)] = [recvCopy d]
      rw [hnul hd, hcopy]

/-- A notification that fills the buffer loses its last byte during a request. -/
theorem not_receivedWhole_full_buffer :
    ¬ ReceivedWhole (lit "<3>" ++ List.replicate 2045 'A'.toUInt8) := by
  intro h
  have hd : unsolicited (lit "<3>" ++ List.replicate 2045 'A'.toUInt8) = true := rfl
  have hnotification := h.notification .empty ⟨lit "PING", 6, false⟩ _ hd
    (step_recvReply_of_unsolicited _ _ _ hd)
  rw [delivers_iff rfl, nulTerminated_recvCopy_eq_self_iff] at hnotification
  have hthree : (lit "<3>").length = 3 := by decide
  rw [List.length_append, List.length_replicate, hthree] at hnotification
  simp [bufferSize] at hnotification

end WpaEx
end WpaSupplicant
