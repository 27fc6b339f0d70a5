import WpaSupplicant.PacketFraming

/-!
# The input buffer of wpa_ex

`erl_buffer` with its fill index, `try_dispatch` and `process_erl`.  A call of
`process_erl` returns the payloads it handed to `do_wpa_request`, in order, and
the buffer it leaves or the reason the process exited; what the requests
themselves do is not part of this module.
-/

namespace WpaSupplicant

/-- `BUFFER_SIZE`. -/
def bufferSize : Nat := 2048

/-- Why wpa_ex exits. -/
inductive Exit
  | pollFailed
  | readFailed
  | endOfFile
  | messageTooLong
  | requestFailed
  | recvFailed
  | writevFailed
  | notEnoughWritten
deriving DecidableEq

/-- `erl_buffer` and `erl_buffer_ix`. -/
structure ErlBuffer where
  bytes : Binary
  ix : Nat
  length_bytes : bytes.length = bufferSize
  ix_le : ix ≤ bufferSize

namespace ErlBuffer

/-- The static buffer at program start. -/
def empty : ErlBuffer where
  bytes := List.replicate bufferSize 0
  ix := 0
  length_bytes := List.length_replicate
  ix_le := Nat.zero_le _

/-- The part of the buffer that holds input. -/
def received (b : ErlBuffer) : Binary :=
  b.bytes.take b.ix

/-- `sizeof(erl_buffer) - erl_buffer_ix`, the size passed to `read`. -/
def free (b : ErlBuffer) : Nat :=
  bufferSize - b.ix

/-- `read` into the free part: at most its size is taken from `input`. -/
def store (b : ErlBuffer) (input : Binary) : ErlBuffer where
  bytes :=
    b.bytes.take b.ix ++ input.take b.free ++
      b.bytes.drop (b.ix + (input.take b.free).length)
  ix := b.ix + (input.take b.free).length
  length_bytes := by
    have := b.length_bytes
    have := b.ix_le
    simp only [List.length_append, List.length_take, List.length_drop, free]
    omega
  ix_le := by
    have := b.ix_le
    simp only [List.length_take, free]
    omega

/-- The `memmove` that drops the first `n` bytes of input. -/
def shift (b : ErlBuffer) (n : Nat) : ErlBuffer where
  bytes := (b.bytes.drop n).take (b.ix - n) ++ b.bytes.drop (b.ix - n)
  ix := b.ix - n
  length_bytes := by
    have := b.length_bytes
    have := b.ix_le
    simp only [List.length_append, List.length_take, List.length_drop]
    omega
  ix_le := by
    have := b.ix_le
    omega

/-- `erl_buffer_ix = 0`. -/
def reset (b : ErlBuffer) : ErlBuffer :=
  { b with ix := 0, ix_le := Nat.zero_le _ }

@[simp] theorem received_empty : empty.received = [] := by
  simp [received, empty]

@[simp] theorem length_received (b : ErlBuffer) : b.received.length = b.ix := by
  have := b.ix_le
  rw [received, List.length_take, b.length_bytes]
  omega

@[simp] theorem received_reset (b : ErlBuffer) : b.reset.received = [] := by
  simp [received, reset]

/-- What fits is appended to the input. -/
@[simp] theorem received_store (b : ErlBuffer) (input : Binary) :
    (b.store input).received = b.received ++ input.take b.free := by
  have hlen : (b.bytes.take b.ix).length = b.ix := b.length_received
  simp only [received, store]
  rw [List.take_append_of_le_length]
  · rw [List.take_of_length_le]
    rw [List.length_append, hlen]
  · rw [List.length_append, hlen]

/-- The `memmove` drops input from the front. -/
@[simp] theorem received_shift (b : ErlBuffer) (n : Nat) :
    (b.shift n).received = b.received.drop n := by
  have hlen : ((b.bytes.drop n).take (b.ix - n)).length = b.ix - n := by
    have := b.length_bytes
    have := b.ix_le
    rw [List.length_take, List.length_drop]
    omega
  simp only [received, shift]
  rw [List.take_append_of_le_length (by rw [hlen]),
    List.take_of_length_le (by rw [hlen]), List.drop_take]

end ErlBuffer

/-- What `try_dispatch` finds: its return value is 0 in the first case. -/
inductive Dispatch
  | incomplete
  | tooLong
  | request (cmd : Binary) (processed : Nat)
deriving DecidableEq

/-- `try_dispatch`, up to the call of `do_wpa_request`. -/
def tryDispatch (b : ErlBuffer) : Dispatch :=
  if b.ix < 2 then
    .incomplete
  else
    let msglen := fromBe16 (b.bytes.getD 0 0) (b.bytes.getD 1 0)
    if msglen + 2 > bufferSize then
      .tooLong
    else if msglen + 2 > b.ix then
      .incomplete
    else
      .request ((b.bytes.drop 2).take msglen) (msglen + 2)

/-- A dispatched request uses up at least its header. -/
theorem two_le_processed
    {b : ErlBuffer} {cmd : Binary} {n : Nat}
    (h : tryDispatch b = .request cmd n) :
    2 ≤ n := by
  unfold tryDispatch at h
  split at h
  · cases h
  · simp only at h
    split at h
    · cases h
    · split at h
      · cases h
      · cases h
        omega

/-- The `for` loop of `process_erl`. -/
def dispatchLoop (b : ErlBuffer) : List Binary × Except Exit ErlBuffer :=
  match _h : tryDispatch b with
  | .incomplete => ([], .ok b)
  | .tooLong => ([], .error .messageTooLong)
  | .request cmd n =>
      if n < b.ix then
        (cmd :: (dispatchLoop (b.shift n)).1, (dispatchLoop (b.shift n)).2)
      else
        ([cmd], .ok b.reset)
termination_by b.ix
decreasing_by
  all_goals
    have := two_le_processed _h
    simp only [ErlBuffer.shift]
    omega

/-- What `read` returns: an error, or bytes, none of them at the end of file. -/
inductive ReadResult
  | interrupted
  | failed
  | bytes (input : Binary)
deriving DecidableEq

/-- `process_erl`. -/
def processErl (b : ErlBuffer) (r : ReadResult) :
    List Binary × Except Exit ErlBuffer :=
  match r with
  | .interrupted => ([], .ok b)
  | .failed => ([], .error .readFailed)
  | .bytes input =>
      if input.take b.free = [] then
        ([], .error .endOfFile)
      else
        dispatchLoop (b.store input)

/-- `process_erl` once for each read. -/
def processErlAll (b : ErlBuffer) :
    List ReadResult → List Binary × Except Exit ErlBuffer
  | [] => ([], .ok b)
  | r :: rs =>
      match processErl b r with
      | (payloads, .ok b') =>
          (payloads ++ (processErlAll b' rs).1, (processErlAll b' rs).2)
      | (payloads, .error e) => (payloads, .error e)

section Dispatching

variable {b : ErlBuffer}

/-- The buffer is its input and then stale bytes. -/
theorem bytes_eq_received_append (b : ErlBuffer) :
    ∃ stale, b.bytes = b.received ++ stale :=
  ⟨b.bytes.drop b.ix, (List.take_append_drop b.ix b.bytes).symm⟩

/-- A complete frame in the input is dispatched. -/
theorem tryDispatch_of_unframe?_eq_some
    {cmd rest : Binary} (h : unframe? b.received = some (cmd, rest)) :
    tryDispatch b = .request cmd (cmd.length + 2) ∧
      rest = b.received.drop (cmd.length + 2) ∧ cmd.length + 2 ≤ b.ix := by
  obtain ⟨x, y, hreceived, hlen⟩ := unframe?_eq_some h
  have hix : cmd.length + 2 ≤ b.ix := by
    rw [← b.length_received, hreceived]
    simp
  have hle := b.ix_le
  obtain ⟨stale, hbytes⟩ := bytes_eq_received_append b
  rw [hreceived] at hbytes
  refine ⟨?_, ?_, hix⟩
  · rw [tryDispatch, if_neg (by omega)]
    simp only [hbytes, List.cons_append, List.getD_cons_zero,
      List.getD_cons_succ, ← hlen]
    rw [if_neg (by omega), if_neg (by omega)]
    simp
  · rw [hreceived]
    simp

/-- Without a complete frame `try_dispatch` waits or rejects the header. -/
theorem tryDispatch_of_unframe?_eq_none
    (h : unframe? b.received = none) :
    tryDispatch b = .incomplete ∨
      tryDispatch b = .tooLong ∧
        ∃ x y tail, b.received = x :: y :: tail ∧
          bufferSize < fromBe16 x y + 2 := by
  have hlen := b.length_received
  obtain ⟨stale, hbytes⟩ := bytes_eq_received_append b
  match hreceived : b.received with
  | [] | [_] =>
      left
      rw [hreceived] at hlen
      rw [tryDispatch, if_pos (by rw [← hlen]; simp)]
  | x :: y :: tail =>
      rw [hreceived] at h hlen hbytes
      simp only [unframe?, ite_eq_right_iff, reduceCtorEq, imp_false] at h
      simp only [List.length_cons] at hlen
      rw [tryDispatch, if_neg (by omega)]
      simp only [hbytes, List.cons_append, List.getD_cons_zero,
        List.getD_cons_succ]
      by_cases hlong : fromBe16 x y + 2 > bufferSize
      · right
        rw [if_pos hlong]
        exact ⟨rfl, x, y, tail, rfl, hlong⟩
      · left
        rw [if_neg hlong, if_pos (by omega)]

/-- A dispatched request is the first frame of the input. -/
theorem unframe?_of_tryDispatch
    {cmd : Binary} {n : Nat} (h : tryDispatch b = .request cmd n) :
    unframe? b.received = some (cmd, b.received.drop n) := by
  cases hcut : unframe? b.received with
  | none =>
      rcases tryDispatch_of_unframe?_eq_none hcut with h' | ⟨h', _⟩ <;>
        simp [h'] at h
  | some p =>
      obtain ⟨cmd', rest⟩ := p
      obtain ⟨hdispatch, hrest, _⟩ := tryDispatch_of_unframe?_eq_some hcut
      rw [hdispatch] at h
      cases h
      rw [hrest]

/-- `try_dispatch` waits only for the rest of a frame. -/
theorem unframe?_of_tryDispatch_incomplete
    (h : tryDispatch b = .incomplete) :
    unframe? b.received = none := by
  cases hcut : unframe? b.received with
  | none =>
      rfl
  | some p =>
      obtain ⟨hdispatch, _⟩ := tryDispatch_of_unframe?_eq_some hcut
      simp [hdispatch] at h

end Dispatching

end WpaSupplicant
