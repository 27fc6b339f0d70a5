import WpaSupplicant.InputBuffer

/-!
# Reassembly of the request stream

`process_erl` on a stream of frames, however the stream is cut into reads.  The
one-shot parse of the bytes read so far says which payloads have been handed to
`do_wpa_request` and what the buffer holds; `dispatchLoop_of_frames` is the step
for one read and `processErlAll_of_frames` the run over all reads.
-/

namespace WpaSupplicant

/-- The largest payload whose frame fits the buffer. -/
def maxPayload : Nat := bufferSize - 2

/-- The bytes that a sequence of reads takes from the stream. -/
def bytesRead (reads : List ReadResult) : Binary :=
  reads.flatMap fun
    | .bytes input => input
    | _ => []

/--
Reads that deliver the stream: each is interrupted or returns at least one byte
and at most the space that is free at that time.
-/
def Cuts (b : ErlBuffer) : List ReadResult → Prop
  | [] => True
  | .interrupted :: reads => Cuts b reads
  | .failed :: _ => False
  | .bytes input :: reads =>
      input ≠ [] ∧ input.length ≤ b.free ∧
        ∀ b', (processErl b (.bytes input)).2 = .ok b' → Cuts b' reads

/-- Dispatching never adds input. -/
theorem dispatchLoop_ix_le
    {b b' : ErlBuffer} (h : (dispatchLoop b).2 = .ok b') :
    b'.ix ≤ b.ix := by
  fun_induction dispatchLoop b with
  | case1 b _ =>
      cases h
      exact le_rfl
  | case2 =>
      cases h
  | case3 b cmd n _ hlt ih =>
      exact (ih h).trans (Nat.sub_le b.ix n)
  | case4 =>
      cases h
      exact Nat.zero_le _

/-- A stream that is shorter than the free space may be cut anywhere. -/
theorem cuts_of_length_le
    {b : ErlBuffer} {reads : List ReadResult}
    (hreads : ∀ r ∈ reads, r ≠ .failed ∧ r ≠ .bytes [])
    (hlen : b.ix + (bytesRead reads).length ≤ bufferSize) :
    Cuts b reads := by
  induction reads generalizing b with
  | nil =>
      trivial
  | cons r reads ih =>
      have hrest : ∀ r' ∈ reads, r' ≠ .failed ∧ r' ≠ .bytes [] :=
        fun r' hr' => hreads r' (List.mem_cons_of_mem _ hr')
      obtain ⟨hfailed, hempty⟩ := hreads r (by simp)
      cases r with
      | interrupted =>
          exact ih hrest hlen
      | failed =>
          exact absurd rfl hfailed
      | bytes input =>
          have hread : bytesRead (.bytes input :: reads) =
              input ++ bytesRead reads := rfl
          rw [hread, List.length_append] at hlen
          have hne : input ≠ [] := fun h => hempty (by rw [h])
          have hle : input.length ≤ b.free := by
            simp only [ErlBuffer.free]
            omega
          refine ⟨hne, hle, fun b' hb' => ih hrest ?_⟩
          rw [processErl, List.take_of_length_le hle, if_neg hne] at hb'
          have := dispatchLoop_ix_le hb'
          simp only [ErlBuffer.store, List.take_of_length_le hle] at this
          omega

/-- Messages whose frames fit the buffer. -/
def FitBuffer (msgs : List Binary) : Prop :=
  ∀ m ∈ msgs, m.length ≤ maxPayload

theorem FitBuffer.fitsFrame
    {msgs : List Binary} (h : FitBuffer msgs) :
    ∀ m ∈ msgs, FitsFrame m := by
  intro m hm
  have := h m hm
  simp only [maxPayload, bufferSize] at this
  simp only [FitsFrame]
  omega

theorem FitBuffer.tail
    {m : Binary} {msgs : List Binary} (h : FitBuffer (m :: msgs)) :
    FitBuffer msgs :=
  fun m' hm' => h m' (List.mem_cons_of_mem _ hm')

/-- An incomplete view of fitting frames makes `try_dispatch` wait. -/
theorem tryDispatch_eq_incomplete
    {b : ErlBuffer} {msgs : List Binary} {unseen : Binary}
    (hfit : FitBuffer msgs)
    (hview : b.received ++ unseen = frames msgs)
    (hnone : unframe? b.received = none) :
    tryDispatch b = .incomplete := by
  rcases tryDispatch_of_unframe?_eq_none hnone with h | ⟨_, x, y, tail, hb, hlong⟩
  · exact h
  · exfalso
    rw [hb] at hview
    obtain ⟨m, hm, hheader⟩ := header_of_append_eq_frames hfit.fitsFrame hview
    have := hfit m hm
    simp only [maxPayload, bufferSize] at this hlong
    omega

/-- The dispatch loop performs the one-shot parse of the input. -/
theorem dispatchLoop_of_frames
    {b : ErlBuffer} {msgs : List Binary} {unseen : Binary}
    (hfit : FitBuffer msgs)
    (hview : b.received ++ unseen = frames msgs) :
    ∃ b' msgs',
      dispatchLoop b = ((packet2.parse b.received).1, .ok b') ∧
      b'.received = (packet2.parse b.received).2 ∧
      FitBuffer msgs' ∧ b'.received ++ unseen = frames msgs' := by
  fun_induction dispatchLoop b generalizing msgs with
  | case1 b hdispatch =>
      rw [packet2.parse_of_none (unframe?_of_tryDispatch_incomplete hdispatch)]
      exact ⟨b, msgs, rfl, rfl, hfit, hview⟩
  | case2 b hdispatch =>
      -- the frames fit, so no header of theirs is rejected
      have hcut : unframe? b.received = none := by
        cases hcut : unframe? b.received with
        | none =>
            rfl
        | some p =>
            rw [(tryDispatch_of_unframe?_eq_some hcut).1] at hdispatch
            cases hdispatch
      rw [tryDispatch_eq_incomplete hfit hview hcut] at hdispatch
      cases hdispatch
  | case3 b cmd n hdispatch _ ih =>
      -- another command follows: the buffer is shifted and the loop goes on
      have hcut := unframe?_of_tryDispatch hdispatch
      obtain ⟨msgs', rfl, hrestview⟩ := unframe?_view hfit.fitsFrame hview hcut
      have hshift := b.received_shift n
      obtain ⟨b', msgs'', h₁, h₂, h₃, h₄⟩ := ih hfit.tail (by rw [hshift, hrestview])
      rw [hshift] at h₁ h₂
      rw [packet2.parse_of_some hcut, h₁]
      exact ⟨b', msgs'', rfl, h₂, h₃, h₄⟩
  | case4 b cmd n hdispatch hle =>
      -- the command was the whole input
      have hcut := unframe?_of_tryDispatch hdispatch
      obtain ⟨msgs', rfl, hrestview⟩ := unframe?_view hfit.fitsFrame hview hcut
      have hnil : b.received.drop n = [] :=
        List.drop_eq_nil_of_le (by rw [b.length_received]; omega)
      rw [hnil] at hcut hrestview
      rw [packet2.parse_of_some hcut]
      exact ⟨b.reset, msgs', by simp, by simp, hfit.tail, by simpa using hrestview⟩

/-- Any sequence of reads performs the one-shot parse of the bytes read. -/
theorem processErlAll_of_frames
    {b : ErlBuffer} {reads : List ReadResult}
    {msgs : List Binary} {unseen : Binary}
    (hfit : FitBuffer msgs)
    (hview : b.received ++ (bytesRead reads ++ unseen) = frames msgs)
    (hnone : unframe? b.received = none)
    (hcut : Cuts b reads) :
    ∃ b',
      processErlAll b reads =
        ((packet2.parse (b.received ++ bytesRead reads)).1, .ok b') ∧
      b'.received = (packet2.parse (b.received ++ bytesRead reads)).2 := by
  induction reads generalizing b msgs with
  | nil =>
      refine ⟨b, ?_⟩
      simp [processErlAll, bytesRead, packet2.parse_of_none hnone]
  | cons r reads ih =>
      cases r with
      | interrupted =>
          obtain ⟨b', h₁, h₂⟩ := ih (b := b) hfit hview hnone hcut
          refine ⟨b', ?_, h₂⟩
          simp only [processErlAll, processErl, h₁, List.nil_append]
          rfl
      | failed =>
          exact hcut.elim
      | bytes input =>
          obtain ⟨hne, hle, hrest⟩ := hcut
          have htake : input.take b.free = input := List.take_of_length_le hle
          have hstore : (b.store input).received = b.received ++ input := by
            rw [ErlBuffer.received_store, htake]
          have hread : bytesRead (.bytes input :: reads) =
              input ++ bytesRead reads := rfl
          have hprocess :
              processErl b (.bytes input) = dispatchLoop (b.store input) := by
            simp [processErl, htake, hne]
          have hviewstore :
              (b.store input).received ++ (bytesRead reads ++ unseen) = frames msgs := by
            rw [hstore, ← hview, hread]
            simp
          obtain ⟨b₁, msgs₁, hloop, hb₁, hfit₁, hview₁⟩ :=
            dispatchLoop_of_frames hfit hviewstore
          rw [hstore] at hloop hb₁
          have hnone₁ : unframe? b₁.received = none := by
            rw [hb₁]
            exact packet2.next?_parse_snd _
          rw [hprocess, hloop] at hrest
          obtain ⟨b', h₁, h₂⟩ := ih hfit₁ hview₁ hnone₁ (hrest b₁ rfl)
          rw [hread, ← List.append_assoc, packet2.parse_append, ← hb₁]
          refine ⟨b', ?_, h₂⟩
          simp only [processErlAll, hprocess, hloop, h₁]

/--
However a prefix of the request stream is cut into reads, wpa_ex hands exactly
the payloads of its complete frames to `do_wpa_request`, in order, and keeps the
incomplete tail; this is the one-shot parse of the prefix.
-/
theorem processErlAll_reassembles
    (payloads : List Binary) (hlen : ∀ p ∈ payloads, p.length ≤ 2046)
    (reads : List ReadResult)
    (hfront : bytesRead reads <+: frames payloads)
    (hcut : Cuts .empty reads) :
    ∃ b : ErlBuffer,
      processErlAll .empty reads =
        ((packet2.parse (bytesRead reads)).1, .ok b) ∧
      b.received = (packet2.parse (bytesRead reads)).2 ∧
      (packet2.parse (bytesRead reads)).1 <+: payloads ∧
      bytesRead reads =
        frames (packet2.parse (bytesRead reads)).1 ++ b.received ∧
      unframe? b.received = none := by
  have hfit : FitBuffer payloads := hlen
  obtain ⟨unseen, hview⟩ := hfront
  have hempty : ErlBuffer.empty.received ++ (bytesRead reads ++ unseen) =
      frames payloads := by
    simpa using hview
  obtain ⟨b, hrun, hb⟩ :=
    processErlAll_of_frames hfit hempty (by simp [unframe?]) hcut
  obtain ⟨hpre, hsplit⟩ :=
    packet2.parse_of_isPrefix_encode (packet2_round hfit.fitsFrame)
      ⟨unseen, hview⟩
  simp only [ErlBuffer.received_empty, List.nil_append] at hrun hb
  refine ⟨b, hrun, hb, hpre, ?_, ?_⟩
  · rw [hb]
    exact hsplit
  · rw [hb]
    exact packet2.next?_parse_snd _

/-- Reads that split a header, carry several frames and end inside one. -/
theorem processErlAll_reassembles_straddling :
    ∃ b : ErlBuffer,
      processErlAll .empty
          [.bytes [0], .interrupted, .bytes (4 :: lit "PI"),
            .bytes (lit "NG" ++ [0, 0, 0, 4] ++ lit "SC")] =
        ([lit "PING", []], .ok b) ∧
      b.received = [0, 4] ++ lit "SC" := by
  have hcut : Cuts .empty
      [.bytes [0], .interrupted, .bytes (4 :: lit "PI"),
        .bytes (lit "NG" ++ [0, 0, 0, 4] ++ lit "SC")] :=
    cuts_of_length_le (by decide) (by decide)
  obtain ⟨b, hrun, hb, _⟩ :=
    processErlAll_reassembles [lit "PING", [], lit "SCAN"] (by decide) _
      (by decide) hcut
  have htail : packet2.next? ([0, 4] ++ lit "SC") = none := by decide
  have hparse :
      packet2.parse (frames [lit "PING", []] ++ ([0, 4] ++ lit "SC")) =
        ([lit "PING", []], [0, 4] ++ lit "SC") := by
    rw [frames, packet2.parse_encode_append (packet2_round (by decide)),
      packet2.parse_of_none htail]
    rfl
  refine ⟨b, ?_, ?_⟩
  · rw [hrun]
    exact congrArg (fun p : List Binary × Binary => (p.1, Except.ok b)) hparse
  · rw [hb]
    exact congrArg Prod.snd hparse

end WpaSupplicant
