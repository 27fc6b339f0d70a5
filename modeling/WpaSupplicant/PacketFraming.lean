import WpaSupplicant.StreamFraming
import WpaSupplicant.Utf8Text
import Mathlib.Tactic.Common

/-!
# Two-byte length frames

The frames of an Erlang port opened with `{:packet, 2}`: a big-endian length
and then that many bytes.  `packet2` cuts them off a byte stream.
-/

namespace WpaSupplicant

/-- A 16-bit number, most significant byte first; larger numbers wrap. -/
def be16 (n : Nat) : Binary :=
  [UInt8.ofNat (n / 256), UInt8.ofNat n]

/-- The number two bytes denote. -/
def fromBe16 (x y : UInt8) : Nat :=
  x.toNat * 256 + y.toNat

/-- The length header in front of a message. -/
def frame (msg : Binary) : Binary :=
  be16 msg.length ++ msg

/-- One frame off the front of a stream. -/
def unframe? : Binary → Option (Binary × Binary)
  | x :: y :: rest =>
      if fromBe16 x y ≤ rest.length then
        some (rest.take (fromBe16 x y), rest.drop (fromBe16 x y))
      else
        none
  | _ => none

/-- Messages that a two-byte length can announce. -/
def FitsFrame (msg : Binary) : Prop :=
  msg.length < 65536

instance (msg : Binary) : Decidable (FitsFrame msg) :=
  inferInstanceAs (Decidable (msg.length < 65536))

theorem fromBe16_be16
    {n : Nat} (h : n < 65536) :
    fromBe16 (UInt8.ofNat (n / 256)) (UInt8.ofNat n) = n := by
  simp only [fromBe16, UInt8.toNat_ofNat']
  omega

theorem be16_fromBe16 (x y : UInt8) : be16 (fromBe16 x y) = [x, y] := by
  have hx := x.toNat_lt
  have hy := y.toNat_lt
  simp only [be16, fromBe16, List.cons.injEq, and_true, ← UInt8.toNat_inj,
    UInt8.toNat_ofNat']
  omega

@[simp] theorem length_frame (msg : Binary) :
    (frame msg).length = msg.length + 2 := by
  simp [frame, be16]

/-- A frame comes off the front of any stream. -/
theorem unframe?_frame_append
    {msg : Binary} (h : FitsFrame msg) (rest : Binary) :
    unframe? (frame msg ++ rest) = some (msg, rest) := by
  simp [frame, be16, unframe?, fromBe16_be16 h]

/-- What a cut leaves is the stream after the header and the message. -/
theorem unframe?_eq_some
    {xs msg rest : Binary} (h : unframe? xs = some (msg, rest)) :
    ∃ x y, xs = x :: y :: (msg ++ rest) ∧ msg.length = fromBe16 x y := by
  match xs, h with
  | x :: y :: tail, h =>
      simp only [unframe?, Option.ite_none_right_eq_some, Option.some.injEq,
        Prod.mk.injEq] at h
      obtain ⟨hle, rfl, rfl⟩ := h
      exact ⟨x, y, by simp, List.length_take_of_le hle⟩

/-- A cut takes a frame and leaves the rest. -/
theorem eq_frame_append_of_unframe?
    {xs msg rest : Binary} (h : unframe? xs = some (msg, rest)) :
    xs = frame msg ++ rest := by
  obtain ⟨x, y, rfl, hlen⟩ := unframe?_eq_some h
  simp [frame, hlen, be16_fromBe16]

/-- A frame that is not written to its end stays uncut. -/
theorem unframe?_take_frame
    {msg : Binary} (hfit : FitsFrame msg) {n : Nat} (hn : n < (frame msg).length) :
    unframe? ((frame msg).take n) = none := by
  match n, hn with
  | 0, _ | 1, _ =>
      rfl
  | n + 2, hn =>
      rw [length_frame] at hn
      simp only [frame, be16, List.cons_append, List.nil_append, List.take_succ_cons,
        unframe?, fromBe16_be16 hfit, List.length_take]
      rw [if_neg (by omega)]

/-- The deframer of a `{:packet, 2}` stream. -/
def packet2 : Deframer UInt8 Binary where
  next? := unframe?
  shorter := by
    intro xs msg rest h
    obtain ⟨x, y, rfl, _⟩ := unframe?_eq_some h
    simp
    omega
  stable := by
    intro xs msg rest ys h
    obtain ⟨x, y, rfl, hlen⟩ := unframe?_eq_some h
    simp [unframe?, ← hlen]

/-- Frames of messages that fit come off in order. -/
theorem packet2_round
    {msgs : List Binary} (h : ∀ m ∈ msgs, FitsFrame m) :
    ∀ m ∈ msgs, ∀ rest, packet2.next? (frame m ++ rest) = some (m, rest) :=
  fun m hm rest => unframe?_frame_append (h m hm) rest

/-- The bytes of a sequence of frames. -/
def frames (msgs : List Binary) : Binary :=
  (msgs.map frame).flatten

@[simp] theorem frames_nil : frames [] = [] := rfl

@[simp] theorem frames_cons (m : Binary) (msgs : List Binary) :
    frames (m :: msgs) = frame m ++ frames msgs := rfl

@[simp] theorem frames_append (xs ys : List Binary) :
    frames (xs ++ ys) = frames xs ++ frames ys := by
  simp [frames]

/-- A message cut off a view of frames is the first of them. -/
theorem unframe?_view
    {msgs : List Binary} {seen unseen cmd rest : Binary}
    (hfit : ∀ m ∈ msgs, FitsFrame m)
    (hview : seen ++ unseen = frames msgs)
    (hcut : unframe? seen = some (cmd, rest)) :
    ∃ msgs', msgs = cmd :: msgs' ∧ rest ++ unseen = frames msgs' :=
  packet2.next?_of_append_eq_encode (packet2_round hfit) hview hcut

/-- The length that an incomplete view of frames announces, if it shows it. -/
theorem header_of_append_eq_frames
    {msgs : List Binary} (hfit : ∀ m ∈ msgs, FitsFrame m)
    {x y : UInt8} {seen unseen : Binary}
    (hview : x :: y :: seen ++ unseen = frames msgs) :
    ∃ m ∈ msgs, fromBe16 x y = m.length := by
  cases msgs with
  | nil =>
      simp at hview
  | cons m msgs =>
      refine ⟨m, by simp, ?_⟩
      simp only [frames_cons, frame, be16, List.cons_append, List.nil_append,
        List.cons.injEq] at hview
      obtain ⟨rfl, rfl, _⟩ := hview
      exact fromBe16_be16 (hfit m (by simp))

end WpaSupplicant
