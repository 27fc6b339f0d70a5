import WpaSupplicant.PatternTrim
import Mathlib.Tactic.Common

/-!
# Binaries and the code points in them

A binary is a list of bytes; nothing makes it UTF-8.  Reading it from the left,
a code point is taken wherever a well-formed encoding of one starts, and a
single byte is taken wherever none does.

* `Utf8.head?_eq_some_iff`: what one `::utf8` segment of a binary pattern takes;
* `Utf8.units_append`: reading stops and resumes at any byte that starts a
  character;
* `Utf8.charPatterns`: the encodings of a set of characters can be trimmed.
-/

namespace WpaSupplicant

/-- An Erlang binary. -/
abbrev Binary := List UInt8

/-- The bytes of a string literal. -/
def lit (s : String) : Binary :=
  s.toUTF8.data.toList

namespace Utf8

open String (utf8EncodeChar)

/-- The code point whose encoding starts the binary. -/
def head? (b : Binary) : Option Char :=
  b.toByteArray.utf8DecodeChar? 0

/-- A byte that only continues a character. -/
def IsContinuation (x : UInt8) : Prop :=
  128 ≤ x.toNat ∧ x.toNat < 192

/-- An encoding is one starting byte and then continuation bytes. -/
theorem encodeChar_eq_cons (c : Char) :
    ∃ x xs, utf8EncodeChar c = x :: xs ∧ ¬ IsContinuation x ∧
      ∀ y ∈ xs, IsContinuation y := by
  fun_cases String.utf8EncodeChar c <;>
    simp [IsContinuation, UInt8.toNat_ofNat'] <;> omega

theorem encodeChar_ne_nil (c : Char) : utf8EncodeChar c ≠ [] := by
  obtain ⟨x, xs, h, _⟩ := encodeChar_eq_cons c
  simp [h]

theorem encodeChar_of_ascii
    {c : Char} (hc : c.toNat < 128) :
    utf8EncodeChar c = [UInt8.ofNat c.toNat] := by
  have h : ¬ 127 < c.toNat := by omega
  simp [utf8EncodeChar, h]

theorem head?_encode_append (c : Char) (b : Binary) :
    head? (utf8EncodeChar c ++ b) = some c := by
  unfold head?
  rw [List.toByteArray_append]
  exact ByteArray.utf8DecodeChar?_utf8EncodeChar_append

/-- A code point is read exactly where its encoding stands. -/
theorem head?_eq_some_iff {b : Binary} {c : Char} :
    head? b = some c ↔ utf8EncodeChar c <+: b := by
  constructor
  · intro h
    obtain ⟨l, hl⟩ := ByteArray.exists_of_utf8DecodeChar?_eq_some h
    refine ⟨l.data.toList, ?_⟩
    have := congrArg (fun x : ByteArray => x.data.toList) hl
    simpa using this.symm
  · rintro ⟨rest, rfl⟩
    exact head?_encode_append c rest

/-- Two encodings that start the same binary are the same. -/
theorem encodeChar_inj_of_isPrefix
    {b : Binary} {c d : Char}
    (hc : utf8EncodeChar c <+: b) (hd : utf8EncodeChar d <+: b) :
    c = d := by
  rw [← head?_eq_some_iff] at hc hd
  exact Option.some.inj (hc.symm.trans hd)

/-- Code points and stray bytes, the first `k` bytes skipped. -/
def unitsAux : Nat → Binary → List (Char ⊕ UInt8)
  | _, [] => []
  | k + 1, _ :: b => unitsAux k b
  | 0, x :: b =>
      match head? (x :: b) with
      | some c => .inl c :: unitsAux (c.utf8Size - 1) b
      | none => .inr x :: unitsAux 0 b

/-- The code points of a binary, and its bytes where there is none. -/
def units (b : Binary) : List (Char ⊕ UInt8) :=
  unitsAux 0 b

@[simp] theorem units_nil : units [] = [] := rfl

theorem unitsAux_length_append (xs b : Binary) :
    unitsAux xs.length (xs ++ b) = units b := by
  induction xs with
  | nil =>
      rfl
  | cons x xs ih =>
      exact ih

@[simp] theorem units_encode_append (c : Char) (b : Binary) :
    units (utf8EncodeChar c ++ b) = .inl c :: units b := by
  obtain ⟨x, xs, hc, _⟩ := encodeChar_eq_cons c
  have hhead := head?_encode_append c b
  have hlen : xs.length = c.utf8Size - 1 := by
    have := String.length_utf8EncodeChar c
    rw [hc, List.length_cons] at this
    omega
  rw [hc, List.cons_append] at hhead ⊢
  rw [units, unitsAux, hhead]
  simp only [← hlen, unitsAux_length_append]

theorem units_flatMap_append (cs : List Char) (b : Binary) :
    units (cs.flatMap utf8EncodeChar ++ b) = cs.map .inl ++ units b := by
  induction cs with
  | nil =>
      rfl
  | cons c cs ih =>
      rw [List.flatMap_cons, List.append_assoc, units_encode_append, ih]
      rfl

theorem lit_ofList_eq_flatMap (cs : List Char) :
    lit (String.ofList cs) = cs.flatMap utf8EncodeChar := by
  simp [lit, List.utf8Encode]

/-- A literal is read as its characters, whatever stands behind it. -/
theorem units_lit_append (s : String) (b : Binary) :
    units (lit s ++ b) = s.toList.map .inl ++ units b := by
  have h := units_flatMap_append s.toList b
  rwa [← lit_ofList_eq_flatMap, String.ofList_toList] at h

theorem units_cons_of_none
    {x : UInt8} {b : Binary} (h : head? (x :: b) = none) :
    units (x :: b) = .inr x :: units b := by
  rw [units, unitsAux, h]
  rfl

/-- The binary is empty or starts with a byte that starts a character. -/
def AtBoundary (b : Binary) : Prop :=
  ∀ x ∈ b.head?, ¬ IsContinuation x

theorem atBoundary_encode_append (c : Char) (b : Binary) :
    AtBoundary (utf8EncodeChar c ++ b) := by
  obtain ⟨x, xs, hc, hx, _⟩ := encodeChar_eq_cons c
  simp [AtBoundary, hc, hx]

/-- No code point is read across a boundary. -/
theorem head?_append_of_atBoundary
    {p e : Binary} (hp : p ≠ []) (he : AtBoundary e) :
    head? (p ++ e) = head? p := by
  apply Option.ext
  intro c
  rw [head?_eq_some_iff, head?_eq_some_iff]
  constructor
  · intro hc
    rcases List.prefix_or_prefix_of_prefix hc (List.prefix_append p e) with
      h | ⟨t, ht⟩
    · exact h
    · -- `p` ends inside the encoding, so `e` would start with a continuation
      cases t with
      | nil =>
          rw [List.append_nil] at ht
          rw [ht]
      | cons y t =>
          exfalso
          obtain ⟨x, xs, hcs, _, hxs⟩ := encodeChar_eq_cons c
          rw [← ht, List.prefix_append_right_inj] at hc
          obtain ⟨e', rfl⟩ := hc
          rw [hcs] at ht
          cases p with
          | nil =>
              exact hp rfl
          | cons z p =>
              obtain ⟨rfl, htail⟩ := List.cons.inj ht
              refine he y (by simp) (hxs y ?_)
              rw [← htail]
              simp
  · intro hc
    exact hc.trans (List.prefix_append p e)

/-- Reading a concatenation at a boundary reads both parts. -/
theorem units_append
    (p : Binary) {e : Binary} (he : AtBoundary e) :
    units (p ++ e) = units p ++ units e := by
  induction h : p.length using Nat.strongRecOn generalizing p with
  | ind n ih =>
      cases p with
      | nil =>
          rfl
      | cons x p =>
          have hhead := head?_append_of_atBoundary (p := x :: p) (by simp) he
          cases hx : head? (x :: p) with
          | none =>
              rw [units_cons_of_none hx, List.cons_append,
                units_cons_of_none (by rw [← List.cons_append, hhead, hx]),
                ih p.length (by rw [← h]; simp) p rfl]
              rfl
          | some c =>
              obtain ⟨rest, hrest⟩ := head?_eq_some_iff.mp hx
              have hlen : rest.length < n := by
                have hpos := List.length_pos_iff.mpr (encodeChar_ne_nil c)
                have := congrArg List.length hrest
                rw [List.length_append] at this
                omega
              rw [← hrest, List.append_assoc, units_encode_append,
                units_encode_append, ih rest.length hlen rest rfl]
              rfl

/-- Every byte belongs to some code point. -/
def IsText (b : Binary) : Prop :=
  ∀ u ∈ units b, u.isLeft = true

instance (b : Binary) : Decidable (IsText b) :=
  inferInstanceAs (Decidable (∀ u ∈ units b, u.isLeft = true))

/-- An encoding that ends another one is the same. -/
theorem encodeChar_eq_of_suffix
    {c d : Char} (h : utf8EncodeChar c <:+ utf8EncodeChar d) :
    utf8EncodeChar c = utf8EncodeChar d := by
  obtain ⟨x, xs, hc, hx, _⟩ := encodeChar_eq_cons c
  obtain ⟨y, ys, hd, _, hys⟩ := encodeChar_eq_cons d
  rw [hc, hd] at h ⊢
  rcases List.suffix_cons_iff.mp h with h | h
  · exact h
  · exact absurd (hys x (h.subset (by simp))) hx

/-- The encodings of some characters, as patterns to trim. -/
def charPatterns (cs : List Char) : PatternSet UInt8 where
  pats := cs.map utf8EncodeChar
  ne_nil := by
    intro p hp
    obtain ⟨c, _, rfl⟩ := List.mem_map.mp hp
    exact encodeChar_ne_nil c
  prefixFree := by
    intro p hp q hq hpq
    obtain ⟨c, _, rfl⟩ := List.mem_map.mp hp
    obtain ⟨d, _, rfl⟩ := List.mem_map.mp hq
    rw [encodeChar_inj_of_isPrefix hpq (List.prefix_refl _)]
  suffixFree := by
    intro p hp q hq hpq
    obtain ⟨c, _, rfl⟩ := List.mem_map.mp hp
    obtain ⟨d, _, rfl⟩ := List.mem_map.mp hq
    exact encodeChar_eq_of_suffix hpq

theorem noneAhead_charPatterns_iff (cs : List Char) (b : Binary) :
    (charPatterns cs).NoneAhead b ↔ ∀ c ∈ cs, ¬ utf8EncodeChar c <+: b := by
  simp [PatternSet.NoneAhead, charPatterns]

theorem noneBehind_charPatterns_iff (cs : List Char) (b : Binary) :
    (charPatterns cs).NoneBehind b ↔ ∀ c ∈ cs, ¬ utf8EncodeChar c <:+ b := by
  simp [PatternSet.NoneBehind, charPatterns]

end Utf8
end WpaSupplicant
