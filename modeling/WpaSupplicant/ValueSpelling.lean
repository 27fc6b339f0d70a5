import WpaSupplicant.MessageDecoding
import WpaSupplicant.SeparatedTokens

/-!
# How a value is spelled

`kv_value` reads a value as a boolean, as nothing, as a decimal or hexadecimal
number, or else as text.

* `kvValue_eq_int_iff`: the numbers, by what a spelling denotes;
* `kvValue_eq_text_iff`: the texts, with the ones that lose their `0x`;
* `keptVerbatim_iff`: a value that is no number is kept as it is unless it
  starts like a hexadecimal number;
* `kvValue_eq_kvValue_iff`: which two spellings are read alike.
-/

namespace WpaSupplicant
namespace Decode

open ElixirString

/-- A decimal number, or a hexadecimal one behind `0x`. -/
def Denotes (v : Binary) (n : Int) : Prop :=
  (IsNumeral 10 v ∧ n = numeralValue 10 v) ∨
    ∃ hex, v = lit "0x" ++ hex ∧ IsNumeral 16 hex ∧ n = numeralValue 16 hex

/-- It starts like a hexadecimal number and is none. -/
def IsHexMiss (v : Binary) : Prop :=
  ∃ rest, v = lit "0x" ++ rest ∧ ¬ IsNumeral 16 rest

/-- Text that no clause of `kv_value` takes for anything else. -/
def IsFreeText (v : Binary) : Prop :=
  v ≠ lit "TRUE" ∧ v ≠ lit "FALSE" ∧ v ≠ [] ∧ ¬ lit "0x" <+: v ∧ ¬ IsNumeral 10 v

instance (v : Binary) : Decidable (IsFreeText v) :=
  inferInstanceAs (Decidable (_ ∧ _))

/-- The literals are read as what they name, the numbers as numbers, and no text is changed. -/
def KeptVerbatim (v : Binary) : Prop :=
  (v = lit "TRUE" → kvValue v = .bool true) ∧
    (v = lit "FALSE" → kvValue v = .bool false) ∧
    (v = [] → kvValue v = .nil) ∧
    (∀ n, kvValue v = .int n ↔ Denotes v n) ∧
    (v ≠ lit "TRUE" → v ≠ lit "FALSE" → v ≠ [] → (∀ n, ¬ Denotes v n) →
      kvValue v = .text v)

section Clauses

@[simp] theorem kvValue_true : kvValue (lit "TRUE") = .bool true :=
  if_pos rfl

@[simp] theorem kvValue_false : kvValue (lit "FALSE") = .bool false :=
  rfl

@[simp] theorem kvValue_nil : kvValue [] = .nil :=
  rfl

theorem kvValueBase_of_isNumeral
    {v : Binary} {base : Nat} (h : IsNumeral base v) :
    kvValueBase v base = .int (numeralValue base v) := by
  rw [kvValueBase, toInteger_of_isNumeral h]

theorem kvValueBase_of_not_isNumeral
    {v : Binary} {base : Nat} (h : ¬ IsNumeral base v) :
    kvValueBase v base = .text v := by
  rw [kvValueBase, toInteger_of_not_isNumeral h]

theorem kvValue_hex (hex : Binary) :
    kvValue (lit "0x" ++ hex) = kvValueBase hex 16 := by
  have hfront : lit "0x" ++ hex = '0'.toUInt8 :: 'x'.toUInt8 :: hex := rfl
  have htrue : lit "0x" ++ hex ≠ lit "TRUE" := by
    rw [hfront]
    intro h
    cases h
  have hfalse : lit "0x" ++ hex ≠ lit "FALSE" := by
    rw [hfront]
    intro h
    cases h
  rw [kvValue, if_neg htrue, if_neg hfalse, if_neg (by rw [hfront]; simp),
    dropPrefix?_append]

/-- Nothing that starts with `0x` is a decimal number. -/
theorem not_isNumeral_hex (hex : Binary) : ¬ IsNumeral 10 (lit "0x" ++ hex) := by
  intro h
  have hx : IsDigit 10 'x'.toUInt8 := by
    apply IsNumeral.isDigit_of_mem_tail (x := '0'.toUInt8) (s := 'x'.toUInt8 :: hex) h
    simp
  exact absurd hx (by decide)

theorem kvValue_of_isFreeText {v : Binary} (h : IsFreeText v) :
    kvValue v = .text v := by
  obtain ⟨htrue, hfalse, hne, hhex, hnum⟩ := h
  rw [kvValue, if_neg htrue, if_neg hfalse, if_neg hne, dropPrefix?_eq_none hhex]
  exact kvValueBase_of_not_isNumeral hnum

theorem kvValue_of_isNumeral {v : Binary} (h : IsNumeral 10 v) :
    kvValue v = .int (numeralValue 10 v) := by
  have htrue : v ≠ lit "TRUE" := by
    rintro rfl
    exact absurd h (by decide)
  have hfalse : v ≠ lit "FALSE" := by
    rintro rfl
    exact absurd h (by decide)
  have hne : v ≠ [] := by
    rintro rfl
    exact h.1 rfl
  have hhex : ¬ lit "0x" <+: v := by
    rintro ⟨hex, rfl⟩
    exact not_isNumeral_hex hex h
  rw [kvValue, if_neg htrue, if_neg hfalse, if_neg hne, dropPrefix?_eq_none hhex]
  exact kvValueBase_of_isNumeral h

/-- A value is a literal, a number, a hexadecimal miss or free text. -/
theorem spelling_cases (v : Binary) :
    v = lit "TRUE" ∨ v = lit "FALSE" ∨ v = [] ∨ IsNumeral 10 v ∨
      (∃ hex, v = lit "0x" ++ hex ∧ IsNumeral 16 hex) ∨ IsHexMiss v ∨ IsFreeText v := by
  by_cases hhex : lit "0x" <+: v
  · obtain ⟨hex, rfl⟩ := hhex
    by_cases hnum : IsNumeral 16 hex
    · exact .inr (.inr (.inr (.inr (.inl ⟨hex, rfl, hnum⟩))))
    · exact .inr (.inr (.inr (.inr (.inr (.inl ⟨hex, rfl, hnum⟩)))))
  · unfold IsFreeText
    tauto

end Clauses

section Spellings

theorem denotes_of_isNumeral {v : Binary} (h : IsNumeral 10 v) (n : Int) :
    Denotes v n ↔ n = numeralValue 10 v := by
  constructor
  · rintro (⟨_, rfl⟩ | ⟨hex, rfl, _⟩)
    · rfl
    · exact absurd h (not_isNumeral_hex hex)
  · rintro rfl
    exact .inl ⟨h, rfl⟩

theorem denotes_hex_iff (hex : Binary) (n : Int) :
    Denotes (lit "0x" ++ hex) n ↔ IsNumeral 16 hex ∧ n = numeralValue 16 hex := by
  constructor
  · rintro (⟨h, _⟩ | ⟨hex', h, hnum, rfl⟩)
    · exact absurd h (not_isNumeral_hex hex)
    · obtain rfl := List.append_cancel_left h
      exact ⟨hnum, rfl⟩
  · rintro ⟨hnum, rfl⟩
    exact .inr ⟨hex, rfl, hnum, rfl⟩

theorem not_denotes_of_not_isNumeral
    {v : Binary} (hhex : ¬ lit "0x" <+: v) (hnum : ¬ IsNumeral 10 v) (n : Int) :
    ¬ Denotes v n := by
  rintro (⟨h, _⟩ | ⟨hex, rfl, _⟩)
  · exact hnum h
  · exact hhex (List.prefix_append _ _)

/-- A value is read as the number it denotes, and as a number only if it denotes one. -/
theorem kvValue_eq_int_iff (v : Binary) (n : Int) :
    kvValue v = .int n ↔ Denotes v n := by
  rcases spelling_cases v with
    rfl | rfl | rfl | hnum | ⟨hex, rfl, hnum⟩ | ⟨rest, rfl, hnum⟩ | hfree
  · simp [not_denotes_of_not_isNumeral (v := lit "TRUE") (by decide) (by decide)]
  · simp [not_denotes_of_not_isNumeral (v := lit "FALSE") (by decide) (by decide)]
  · simp [not_denotes_of_not_isNumeral (v := []) (by decide) (by decide)]
  · rw [kvValue_of_isNumeral hnum, denotes_of_isNumeral hnum, KvValue.int.injEq, eq_comm]
  · rw [kvValue_hex, kvValueBase_of_isNumeral hnum, denotes_hex_iff, KvValue.int.injEq]
    simp [hnum, eq_comm]
  · rw [kvValue_hex, kvValueBase_of_not_isNumeral hnum, denotes_hex_iff]
    simp [hnum]
  · rw [kvValue_of_isFreeText hfree]
    simp [not_denotes_of_not_isNumeral hfree.2.2.2.1 hfree.2.2.2.2]

theorem ne_hex_append
    {v : Binary} (hhex : ¬ lit "0x" <+: v) (t : Binary) : v ≠ lit "0x" ++ t := by
  rintro rfl
  exact hhex (List.prefix_append _ _)

theorem not_isFreeText_hex (hex : Binary) : ¬ IsFreeText (lit "0x" ++ hex) :=
  fun h => h.2.2.2.1 (List.prefix_append _ _)

theorem not_isFreeText_of_isNumeral {v : Binary} (h : IsNumeral 10 v) : ¬ IsFreeText v :=
  fun hfree => hfree.2.2.2.2 h

/-- A value is read as text when it is free, or as what stands behind a useless `0x`. -/
theorem kvValue_eq_text_iff (v t : Binary) :
    kvValue v = .text t ↔
      (IsFreeText v ∧ t = v) ∨ (v = lit "0x" ++ t ∧ ¬ IsNumeral 16 t) := by
  rcases spelling_cases v with
    rfl | rfl | rfl | hnum | ⟨hex, rfl, hnum⟩ | ⟨rest, rfl, hnum⟩ | hfree
  · simp [IsFreeText, ne_hex_append (v := lit "TRUE") (by decide)]
  · simp [IsFreeText, ne_hex_append (v := lit "FALSE") (by decide)]
  · simp [IsFreeText, ne_hex_append (v := []) (by decide)]
  · have hhex : v ≠ lit "0x" ++ t := by
      rintro rfl
      exact not_isNumeral_hex t hnum
    rw [kvValue_of_isNumeral hnum]
    simp [not_isFreeText_of_isNumeral hnum, hhex]
  · rw [kvValue_hex, kvValueBase_of_isNumeral hnum, List.append_right_inj]
    simp only [reduceCtorEq, not_isFreeText_hex, false_and, false_or, false_iff]
    rintro ⟨rfl, h⟩
    exact h hnum
  · rw [kvValue_hex, kvValueBase_of_not_isNumeral hnum, List.append_right_inj,
      KvValue.text.injEq]
    simp only [not_isFreeText_hex, false_and, false_or]
    constructor
    · rintro rfl
      exact ⟨rfl, hnum⟩
    · exact fun h => h.1
  · rw [kvValue_of_isFreeText hfree, KvValue.text.injEq]
    simp [hfree, ne_hex_append hfree.2.2.2.1, eq_comm]

/-- A value is bound as the text it is exactly when it is free text. -/
theorem kvValue_eq_text_self_iff (v : Binary) :
    kvValue v = .text v ↔ IsFreeText v := by
  rw [kvValue_eq_text_iff]
  constructor
  · rintro (⟨h, _⟩ | ⟨h, _⟩)
    · exact h
    · have := congrArg List.length h
      rw [List.length_append] at this
      have hlen : (lit "0x").length = 2 := rfl
      omega
  · exact fun h => .inl ⟨h, rfl⟩

/-- Values are kept verbatim except for those that only start like a number. -/
theorem keptVerbatim_iff (v : Binary) :
    KeptVerbatim v ↔ ¬ IsHexMiss v := by
  constructor
  · rintro ⟨_, _, _, hint, htext⟩ ⟨rest, rfl, hnum⟩
    have hdenotes (n : Int) : ¬ Denotes (lit "0x" ++ rest) n := by
      rw [denotes_hex_iff]
      exact fun h => hnum h.1
    have hfront : lit "0x" ++ rest = '0'.toUInt8 :: 'x'.toUInt8 :: rest := rfl
    have hkept := htext (by rw [hfront]; intro h; cases h)
      (by rw [hfront]; intro h; cases h) (by rw [hfront]; simp) hdenotes
    rw [kvValue_eq_text_self_iff] at hkept
    exact not_isFreeText_hex rest hkept
  · intro hmiss
    refine ⟨?_, ?_, ?_, kvValue_eq_int_iff v, ?_⟩
    · rintro rfl
      exact kvValue_true
    · rintro rfl
      exact kvValue_false
    · rintro rfl
      exact kvValue_nil
    · intro htrue hfalse hne hdenotes
      rw [kvValue_eq_text_self_iff]
      refine ⟨htrue, hfalse, hne, ?_, ?_⟩
      · rintro ⟨hex, rfl⟩
        apply hmiss
        refine ⟨hex, rfl, fun hnum => ?_⟩
        exact hdenotes _ ((denotes_hex_iff hex _).mpr ⟨hnum, rfl⟩)
      · intro hnum
        exact hdenotes _ ((denotes_of_isNumeral hnum _).mpr rfl)

/-- `0xzz` is no number and comes back without its first two characters. -/
theorem not_keptVerbatim_hex_miss :
    whitespace.NoneBehind (lit "0xzz") ∧ ¬ KeptVerbatim (lit "0xzz") := by
  refine ⟨by decide +kernel, ?_⟩
  rintro ⟨_, _, _, _, htext⟩
  have hvalue : kvValue (lit "0xzz") = .text (lit "zz") := by decide +kernel
  have hkept := htext (by decide) (by decide) (by decide) fun n => by
    rw [← kvValue_eq_int_iff, hvalue]
    simp
  rw [hvalue] at hkept
  exact absurd hkept (by decide)

/-- Two spellings of one number, or a text and the same text behind a useless `0x`. -/
def ReadAlike (v v' : Binary) : Prop :=
  (∃ n, Denotes v n ∧ Denotes v' n) ∨
    (v = lit "0x" ++ v' ∧ IsFreeText v' ∧ ¬ IsNumeral 16 v') ∨
    (v' = lit "0x" ++ v ∧ IsFreeText v ∧ ¬ IsNumeral 16 v)

theorem kvValueBase_cases (v : Binary) (base : Nat) :
    (∃ n, kvValueBase v base = .int n) ∨ ∃ t, kvValueBase v base = .text t := by
  by_cases h : IsNumeral base v
  · exact .inl ⟨_, kvValueBase_of_isNumeral h⟩
  · exact .inr ⟨_, kvValueBase_of_not_isNumeral h⟩

/-- The booleans and nothing have one spelling each. -/
theorem kvValue_cases (v : Binary) :
    v = lit "TRUE" ∨ v = lit "FALSE" ∨ v = [] ∨ (∃ n, kvValue v = .int n) ∨
      ∃ t, kvValue v = .text t := by
  rcases spelling_cases v with
    h | h | h | hnum | ⟨hex, rfl, _⟩ | ⟨hex, rfl, _⟩ | hfree
  · exact .inl h
  · exact .inr (.inl h)
  · exact .inr (.inr (.inl h))
  · exact .inr (.inr (.inr (.inl ⟨_, kvValue_of_isNumeral hnum⟩)))
  · rw [kvValue_hex]
    exact .inr (.inr (.inr (kvValueBase_cases hex 16)))
  · rw [kvValue_hex]
    exact .inr (.inr (.inr (kvValueBase_cases hex 16)))
  · exact .inr (.inr (.inr (.inr ⟨v, kvValue_of_isFreeText hfree⟩)))

theorem eq_of_kvValue_eq_of_literal
    {v v' : Binary} (hint : ∀ n, kvValue v ≠ .int n) (htext : ∀ t, kvValue v ≠ .text t)
    (h : kvValue v = kvValue v') : v = v' := by
  have hliteral (u : Binary) (hu : kvValue v = kvValue u) :
      u = lit "TRUE" ∨ u = lit "FALSE" ∨ u = [] := by
    rcases kvValue_cases u with h | h | h | ⟨n, hn⟩ | ⟨t, ht⟩
    · exact .inl h
    · exact .inr (.inl h)
    · exact .inr (.inr h)
    · exact absurd (hu.trans hn) (hint n)
    · exact absurd (hu.trans ht) (htext t)
  rcases hliteral v rfl with rfl | rfl | rfl <;>
    rcases hliteral v' h with rfl | rfl | rfl <;> simp at h ⊢

/-- Two texts are bound alike when they are the same up to a useless `0x`. -/
theorem eq_or_readAlike_of_text
    {v v' t : Binary} (h : kvValue v = .text t) (h' : kvValue v' = .text t) :
    v = v' ∨ ReadAlike v v' := by
  rw [kvValue_eq_text_iff] at h h'
  rcases h with ⟨hfree, rfl⟩ | ⟨rfl, hnum⟩
  · rcases h' with ⟨_, rfl⟩ | ⟨rfl, hnum'⟩
    · exact .inl rfl
    · exact .inr (.inr (.inr ⟨rfl, hfree, hnum'⟩))
  · rcases h' with ⟨hfree', rfl⟩ | ⟨rfl, _⟩
    · exact .inr (.inr (.inl ⟨rfl, hfree', hnum⟩))
    · exact .inl rfl

theorem kvValue_eq_of_readAlike {v v' : Binary} (h : ReadAlike v v') :
    kvValue v = kvValue v' := by
  rcases h with ⟨n, h, h'⟩ | ⟨rfl, hfree, hnum⟩ | ⟨rfl, hfree, hnum⟩
  · rw [(kvValue_eq_int_iff v n).mpr h, (kvValue_eq_int_iff v' n).mpr h']
  · rw [kvValue_hex, kvValueBase_of_not_isNumeral hnum, kvValue_of_isFreeText hfree]
  · rw [kvValue_hex, kvValueBase_of_not_isNumeral hnum, kvValue_of_isFreeText hfree]

/-- Which two values are bound alike. -/
theorem kvValue_eq_kvValue_iff (v v' : Binary) :
    kvValue v = kvValue v' ↔ v = v' ∨ ReadAlike v v' := by
  constructor
  · intro h
    by_cases hint : ∃ n, kvValue v = .int n
    · obtain ⟨n, hn⟩ := hint
      exact .inr (.inl ⟨n, (kvValue_eq_int_iff v n).mp hn,
        (kvValue_eq_int_iff v' n).mp (h ▸ hn)⟩)
    · by_cases htext : ∃ t, kvValue v = .text t
      · obtain ⟨t, ht⟩ := htext
        exact eq_or_readAlike_of_text ht (h ▸ ht)
      · exact .inl (eq_of_kvValue_eq_of_literal (not_exists.mp hint)
          (not_exists.mp htext) h)
  · rintro (rfl | h)
    · rfl
    · exact kvValue_eq_of_readAlike h

end Spellings

end Decode
end WpaSupplicant
