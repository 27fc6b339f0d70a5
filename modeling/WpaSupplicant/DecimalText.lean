import WpaSupplicant.ErlangTerms

/-!
# Decimal numerals

`String.to_integer` reads back what `to_string` writes for an integer.
-/

namespace WpaSupplicant

open ElixirString

/-- The byte of an ASCII character. -/
def asciiByte (c : Char) : UInt8 :=
  UInt8.ofNat c.toNat

/-- The bytes of ASCII text are its characters. -/
theorem lit_ofList
    {cs : List Char} (h : ∀ c ∈ cs, c.toNat < 128) :
    lit (String.ofList cs) = cs.map asciiByte := by
  rw [Utf8.lit_ofList_eq_flatMap]
  induction cs with
  | nil =>
      rfl
  | cons c cs ih =>
      rw [List.flatMap_cons, List.map_cons,
        ih (fun d hd => h d (List.mem_cons_of_mem _ hd)),
        Utf8.encodeChar_of_ascii (h c (by simp))]
      rfl

/-- The decimal digits of a natural number. -/
def digits (n : Nat) : Binary :=
  (Nat.toDigits 10 n).map asciiByte

theorem toNat_bounds_of_isDigit {c : Char} (h : c.isDigit = true) :
    48 ≤ c.toNat ∧ c.toNat ≤ 57 := by
  simp only [Char.isDigit, Bool.and_eq_true, decide_eq_true_eq, UInt32.le_iff_toNat_le] at h
  exact h

theorem digitValue_asciiByte {c : Char} (h : c.isDigit = true) :
    digitValue (asciiByte c) = some (c.toNat - '0'.toNat) := by
  obtain ⟨hlow, hhigh⟩ := toNat_bounds_of_isDigit h
  have hbyte : (asciiByte c).toNat = c.toNat := by
    rw [asciiByte, UInt8.toNat_ofNat']
    omega
  have h0 : '0'.toUInt8.toNat = 48 := rfl
  have h9 : '9'.toUInt8.toNat = 57 := rfl
  rw [digitValue, if_pos, hbyte]
  rw [UInt8.le_iff_toNat_le, UInt8.le_iff_toNat_le, hbyte, h0, h9]
  exact ⟨hlow, hhigh⟩

theorem isDigits_digits (n : Nat) : IsDigits 10 (digits n) := by
  refine ⟨by simp [digits, Nat.toDigits_ne_nil], ?_⟩
  intro x hx
  obtain ⟨c, hc, rfl⟩ := List.mem_map.mp hx
  have hdigit : c.isDigit = true := Nat.isDigit_of_mem_toDigits (by decide) (by decide) hc
  obtain ⟨hlow, hhigh⟩ := toNat_bounds_of_isDigit hdigit
  have h0 : '0'.toNat = 48 := rfl
  exact ⟨_, digitValue_asciiByte hdigit, by omega⟩

theorem digitsValue_map_asciiByte
    {cs : List Char} (h : ∀ c ∈ cs, c.isDigit = true) :
    digitsValue 10 (cs.map asciiByte) = Nat.ofDigitChars 10 cs 0 := by
  have hfold (n : Nat) :
      cs.foldl (fun n c => n * 10 + (digitValue (asciiByte c)).getD 0) n =
        Nat.ofDigitChars 10 cs n := by
    induction cs generalizing n with
    | nil =>
        simp
    | cons c cs ih =>
        rw [List.foldl_cons, ih (fun d hd => h d (List.mem_cons_of_mem _ hd)),
          Nat.ofDigitChars_cons, digitValue_asciiByte (h c (by simp)), Option.getD_some,
          Nat.mul_comm]
  rw [digitsValue, List.foldl_map, hfold]

theorem digitsValue_digits (n : Nat) : digitsValue 10 (digits n) = n := by
  rw [digits, digitsValue_map_asciiByte, Nat.ofDigitChars_ten_toDigits]
  exact fun c hc => Nat.isDigit_of_mem_toDigits (by decide) (by decide) hc

/-- A digit is no sign. -/
theorem signOf_digits (n : Nat) : signOf (digits n) = (1, digits n) := by
  have hdigits := (isDigits_digits n).2
  cases h : digits n with
  | nil =>
      rfl
  | cons x xs =>
      obtain ⟨d, hd, _⟩ := hdigits x (by simp [h])
      have hminus : x ≠ '-'.toUInt8 := by
        rintro rfl
        have hnone : digitValue '-'.toUInt8 = none := by decide
        simp [hnone] at hd
      have hplus : x ≠ '+'.toUInt8 := by
        rintro rfl
        have hnone : digitValue '+'.toUInt8 = none := by decide
        simp [hnone] at hd
      rw [signOf, if_neg hminus, if_neg hplus]

theorem not_mem_digits {x : UInt8} (hx : ¬ IsDigit 10 x) (n : Nat) : x ∉ digits n :=
  fun h => hx ((isDigits_digits n).2 x h)

theorem dash_not_mem_digits (n : Nat) : '-'.toUInt8 ∉ digits n :=
  not_mem_digits (by decide) n

theorem isNumeral_digits (n : Nat) : IsNumeral 10 (digits n) := by
  rw [IsNumeral, signOf_digits]
  exact isDigits_digits n

theorem numeralValue_digits (n : Nat) : numeralValue 10 (digits n) = n := by
  rw [numeralValue, signOf_digits, digitsValue_digits]
  simp

theorem lit_repr (n : Nat) : lit n.repr = digits n := by
  rw [Nat.repr_eq_ofList_toDigits, lit_ofList]
  · rfl
  · intro c hc
    have := toNat_bounds_of_isDigit
      (Nat.isDigit_of_mem_toDigits (by decide) (by decide) hc)
    omega

theorem decimal_natCast (n : Nat) : decimal n = digits n := by
  rw [decimal, Int.toString_eq_repr, Int.repr_eq_if, if_pos (Int.natCast_nonneg n),
    Int.toNat_natCast, lit_repr]

theorem decimal_negSucc (n : Nat) :
    decimal (Int.negSucc n) = '-'.toUInt8 :: digits (n + 1) := by
  have hneg : ¬ 0 ≤ Int.negSucc n := Int.not_le.mpr (Int.negSucc_lt_zero n)
  have habs : (-Int.negSucc n).toNat = n + 1 := rfl
  rw [decimal, Int.toString_eq_repr, Int.repr_eq_if, if_neg hneg, habs, ← lit_repr]
  simp [lit, String.toByteArray_append]
  rfl

/-- Reading an integer back from its decimal text. -/
theorem toInteger_decimal (n : Int) : toInteger (decimal n) 10 = .ok n := by
  cases n with
  | ofNat n =>
      rw [Int.ofNat_eq_natCast, decimal_natCast, toInteger_of_isNumeral (isNumeral_digits n),
        numeralValue_digits]
  | negSucc n =>
      have hsign : signOf ('-'.toUInt8 :: digits (n + 1)) = (-1, digits (n + 1)) := rfl
      have hnum : IsNumeral 10 ('-'.toUInt8 :: digits (n + 1)) := by
        rw [IsNumeral, hsign]
        exact isDigits_digits (n + 1)
      rw [decimal_negSucc, toInteger, if_pos hnum, hsign, digitsValue_digits,
        Int.negSucc_eq]
      simp

end WpaSupplicant
