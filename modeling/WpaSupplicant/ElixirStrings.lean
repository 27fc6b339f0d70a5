import WpaSupplicant.Utf8Text
import WpaSupplicant.GraphemeCount

/-!
# The Elixir string functions the package calls

`String.strip`, `rstrip`, `split`, `to_integer`, `to_atom` and `length`, with
the `Kernel` and Erlang behaviour they rest on, as their documentation gives
it.  A raise is an `Except` error that names the exception.

`String.length` counts extended grapheme clusters, so it depends on the break
classes of the Unicode version in use.  These are a parameter: a table that
agrees with Unicode on printable ASCII and on white space.
-/

namespace WpaSupplicant

/-- Exceptions that reach the package's code. -/
inductive Raise
  | functionClauseError
  | matchError
  | caseClauseError
  | argumentError
  | protocolUndefinedError
  | unicodeConversionError
deriving DecidableEq

/-- A call returns a value instead of raising. -/
def Returns {α : Type} (x : Except Raise α) : Prop :=
  ∃ a, x = .ok a

section Returns

variable {α β : Type}

@[simp] theorem returns_ok (a : α) : Returns (.ok a) :=
  ⟨a, rfl⟩

@[simp] theorem returns_pure (a : α) : Returns (pure a) :=
  ⟨a, rfl⟩

@[simp] theorem not_returns_error (e : Raise) :
    ¬ Returns (.error e : Except Raise α) := by
  rintro ⟨a, h⟩
  cases h

instance (x : Except Raise α) : Decidable (Returns x) :=
  match x with
  | .ok a => .isTrue (returns_ok a)
  | .error e => .isFalse (not_returns_error e)

/-- A sequence of calls returns when each of them does. -/
theorem returns_bind_iff {x : Except Raise α} {f : α → Except Raise β} :
    Returns (x >>= f) ↔ ∃ a, x = .ok a ∧ Returns (f a) := by
  cases x with
  | error e =>
      constructor
      · rintro ⟨b, h⟩
        cases h
      · rintro ⟨a, h, _⟩
        cases h
  | ok a =>
      constructor
      · exact fun h => ⟨a, rfl, h⟩
      · rintro ⟨_, h, hf⟩
        cases h
        exact hf

theorem returns_bind_const
    {x : Except Raise α} {f : α → Except Raise β} {p : Prop}
    (hf : ∀ a, Returns (f a) ↔ p) :
    Returns (x >>= f) ↔ Returns x ∧ p := by
  rw [returns_bind_iff]
  constructor
  · rintro ⟨a, ha, hfa⟩
    exact ⟨⟨a, ha⟩, (hf a).mp hfa⟩
  · rintro ⟨⟨a, ha⟩, hp⟩
    exact ⟨a, ha, (hf a).mpr hp⟩

end Returns

/-- The characters of Unicode with property `White_Space`. -/
def whitespaceChars : List Char :=
  ['\t', '\n', '\x0b', '\x0c', '\r', ' ', '\u0085', '\u00a0', '\u1680',
    '\u2000', '\u2001', '\u2002', '\u2003', '\u2004', '\u2005', '\u2006',
    '\u2007', '\u2008', '\u2009', '\u200a', '\u2028', '\u2029', '\u202f',
    '\u205f', '\u3000']

/-- The encodings of white space, as `String.strip` looks for them. -/
def whitespace : PatternSet UInt8 :=
  Utf8.charPatterns whitespaceChars

/-- Grapheme break classes, exact on printable ASCII and on white space. -/
structure GraphemeTable where
  breakClass : Char → Grapheme.Class
  printable : ∀ c : Char, 32 ≤ c.toNat → c.toNat < 127 → breakClass c = .other
  space : ∀ c ∈ whitespaceChars,
    (breakClass c).breaksAround = true ∨ breakClass c = .other

/-- The classes of ASCII and of the separators; all else counts as plain. -/
def GraphemeTable.latin : GraphemeTable where
  breakClass c :=
    if c = '\r' then .cr
    else if c = '\n' then .lf
    else if c.toNat < 32 ∨ 127 ≤ c.toNat ∧ c.toNat < 160 ∨ c = '\u00ad' ∨
        c = '\u2028' ∨ c = '\u2029' then .control
    else .other
  printable := by
    intro c hlow hhigh
    have hne : ∀ d : Char, d.toNat < 32 ∨ 127 ≤ d.toNat → c ≠ d := by
      rintro d hd rfl
      omega
    have hr := hne '\r' (by decide)
    have hn := hne '\n' (by decide)
    have hsoft := hne '\u00ad' (by decide)
    have hline := hne '\u2028' (by decide)
    have hpara := hne '\u2029' (by decide)
    have hcontrol : ¬ (c.toNat < 32 ∨ 127 ≤ c.toNat ∧ c.toNat < 160) := by omega
    simp [hr, hn, hsoft, hline, hpara]
    omega
  space := by
    intro c _
    split
    · exact .inl rfl
    · split
      · exact .inl rfl
      · split
        · exact .inl rfl
        · exact .inr rfl

namespace ElixirString

/-- `String.rstrip/1`. -/
def rstrip (s : Binary) : Binary :=
  whitespace.trimEnd s

/-- `String.lstrip/1`. -/
def lstrip (s : Binary) : Binary :=
  whitespace.trimStart s

/-- `String.strip/1`. -/
def strip (s : Binary) : Binary :=
  rstrip (lstrip s)

/-- `String.rstrip/2`: all trailing occurrences of one character. -/
def rstripChar (s : Binary) (c : Char) : Binary :=
  (Utf8.charPatterns [c]).trimEnd s

/-- `String.split/2` on a one-byte separator. -/
def split (s : Binary) (sep : UInt8) : List Binary :=
  s.splitOn sep

/-- `String.split(s, sep, trim: true)`: empty pieces are dropped. -/
def splitTrim (s : Binary) (sep : UInt8) : List Binary :=
  (split s sep).filter (· ≠ [])

/--
`String.split(s, sep, parts: n, trim: true)`: empty pieces are dropped and not
counted, and the last part is the unsplit remainder unless it is empty.
-/
def splitParts (s : Binary) (sep : UInt8) : Nat → List Binary
  | 0 => []
  | 1 => if s = [] then [] else [s]
  | n + 2 =>
      match s.dropWhile (· = sep) with
      | [] => []
      | x :: xs =>
          (x :: xs).takeWhile (· ≠ sep) ::
            splitParts (((x :: xs).dropWhile (· ≠ sep)).drop 1) sep (n + 1)

/-- The value of a digit or letter. -/
def digitValue (x : UInt8) : Option Nat :=
  if '0'.toUInt8 ≤ x ∧ x ≤ '9'.toUInt8 then
    some (x.toNat - '0'.toNat)
  else if 'a'.toUInt8 ≤ x ∧ x ≤ 'z'.toUInt8 then
    some (x.toNat - 'a'.toNat + 10)
  else if 'A'.toUInt8 ≤ x ∧ x ≤ 'Z'.toUInt8 then
    some (x.toNat - 'A'.toNat + 10)
  else
    none

/-- A digit of the given base. -/
def IsDigit (base : Nat) (x : UInt8) : Prop :=
  ∃ d ∈ digitValue x, d < base

instance (base : Nat) (x : UInt8) : Decidable (IsDigit base x) :=
  inferInstanceAs (Decidable (∃ d ∈ digitValue x, d < base))

/-- The number a digit run denotes. -/
def digitsValue (base : Nat) (ds : Binary) : Nat :=
  ds.foldl (fun n x => n * base + (digitValue x).getD 0) 0

/-- A non-empty run of digits. -/
def IsDigits (base : Nat) (ds : Binary) : Prop :=
  ds ≠ [] ∧ ∀ x ∈ ds, IsDigit base x

instance (base : Nat) (ds : Binary) : Decidable (IsDigits base ds) :=
  inferInstanceAs (Decidable (_ ∧ _))

/-- The sign of a numeral and what follows it. -/
def signOf : Binary → Int × Binary
  | [] => (1, [])
  | x :: ds =>
      if x = '-'.toUInt8 then (-1, ds)
      else if x = '+'.toUInt8 then (1, ds)
      else (1, x :: ds)

/-- An optionally signed non-empty run of digits. -/
def IsNumeral (base : Nat) (s : Binary) : Prop :=
  IsDigits base (signOf s).2

instance (base : Nat) (s : Binary) : Decidable (IsNumeral base s) :=
  inferInstanceAs (Decidable (IsDigits base (signOf s).2))

/-- `String.to_integer/2`. -/
def toInteger (s : Binary) (base : Nat) : Except Raise Int :=
  if IsNumeral base s then
    .ok ((signOf s).1 * digitsValue base (signOf s).2)
  else
    .error .argumentError

/-- The number a numeral denotes. -/
def numeralValue (base : Nat) (s : Binary) : Int :=
  (signOf s).1 * digitsValue base (signOf s).2

/-- The break class of a code point; a stray byte breaks like a control. -/
def unitClass (U : GraphemeTable) : Char ⊕ UInt8 → Grapheme.Class
  | .inl c => U.breakClass c
  | .inr _ => .control

/-- `String.length/1`: extended grapheme clusters, a stray byte being one. -/
def length (U : GraphemeTable) (s : Binary) : Nat :=
  Grapheme.clusters ((Utf8.units s).map (unitClass U))

theorem toInteger_returns_iff (s : Binary) (base : Nat) :
    Returns (toInteger s base) ↔ IsNumeral base s := by
  unfold toInteger
  split <;> simp_all

theorem toInteger_of_isNumeral {base : Nat} {s : Binary} (h : IsNumeral base s) :
    toInteger s base = .ok (numeralValue base s) :=
  if_pos h

theorem toInteger_of_not_isNumeral {base : Nat} {s : Binary} (h : ¬ IsNumeral base s) :
    toInteger s base = .error .argumentError :=
  if_neg h

/-- Everything in a numeral behind its first character is a digit. -/
theorem IsNumeral.isDigit_of_mem_tail
    {base : Nat} {x : UInt8} {s : Binary} (h : IsNumeral base (x :: s)) :
    ∀ y ∈ s, IsDigit base y := by
  simp only [IsNumeral, signOf] at h
  intro y hy
  split at h
  · exact h.2 y hy
  · split at h
    · exact h.2 y hy
    · exact h.2 y (List.mem_cons_of_mem _ hy)

/-- A numeral is made of a sign and digits. -/
theorem IsNumeral.isDigit_of_mem
    {base : Nat} {s : Binary} (h : IsNumeral base s) {x : UInt8} (hx : x ∈ s)
    (hminus : x ≠ '-'.toUInt8) (hplus : x ≠ '+'.toUInt8) : IsDigit base x := by
  cases s with
  | nil =>
      cases hx
  | cons y s =>
      rcases List.mem_cons.mp hx with rfl | hx
      · simp only [IsNumeral, signOf, if_neg hminus, if_neg hplus] at h
        exact h.2 x (by simp)
      · exact h.isDigit_of_mem_tail x hx

theorem IsNumeral.ne_nil {base : Nat} {s : Binary} (h : IsNumeral base s) : s ≠ [] := by
  rintro rfl
  exact h.1 rfl

section Parts

variable {sep : UInt8}

theorem forall_ne_of_not_mem {part : Binary} (h : sep ∉ part) :
    ∀ x ∈ part, decide (x ≠ sep) = true := by
  intro x hx
  simp only [ne_eq, decide_eq_true_eq]
  rintro rfl
  exact h hx

/-- Separators in front are dropped. -/
theorem splitParts_seps_append
    {seps : Binary} (hseps : ∀ x ∈ seps, x = sep) (s : Binary) (n : Nat) :
    splitParts (seps ++ s) sep (n + 2) = splitParts s sep (n + 2) := by
  have hdrop : (seps ++ s).dropWhile (· = sep) = s.dropWhile (· = sep) := by
    rw [List.dropWhile_append_of_pos]
    simpa using hseps
  rw [splitParts, splitParts, hdrop]

/-- A part ends at the first separator behind it. -/
theorem splitParts_append_sep
    {part : Binary} (hne : part ≠ []) (hpart : sep ∉ part) (s : Binary) (n : Nat) :
    splitParts (part ++ sep :: s) sep (n + 2) = part :: splitParts s sep (n + 1) := by
  have hall := forall_ne_of_not_mem hpart
  have htake : (part ++ sep :: s).takeWhile (· ≠ sep) = part := by
    rw [List.takeWhile_append_of_pos hall]
    simp
  have hdrop : (part ++ sep :: s).dropWhile (· ≠ sep) = sep :: s := by
    rw [List.dropWhile_append_of_pos hall]
    simp
  cases part with
  | nil =>
      exact absurd rfl hne
  | cons x part =>
      have hx : x ≠ sep := by
        simpa using hall x (by simp)
      rw [splitParts, List.cons_append, List.dropWhile_cons_of_neg (by simpa using hx)]
      simp only [← List.cons_append, htake, hdrop, List.drop_one, List.tail_cons]

@[simp] theorem splitParts_nil (n : Nat) : splitParts [] sep n = [] := by
  match n with
  | 0 | 1 | _ + 2 => rfl

theorem splitParts_of_not_mem
    {part : Binary} (hne : part ≠ []) (hpart : sep ∉ part) (n : Nat) :
    splitParts part sep (n + 2) = [part] := by
  have hall := forall_ne_of_not_mem hpart
  have htake : (part ++ []).takeWhile (· ≠ sep) = part ++ [] :=
    List.takeWhile_append_of_pos hall
  have hdrop : (part ++ []).dropWhile (· ≠ sep) = [] :=
    List.dropWhile_append_of_pos hall
  rw [List.append_nil] at htake hdrop
  cases part with
  | nil =>
      exact absurd rfl hne
  | cons x part =>
      have hx : x ≠ sep := by
        simpa using hall x (by simp)
      rw [splitParts, List.dropWhile_cons_of_neg (by simpa using hx)]
      simp only [htake, hdrop, List.drop_nil, splitParts_nil]

/-- The first of several parts stands before a separator. -/
theorem exists_of_splitParts_eq_cons_cons
    {s a b : Binary} {l : List Binary} {n : Nat}
    (h : splitParts s sep (n + 2) = a :: b :: l) :
    ∃ seps rest, s = seps ++ (a ++ sep :: rest) ∧ (∀ x ∈ seps, x = sep) ∧
      a ≠ [] ∧ sep ∉ a ∧ splitParts rest sep (n + 1) = b :: l := by
  induction s with
  | nil =>
      simp at h
  | cons x s ih =>
      by_cases hx : x = sep
      · have hone : ∀ y ∈ [x], y = sep := by simpa using hx
        rw [← List.singleton_append, splitParts_seps_append hone] at h
        obtain ⟨seps, rest, rfl, hseps, hrest⟩ := ih h
        exact ⟨x :: seps, rest, rfl, by simpa [hx] using hseps, hrest⟩
      · -- the part that starts here ends at the first separator behind it
        have hmem : sep ∈ s := by
          by_contra hmem
          have hall : sep ∉ x :: s := by
            simp [Ne.symm hx, hmem]
          rw [splitParts_of_not_mem (by simp) hall] at h
          simp at h
        obtain ⟨front, rest, rfl, hfront⟩ := List.eq_append_cons_of_mem hmem
        have hnot : sep ∉ x :: front := by
          simp [Ne.symm hx, hfront]
        rw [← List.cons_append, splitParts_append_sep (by simp) hnot] at h
        obtain ⟨rfl, hrest⟩ := List.cons.inj h
        exact ⟨[], rest, rfl, by simp, by simp, hnot, hrest⟩

theorem splitParts_one_eq_cons_iff {s a : Binary} {l : List Binary} :
    splitParts s sep 1 = a :: l ↔ s ≠ [] ∧ a = s ∧ l = [] := by
  by_cases hs : s = []
  · simp [hs]
  · simp [splitParts, hs, eq_comm]

/-- The last of three parts is all that is left. -/
theorem splitParts_three_iff {s a b c : Binary} :
    splitParts s sep 3 = [a, b, c] ↔
      ∃ seps seps' : Binary, s = seps ++ (a ++ sep :: (seps' ++ (b ++ sep :: c))) ∧
        (∀ x ∈ seps, x = sep) ∧ (∀ x ∈ seps', x = sep) ∧
        a ≠ [] ∧ sep ∉ a ∧ b ≠ [] ∧ sep ∉ b ∧ c ≠ [] := by
  constructor
  · intro h
    obtain ⟨seps, rest, rfl, hseps, hane, ha, hrest⟩ :=
      exists_of_splitParts_eq_cons_cons h
    obtain ⟨seps', rest, rfl, hseps', hbne, hb, hrest⟩ :=
      exists_of_splitParts_eq_cons_cons hrest
    obtain ⟨hcne, rfl, _⟩ := splitParts_one_eq_cons_iff.mp hrest
    exact ⟨seps, seps', rfl, hseps, hseps', hane, ha, hbne, hb, hcne⟩
  · rintro ⟨seps, seps', rfl, hseps, hseps', hane, ha, hbne, hb, hcne⟩
    rw [splitParts_seps_append hseps, splitParts_append_sep hane ha,
      splitParts_seps_append hseps', splitParts_append_sep hbne hb,
      splitParts_one_eq_cons_iff.mpr ⟨hcne, rfl, rfl⟩]

end Parts

/-- No ASCII character other than white space occurs in a white space encoding. -/
theorem not_mem_whitespace
    {x : UInt8} (hx : 32 < x.toNat) (hascii : x.toNat < 128) :
    ∀ p ∈ whitespace.pats, x ∉ p := by
  have h : ∀ p ∈ whitespace.pats, ∀ y ∈ p, y.toNat ≤ 32 ∨ 128 ≤ y.toNat := by
    decide +kernel
  intro p hp hmem
  rcases h p hp x hmem with h | h <;> omega

theorem not_mem_flatten_whitespace
    {x : UInt8} (hx : 32 < x.toNat) (hascii : x.toNat < 128)
    {ws : List Binary} (hws : ∀ w ∈ ws, w ∈ whitespace.pats) : x ∉ ws.flatten := by
  intro h
  obtain ⟨w, hw, hmem⟩ := List.mem_flatten.mp h
  exact not_mem_whitespace hx hascii w (hws w hw) hmem

/-- A final newline, if there is one, is white space. -/
theorem newline_eq_flatten
    {final : Binary} (hfinal : final ∈ [[], lit "\n"]) :
    ∃ ws : List Binary, final = ws.flatten ∧ ∀ w ∈ ws, w ∈ whitespace.pats := by
  rcases List.mem_cons.mp hfinal with rfl | h
  · exact ⟨[], rfl, by simp⟩
  · obtain rfl := List.mem_singleton.mp h
    exact ⟨[lit "\n"], rfl, by decide +kernel⟩

/-- White space and nothing else. -/
def IsBlank (s : Binary) : Prop :=
  ∃ ws : List Binary, (∀ w ∈ ws, w ∈ whitespace.pats) ∧ s = ws.flatten

theorem rstrip_append_eq_left_iff (s t : Binary) :
    rstrip (s ++ t) = s ↔ whitespace.NoneBehind s ∧ IsBlank t :=
  whitespace.trimEnd_append_eq_left_iff s t

/-- A space in front of a text leaves it blank or not. -/
theorem isBlank_space_cons_iff (s : Binary) : IsBlank (' '.toUInt8 :: s) ↔ IsBlank s := by
  have hspace : [' '.toUInt8] ∈ whitespace.pats := by decide +kernel
  constructor
  · rintro ⟨ws, hws, h⟩
    cases ws with
    | nil =>
        cases h
    | cons w ws =>
        -- the first pattern starts with the space, so it is the space
        have hw := hws w (by simp)
        have hone : [' '.toUInt8] = w := by
          apply whitespace.prefixFree _ hspace w hw
          cases w with
          | nil =>
              exact absurd rfl (whitespace.ne_nil [] hw)
          | cons x w =>
              obtain ⟨rfl, _⟩ := List.cons.inj h
              exact ⟨w, rfl⟩
        subst hone
        exact ⟨ws, fun w hw => hws w (List.mem_cons_of_mem _ hw), (List.cons.inj h).2⟩
  · rintro ⟨ws, hws, rfl⟩
    refine ⟨[' '.toUInt8] :: ws, ?_, rfl⟩
    rintro w (_ | ⟨_, hw⟩)
    · exact hspace
    · exact hws w hw

/-- A run of white space starts at a character. -/
theorem atBoundary_flatten
    {ws : List Binary} (hws : ∀ w ∈ ws, w ∈ whitespace.pats) :
    Utf8.AtBoundary ws.flatten := by
  cases ws with
  | nil =>
      simp [Utf8.AtBoundary]
  | cons w ws =>
      obtain ⟨c, _, rfl⟩ := List.mem_map.mp (hws w (by simp))
      exact Utf8.atBoundary_encode_append c ws.flatten

theorem strip_flatten
    {ws : List Binary} (hws : ∀ w ∈ ws, w ∈ whitespace.pats) : strip ws.flatten = [] := by
  have hfront := whitespace.trimStart_flatten_append hws whitespace.noneAhead_nil
  rw [List.append_nil] at hfront
  rw [strip, lstrip, hfront, rstrip, whitespace.trimEnd_of_noneBehind whitespace.noneBehind_nil]

/-- White space around a text is exactly what is stripped of it. -/
theorem strip_surrounded
    {s : Binary} (hne : s ≠ [])
    (hahead : whitespace.NoneAhead s) (hbehind : whitespace.NoneBehind s)
    {before after : List Binary}
    (hbefore : ∀ w ∈ before, w ∈ whitespace.pats)
    (hafter : ∀ w ∈ after, w ∈ whitespace.pats) :
    strip (before.flatten ++ s ++ after.flatten) = s := by
  have hfront : whitespace.NoneAhead (s ++ after.flatten) := by
    rw [whitespace, Utf8.noneAhead_charPatterns_iff] at hahead ⊢
    intro c hc hpre
    rw [← Utf8.head?_eq_some_iff,
      Utf8.head?_append_of_atBoundary hne (atBoundary_flatten hafter),
      Utf8.head?_eq_some_iff] at hpre
    exact hahead c hc hpre
  rw [List.append_assoc, strip, lstrip, whitespace.trimStart_flatten_append hbefore hfront,
    rstrip, whitespace.trimEnd_append_flatten hafter hbehind]

theorem strip_append_flatten
    {s : Binary} (hne : s ≠ [])
    (hahead : whitespace.NoneAhead s) (hbehind : whitespace.NoneBehind s)
    {ws : List Binary} (hws : ∀ w ∈ ws, w ∈ whitespace.pats) :
    strip (s ++ ws.flatten) = s := by
  have hnone : ∀ w ∈ ([] : List Binary), w ∈ whitespace.pats := by simp
  exact strip_surrounded hne hahead hbehind hnone hws

end ElixirString
end WpaSupplicant
