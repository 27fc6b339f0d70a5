import WpaSupplicant.ElixirStrings

/-!
# Atoms and terms

The Erlang terms that a caller may pass as a command, and `to_string` on them.
An atom carries the proof that its name is one the runtime accepts, so
`String.to_atom` is the only place where a name can be rejected.
-/

namespace WpaSupplicant

/-- UTF-8 text of at most 255 characters. -/
def IsAtomName (s : Binary) : Prop :=
  Utf8.IsText s ∧ (Utf8.units s).length ≤ 255

instance (s : Binary) : Decidable (IsAtomName s) :=
  inferInstanceAs (Decidable (_ ∧ _))

theorem isAtomName_lit_append_iff (s : String) (b : Binary) :
    IsAtomName (lit s ++ b) ↔
      Utf8.IsText b ∧ s.length + (Utf8.units b).length ≤ 255 := by
  rw [IsAtomName, Utf8.IsText, Utf8.units_lit_append, List.length_append, List.length_map,
    String.length_toList]
  constructor
  · exact fun h => ⟨fun u hu => h.1 u (List.mem_append_right _ hu), h.2⟩
  · rintro ⟨htext, hlen⟩
    refine ⟨fun u hu => ?_, hlen⟩
    rcases List.mem_append.mp hu with hu | hu
    · obtain ⟨c, _, rfl⟩ := List.mem_map.mp hu
      rfl
    · exact htext u hu

/-- An Erlang atom. -/
structure Atom where
  name : Binary
  valid : IsAtomName name
deriving DecidableEq

theorem Atom.eq_of_name_eq {a a' : Atom} (h : a.name = a'.name) : a = a' := by
  cases a
  cases a'
  cases h
  rfl

/-- The atom a literal of the source names. -/
def Atom.lit (s : String) (valid : IsAtomName (lit s) := by decide +kernel) :
    Atom :=
  ⟨WpaSupplicant.lit s, valid⟩

namespace Atom

/-- `:ok`. -/
def ok : Atom := .lit "ok"

/-- `:FAIL`. -/
def fail : Atom := .lit "FAIL"

/-- `nil`. -/
def nil : Atom := .lit "nil"

/-- `:PING`. -/
def ping : Atom := .lit "PING"

/-- `:PONG`. -/
def pong : Atom := .lit "PONG"

/-- `:STATUS`. -/
def status : Atom := .lit "STATUS"

/-- `:SET_NETWORK`. -/
def setNetwork : Atom := .lit "SET_NETWORK"

/-- `:"CTRL-EVENT-SCAN-STARTED"`. -/
def scanStarted : Atom := .lit "CTRL-EVENT-SCAN-STARTED"

end Atom

/-- `String.to_atom/1`. -/
def ElixirString.toAtom (s : Binary) : Except Raise Atom :=
  if h : IsAtomName s then .ok ⟨s, h⟩ else .error .argumentError

/-- `Integer.to_string/1`. -/
def decimal (n : Int) : Binary :=
  lit (toString n)

/--
Erlang terms.  Lists are built by `cons`, so they may be improper.  `other` is
a term that the package only ever passes to `to_string`, with the text the
`String.Chars` protocol gives for it: a float or a struct that implements the
protocol has one, and a map, pid, port, reference, function or bit string that
does not has none.
-/
inductive Term
  | atom (a : Atom)
  | int (n : Int)
  | binary (b : Binary)
  | tuple (elems : List Term)
  | emptyList
  | cons (head tail : Term)
  | other (chars : Option Binary)

namespace Term

/-- The encoding of an integer that is a Unicode scalar value. -/
def codepoint? (n : Int) : Option Binary :=
  if n.toNat.isValidChar ∧ 0 ≤ n then
    some (String.utf8EncodeChar (Char.ofNat n.toNat))
  else
    none

/-- The bytes of character data: code points, binaries and lists of them. -/
def chardata? : Term → Option Binary
  | .emptyList => some []
  | .binary b => some b
  | .cons (.int n) tail => do
      let c ← codepoint? n
      let cs ← tail.chardata?
      return c ++ cs
  | .cons head tail => do
      let c ← head.chardata?
      let cs ← tail.chardata?
      return c ++ cs
  | _ => none

/-- `String.Chars.to_string/1`. -/
def toString : Term → Except Raise Binary
  | .atom a => .ok (if a = Atom.nil then [] else a.name)
  | .int n => .ok (decimal n)
  | .binary b => .ok b
  | .tuple _ => .error .protocolUndefinedError
  | .other chars =>
      match chars with
      | some b => .ok b
      | none => .error .protocolUndefinedError
  | .emptyList => .ok []
  | .cons head tail =>
      match chardata? (.cons head tail) with
      | some b => if Utf8.IsText b then .ok b else .error .unicodeConversionError
      | none => .error .argumentError

/-- A term that `to_string` turns into text. -/
def HasString : Term → Prop
  | .atom _ | .int _ | .binary _ | .emptyList => True
  | .tuple _ => False
  | .other chars => chars.isSome
  | .cons head tail => ∃ b ∈ chardata? (.cons head tail), Utf8.IsText b

theorem toString_returns_iff (t : Term) :
    Returns t.toString ↔ t.HasString := by
  cases t with
  | other chars =>
      cases chars <;> simp [toString, HasString]
  | cons head tail =>
      cases h : chardata? (.cons head tail) with
      | none =>
          simp [toString, HasString, h]
      | some b =>
          by_cases hb : Utf8.IsText b <;> simp [toString, HasString, h, hb]
  | _ =>
      simp [toString, HasString]

end Term
end WpaSupplicant
