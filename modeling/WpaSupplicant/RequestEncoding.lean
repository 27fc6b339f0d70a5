import WpaSupplicant.ErlangTerms

/-!
# Encoding requests

`WpaSupplicant.Encode`: the text of a request from the term a caller passes.
An exception is an `Except` error; `encode_returns_iff` says which terms have a
text.
-/

namespace WpaSupplicant
namespace Encode

/-- Six pairs of hexadecimal digits separated by colons, at the front. -/
def isMacPrefix : Binary → Bool
  | a₁ :: a₂ :: c₁ :: b₁ :: b₂ :: c₂ :: d₁ :: d₂ :: c₃ :: e₁ :: e₂ :: c₄ ::
      f₁ :: f₂ :: c₅ :: g₁ :: g₂ :: _ =>
      [a₁, a₂, b₁, b₂, d₁, d₂, e₁, e₂, f₁, f₂, g₁, g₂].all
        (fun x => ElixirString.IsDigit 16 x) &&
      [c₁, c₂, c₃, c₄, c₅].all (· == ':'.toUInt8)
  | _ => false

/-- `Regex.match?` with the MAC address pattern, which is not anchored. -/
def matchesMac (arg : Binary) : Bool :=
  arg.tails.any isMacPrefix

/-- The test by which `encode_arg` leaves a binary bare. -/
def isMacAddress (U : GraphemeTable) (arg : Binary) : Bool :=
  ElixirString.length U arg == 17 && matchesMac arg

/-- A binary between double quotes. -/
def quote (arg : Binary) : Binary :=
  lit "\"" ++ arg ++ lit "\""

/-- `encode_arg/1` on a binary. -/
def encodeBinaryArg (U : GraphemeTable) (arg : Binary) : Binary :=
  if isMacAddress U arg then arg else quote arg

/-- `encode_arg/1`. -/
def encodeArg (U : GraphemeTable) : Term → Except Raise Binary
  | .binary arg => .ok (encodeBinaryArg U arg)
  | arg => arg.toString

/-- The commands of the six interactive response clauses. -/
def ctrlRspCommands : List Binary :=
  [lit "CTRL-RSP-IDENTITY", lit "CTRL-RSP-PASSWORD",
    lit "CTRL-RSP-NEW_PASSWORD", lit "CTRL-RSP-PIN", lit "CTRL-RSP-OTP",
    lit "CTRL-RSP-PASSPHRASE"]

/-- `encode/1`. -/
def encode (U : GraphemeTable) : Term → Except Raise Binary
  | .atom cmd => (Term.atom cmd).toString
  | .tuple [.atom cmd, arg] => do
      let cmd ← (Term.atom cmd).toString
      let arg ← encodeArg U arg
      return cmd ++ lit " " ++ arg
  | .tuple [.atom cmd, arg, arg2] =>
      if cmd.name ∈ ctrlRspCommands then do
        let networkId ← arg.toString
        let string ← arg2.toString
        return cmd.name ++ lit "-" ++ networkId ++ lit "-" ++ string
      else do
        let cmd ← (Term.atom cmd).toString
        let arg ← encodeArg U arg
        let arg2 ← encodeArg U arg2
        return cmd ++ lit " " ++ arg ++ lit " " ++ arg2
  | .tuple [.atom cmd, arg, arg2, arg3] => do
      let cmd ← (Term.atom cmd).toString
      let arg ← encodeArg U arg
      let arg2 ← encodeArg U arg2
      let arg3 ← encodeArg U arg3
      return cmd ++ lit " " ++ arg ++ lit " " ++ arg2 ++ lit " " ++ arg3
  | _ => .error .functionClauseError

/--
The terms that are requests: an atom, or an atom with one to three arguments
that all have a text.
-/
def IsRequest : Term → Prop
  | .atom _ => True
  | .tuple [.atom _, arg] => arg.HasString
  | .tuple [.atom _, arg, arg2] => arg.HasString ∧ arg2.HasString
  | .tuple [.atom _, arg, arg2, arg3] =>
      arg.HasString ∧ arg2.HasString ∧ arg3.HasString
  | _ => False

theorem encodeArg_returns_iff (U : GraphemeTable) (arg : Term) :
    Returns (encodeArg U arg) ↔ arg.HasString := by
  cases arg with
  | binary b =>
      simp [encodeArg, Term.HasString]
  | _ =>
      simp only [encodeArg, Term.toString_returns_iff]

section Returns

variable {f : Binary → Except Raise Binary} {p : Prop}

/-- Converting a command never raises. -/
theorem returns_atom_bind_iff
    (a : Atom) (hf : ∀ b, Returns (f b) ↔ p) :
    Returns ((Term.atom a).toString >>= f) ↔ p := by
  rw [returns_bind_const hf, Term.toString_returns_iff]
  simp [Term.HasString]

theorem returns_toString_bind_iff
    (arg : Term) (hf : ∀ b, Returns (f b) ↔ p) :
    Returns (arg.toString >>= f) ↔ arg.HasString ∧ p := by
  rw [returns_bind_const hf, Term.toString_returns_iff]

theorem returns_encodeArg_bind_iff
    (U : GraphemeTable) (arg : Term) (hf : ∀ b, Returns (f b) ↔ p) :
    Returns (encodeArg U arg >>= f) ↔ arg.HasString ∧ p := by
  rw [returns_bind_const hf, encodeArg_returns_iff]

end Returns

/-- `encode` returns a text exactly for the requests. -/
theorem encode_returns_iff (U : GraphemeTable) (cmd : Term) :
    Returns (encode U cmd) ↔ IsRequest cmd := by
  fun_cases encode U cmd with
  | case1 a =>
      simp [IsRequest, Term.toString]
  | case2 a arg =>
      have h := returns_atom_bind_iff a fun b =>
        returns_encodeArg_bind_iff (p := True) U arg
          (f := fun arg => pure (b ++ lit " " ++ arg)) (by simp)
      simpa [IsRequest] using h
  | case3 a arg arg2 _ =>
      have h := returns_toString_bind_iff arg fun b =>
        returns_toString_bind_iff (p := True) arg2
          (f := fun s => pure (a.name ++ lit "-" ++ b ++ lit "-" ++ s)) (by simp)
      simpa [IsRequest] using h
  | case4 a arg arg2 _ =>
      have h := returns_atom_bind_iff a fun b =>
        returns_encodeArg_bind_iff U arg fun c =>
          returns_encodeArg_bind_iff (p := True) U arg2
            (f := fun d => pure (b ++ lit " " ++ c ++ lit " " ++ d)) (by simp)
      simpa [IsRequest] using h
  | case5 a arg arg2 arg3 =>
      have h := returns_atom_bind_iff a fun b =>
        returns_encodeArg_bind_iff U arg fun c =>
          returns_encodeArg_bind_iff U arg2 fun d =>
            returns_encodeArg_bind_iff (p := True) U arg3
              (f := fun e =>
                pure (b ++ lit " " ++ c ++ lit " " ++ d ++ lit " " ++ e))
              (by simp)
      simpa [IsRequest] using h
  | case6 _ h₁ h₂ h₃ h₄ =>
      have hnot : ¬ IsRequest cmd := by
        unfold IsRequest
        split
        · exact absurd rfl (h₁ _)
        · exact absurd rfl (h₂ _ _)
        · exact absurd rfl (h₃ _ _ _)
        · exact absurd rfl (h₄ _ _ _ _)
        · exact id
      simp [hnot]

end Encode
end WpaSupplicant
