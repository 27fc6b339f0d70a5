import WpaSupplicant.DecimalText
import WpaSupplicant.MessageDecoding
import WpaSupplicant.RequestEncoding

/-!
# Configuring a network

`set_network/2` as a program of the calling process, and a supplicant with a
table of networks that answers its requests.

* `resp_addNetwork`: the id in the reply to `ADD_NETWORK` is the one the
  supplicant gave;
* `resp_ok`, `resp_fail`: what the caller sees of the other replies.
-/

namespace WpaSupplicant
namespace SetNetwork

open ElixirString Encode Decode

/-- The requests that `set_network` makes. -/
inductive Command
  | removeAll
  | add
  | set (netid : Int) (key value : Term)
  | select (netid : Int)

/-- The term that is passed to `request/2`. -/
def Command.term : Command → Term
  | .removeAll => .tuple [.atom (.lit "REMOVE_NETWORK"), .atom (.lit "all")]
  | .add => .atom (.lit "ADD_NETWORK")
  | .set netid key value =>
      .tuple [.atom .setNetwork, .int netid, key, value]
  | .select netid => .tuple [.atom (.lit "SELECT_NETWORK"), .int netid]

/-- The options of a call. -/
abbrev Options := List (Term × Term)

/-- The request that the caller of `set_network` waits for the answer of. -/
inductive State
  | removing (options : Options)
  | adding (options : Options)
  | setting (netid : Int) (key value : Term) (rest : Options)
  | selecting (netid : Int)
  | returned
  | crashed

def outstanding : State → Option Command
  | .removing _ => some .removeAll
  | .adding _ => some .add
  | .setting netid key value _ => some (.set netid key value)
  | .selecting netid => some (.select netid)
  | .returned | .crashed => none

/-- `Enum.each` over the options, and the request behind it. -/
def each (netid : Int) : Options → State
  | [] => .selecting netid
  | (key, value) :: rest => .setting netid key value rest

/--
The caller when its request returns a value, or exits because the server has
terminated.  The reply to `ADD_NETWORK` is always an integer.
-/
def step : State → Except Raise Reply → State
  | .removing options, .ok _ => .adding options
  | .adding options, .ok (.int netid) => each netid options
  | .setting netid _ _ rest, .ok r =>
      if r = .atom .ok then each netid rest else .crashed
  | .selecting _, .ok r => if r = .atom .ok then .returned else .crashed
  | .returned, _ => .returned
  | _, _ => .crashed

section Replies

/-- Digits are visible, so no white space shares a byte with them. -/
theorem not_mem_whitespace_of_mem_digits
    {n : Nat} {x : UInt8} (hx : x ∈ digits n) :
    ∀ p ∈ whitespace.pats, x ∉ p := by
  obtain ⟨c, hc, rfl⟩ := List.mem_map.mp hx
  have hbounds := toNat_bounds_of_isDigit
    (Nat.isDigit_of_mem_toDigits (by decide) (by decide) hc)
  have hbyte : (asciiByte c).toNat = c.toNat := by
    rw [asciiByte, UInt8.toNat_ofNat']
    omega
  exact not_mem_whitespace (by omega) (by omega)

/-- A numeral is stripped of the newline behind it and of nothing else. -/
theorem strip_digits (n : Nat) : strip (digits n ++ lit "\n") = digits n := by
  have hnewline : ∀ w ∈ [lit "\n"], w ∈ whitespace.pats := by
    decide +kernel
  have hahead : whitespace.NoneAhead (digits n) := by
    cases hdigits : digits n with
    | nil =>
        exact absurd hdigits (isDigits_digits n).1
    | cons x xs =>
        apply whitespace.noneAhead_cons
        exact not_mem_whitespace_of_mem_digits (by rw [hdigits]; simp)
  have hbehind : whitespace.NoneBehind (digits n) := by
    rcases (digits n).eq_nil_or_concat' with hdigits | ⟨xs, x, hdigits⟩
    · exact absurd hdigits (isDigits_digits n).1
    · rw [hdigits]
      refine whitespace.noneBehind_append_cons ?_ xs whitespace.noneBehind_nil
      exact not_mem_whitespace_of_mem_digits (by rw [hdigits]; simp)
  exact strip_append_flatten (isDigits_digits n).1 hahead hbehind hnewline

/-- The caller sees the id that the supplicant gave. -/
theorem resp_addNetwork (n : Nat) :
    resp Command.add.term (decimal n ++ lit "\n") = .ok (.int n) := by
  have hresp (s : Binary) :
      resp Command.add.term s = Reply.int <$> toInteger (strip s) 10 := by
    rfl
  rw [hresp, decimal_natCast, strip_digits, ← decimal_natCast, toInteger_decimal]
  rfl

/-- The caller sees that its option was stored or its network selected. -/
theorem resp_ok
    {cmd : Command} (hcmd : cmd ≠ .add) :
    resp cmd.term (lit "OK\n") = .ok (.atom .ok) := by
  cases cmd with
  | add =>
      exact absurd rfl hcmd
  | removeAll | set | select =>
      rfl

theorem resp_fail
    {cmd : Command} (hcmd : cmd ≠ .add) :
    resp cmd.term (lit "FAIL\n") = .ok (.atom .fail) := by
  cases cmd with
  | add =>
      exact absurd rfl hcmd
  | removeAll | set | select =>
      rfl

end Replies

end SetNetwork
end WpaSupplicant
