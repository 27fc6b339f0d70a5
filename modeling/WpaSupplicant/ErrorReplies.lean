import WpaSupplicant.MessageDecoding
import WpaSupplicant.SeparatedTokens

/-!
# Error replies

A failure is one line of text: `FAIL`, `FAIL-BUSY`, `UNKNOWN COMMAND`.  The
clauses for it stand behind those of the single commands in `tresp`.

* `tresp_errorText`: a command that has no clause of its own reports the error;
* `not_returns_tresp_errorText`: the clauses that parse the reply raise on it;
* `reportsError_iff`: for which commands an error is reported.
-/

namespace WpaSupplicant
namespace Decode

open ElixirString

/-- One line that is no value, no confirmation, no number and not quoted. -/
structure ErrorText where
  text : Binary
  ne_nil : text ≠ []
  newline : '\n'.toUInt8 ∉ text
  equals : '='.toUInt8 ∉ text
  space_ahead : whitespace.NoneAhead text
  space_behind : whitespace.NoneBehind text
  ne_pong : text ≠ lit "PONG"
  ne_ok : text ≠ lit "OK"
  not_numeral : ¬ IsNumeral 10 text
  not_quoted : ¬ lit "\"" <+: text

/-- How the caller sees an error. -/
def ErrorText.reported (e : ErrorText) : Reply :=
  if e.text = lit "FAIL" then .atom .fail else .text e.text

/-- The commands whose clause parses every reply. -/
def parsesReply (req : Term) : Bool :=
  isKvCommand req || isBss req || isAtom req "ADD_NETWORK"

/-- The reply decodes to the error in it, whatever white space is around it. -/
def ReportsError (req : Term) (e : ErrorText) : Prop :=
  ∀ before after : List Binary,
    (∀ w ∈ before, w ∈ whitespace.pats) → (∀ w ∈ after, w ∈ whitespace.pats) →
    resp req (before.flatten ++ e.text ++ after.flatten) = .ok e.reported

theorem resp_errorText
    (req : Term) (e : ErrorText) (before after : List Binary)
    (hbefore : ∀ w ∈ before, w ∈ whitespace.pats)
    (hafter : ∀ w ∈ after, w ∈ whitespace.pats) :
    resp req (before.flatten ++ e.text ++ after.flatten) = tresp req e.text := by
  rw [resp, strip_surrounded e.ne_nil e.space_ahead e.space_behind hbefore hafter]

/-- An error has no key and value in it. -/
theorem not_isKvText_errorText (e : ErrorText) : ¬ IsKvText e.text := by
  have htokens : splitTrim e.text '\n'.toUInt8 = [e.text] :=
    tokens_of_not_mem e.ne_nil e.newline
  have hsplit : split e.text '='.toUInt8 = [e.text] :=
    List.splitOn_eq_singleton e.equals
  intro h
  obtain ⟨key, value, hpair, _⟩ := h e.text (by simp [htokens])
  rw [hsplit] at hpair
  cases hpair

/-- The clauses that parse every reply raise on an error. -/
theorem not_returns_tresp_errorText
    {req : Term} (hreq : parsesReply req = true) (e : ErrorText) :
    ¬ Returns (tresp req e.text) := by
  rw [tresp_returns_iff, IsResponse]
  have hkv := not_isKvText_errorText e
  simp only [parsesReply, Bool.or_eq_true] at hreq
  split
  · exact hkv
  · split
    · simp [e.ne_nil, hkv]
    · next hkvreq hbss =>
        rw [if_pos (by simpa [hkvreq, hbss] using hreq)]
        exact e.not_numeral

/-- The other clauses leave an error to the last ones. -/
theorem tresp_errorText
    {req : Term} (hreq : parsesReply req = false)
    (hinterfaces : isAtom req "INTERFACES" = false) (e : ErrorText) :
    tresp req e.text = .ok e.reported := by
  simp only [parsesReply, Bool.or_eq_false_iff] at hreq
  obtain ⟨⟨hkv, hbss⟩, hadd⟩ := hreq
  simp only [tresp, e.ne_pong, and_false, hkv, hbss, hinterfaces, hadd, Bool.false_eq_true,
    if_false, e.ne_ok, dropPrefix?_eq_none e.not_quoted, ErrorText.reported]
  split <;> rfl

/-- An error is reported exactly for the commands whose clause does not parse it. -/
theorem reportsError_iff
    {req : Term} (hreq : isAtom req "INTERFACES" = false) (e : ErrorText) :
    ReportsError req e ↔ parsesReply req = false := by
  constructor
  · intro h
    by_contra hparses
    rw [Bool.not_eq_false] at hparses
    apply not_returns_tresp_errorText hparses e
    rw [← resp_errorText req e [] [] (by simp) (by simp)]
    exact ⟨_, h [] [] (by simp) (by simp)⟩
  · intro hparses before after hbefore hafter
    rw [resp_errorText req e before after hbefore hafter, tresp_errorText hparses hreq e]

/-- `FAIL`. -/
def failText : ErrorText where
  text := lit "FAIL"
  ne_nil := by decide
  newline := by decide
  equals := by decide
  space_ahead := by decide +kernel
  space_behind := by decide +kernel
  ne_pong := by decide
  ne_ok := by decide
  not_numeral := by decide
  not_quoted := by decide

/-- The caller of `PING` is told of a failure. -/
theorem reportsError_ping :
    ReportsError (.atom .ping) failText ↔ parsesReply (.atom .ping) = false :=
  reportsError_iff (by decide) failText

/-- A failed `STATUS` raises in the server. -/
theorem not_reportsError_status :
    isAtom (.atom .status) "INTERFACES" = false ∧ ¬ ReportsError (.atom .status) failText := by
  refine ⟨by decide, fun h => ?_⟩
  have hraises : ¬ Returns (resp (.atom .status) (lit "FAIL")) := by decide +kernel
  exact hraises ⟨_, h [] [] (by simp) (by simp)⟩

end Decode
end WpaSupplicant
