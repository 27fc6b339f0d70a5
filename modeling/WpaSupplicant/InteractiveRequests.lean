import WpaSupplicant.DecimalText
import WpaSupplicant.NotificationClauses
import WpaSupplicant.RequestEncoding

/-!
# Interactive requests and responses

The supplicant asks for a field with `CTRL-REQ-field-n-text`, and the caller
answers with `{:"CTRL-RSP-field", n, answer}`.  The decoder takes any field, the
encoder knows six.

* `notif_requestText_iff`: a request decodes unless its text is empty;
* `response_inj`: the answer to a known field can be read back;
* `answerable_iff`: the requests that can be answered are those of the six.
-/

namespace WpaSupplicant

open ElixirString Encode Decode

/-- A field that can stand in an atom behind `CTRL-REQ-`. -/
structure FieldName where
  name : Binary
  ne_nil : name ≠ []
  no_dash : '-'.toUInt8 ∉ name
  isText : Utf8.IsText name
  short : (Utf8.units name).length ≤ 246

namespace FieldName

/-- The atom of a request for the field. -/
def tag (f : FieldName) : Atom where
  name := lit "CTRL-REQ-" ++ f.name
  valid := by
    rw [isAtomName_lit_append_iff]
    have hlen : "CTRL-REQ-".length = 9 := rfl
    have hshort := f.short
    exact ⟨f.isText, by omega⟩

/-- A request for the field. -/
def requestText (f : FieldName) (n : Nat) (text : Binary) : Binary :=
  lit "CTRL-REQ-" ++ f.name ++ lit "-" ++ decimal n ++ lit "-" ++ text

end FieldName

section Requests

/-- A request decodes to its field, number and text unless the text is empty. -/
theorem notif_requestText_iff (f : FieldName) (n : Nat) (text : Binary) :
    notif (f.requestText n text) = .ok (.numbered f.tag n text) ↔ text ≠ [] := by
  have htext : f.requestText n text =
      lit "CTRL-REQ-" ++ (f.name ++ '-'.toUInt8 :: (digits n ++ '-'.toUInt8 :: text)) := by
    have hdash : lit "-" = ['-'.toUInt8] := rfl
    simp only [FieldName.requestText, decimal_natCast, hdash, List.append_assoc,
      List.cons_append, List.nil_append]
  rw [htext, notif_ctrlReq, notifCtrlReq_eq_ok_iff]
  constructor
  · rintro ⟨tag, field, netId, text', hsplit, _, _, hnotif⟩
    obtain ⟨_, _, _, _, _, _, _, _, _, hne⟩ := splitParts_three_iff.mp hsplit
    simp only [Notif.numbered.injEq] at hnotif
    rwa [hnotif.2.2]
  · intro hne
    refine ⟨f.tag, f.name, digits n, text, ?_, rfl, isNumeral_digits n, ?_⟩
    · rw [splitParts_three_iff]
      exact ⟨[], [], rfl, by simp, by simp, f.ne_nil, f.no_dash, (isDigits_digits n).1,
        dash_not_mem_digits n, hne⟩
    · rw [numeralValue_digits]

/-- `PIN`. -/
def pinField : FieldName where
  name := lit "PIN"
  ne_nil := by decide
  no_dash := by decide
  isText := by decide +kernel
  short := by decide +kernel

/-- A request for the PIN without a text raises. -/
theorem not_notif_requestText_empty :
    notif (pinField.requestText 1 []) ≠ .ok (.numbered pinField.tag 1 []) := by
  have hraises : ¬ Returns (notif (lit "CTRL-REQ-PIN-1-")) := by decide +kernel
  exact fun h => hraises ⟨_, h⟩

end Requests

section Responses

/-- A request for the field with this number arrived. -/
def IsReceived (t field : Binary) (n : Int) : Prop :=
  ∃ (tag : Atom) (text : Binary),
    tag.name = lit "CTRL-REQ-" ++ field ∧ notif t = .ok (.numbered tag n text)

/-- The text of a response to the field. -/
def responseText (field : Binary) (n : Int) (answer : Binary) : Binary :=
  lit "CTRL-RSP-" ++ field ++ lit "-" ++ decimal n ++ lit "-" ++ answer

/-- `{:"CTRL-RSP-field", n, answer}`. -/
def response (rsp : Atom) (n : Int) (answer : Binary) : Term :=
  .tuple [.atom rsp, .int n, .binary answer]

/--
Every answer to the request encodes to its text, and the encoding of a response
to the field determines the number and the answer.
-/
def Answerable (U : GraphemeTable) (field : Binary) (n : Int) : Prop :=
  ∃ rsp : Atom, rsp.name = lit "CTRL-RSP-" ++ field ∧
    (∀ answer, encode U (response rsp n answer) = .ok (responseText field n answer)) ∧
    ∀ n₁ n₂ answer₁ answer₂,
      encode U (response rsp n₁ answer₁) = encode U (response rsp n₂ answer₂) →
        n₁ = n₂ ∧ answer₁ = answer₂

theorem digits_append_dash_inj
    {n₁ n₂ : Nat} {s₁ s₂ : Binary}
    (h : digits n₁ ++ '-'.toUInt8 :: s₁ = digits n₂ ++ '-'.toUInt8 :: s₂) :
    n₁ = n₂ ∧ s₁ = s₂ := by
  obtain ⟨hdigits, hs⟩ :=
    append_cons_inj_of_not_mem (dash_not_mem_digits n₁) (dash_not_mem_digits n₂) h
  have hvalue := congrArg (numeralValue 10) hdigits
  rw [numeralValue_digits, numeralValue_digits] at hvalue
  exact ⟨by exact_mod_cast hvalue, hs⟩

theorem digits_append_ne_dash_cons (n : Nat) (s s' : Binary) :
    digits n ++ s ≠ '-'.toUInt8 :: s' := by
  intro h
  have hdash := dash_not_mem_digits n
  cases hdigits : digits n with
  | nil =>
      exact (isDigits_digits n).1 hdigits
  | cons x xs =>
      rw [hdigits, List.cons_append] at h
      obtain ⟨rfl, _⟩ := List.cons.inj h
      simp [hdigits] at hdash

/-- The sign and the digits of a number are told from what follows the dash behind them. -/
theorem decimal_append_dash_inj
    {n₁ n₂ : Int} {s₁ s₂ : Binary}
    (h : decimal n₁ ++ '-'.toUInt8 :: s₁ = decimal n₂ ++ '-'.toUInt8 :: s₂) :
    n₁ = n₂ ∧ s₁ = s₂ := by
  cases n₁ with
  | ofNat m₁ =>
      cases n₂ with
      | ofNat m₂ =>
          rw [Int.ofNat_eq_natCast, Int.ofNat_eq_natCast, decimal_natCast,
            decimal_natCast] at h
          obtain ⟨rfl, hs⟩ := digits_append_dash_inj h
          exact ⟨rfl, hs⟩
      | negSucc m₂ =>
          rw [Int.ofNat_eq_natCast, decimal_natCast, decimal_negSucc] at h
          exact absurd h (digits_append_ne_dash_cons m₁ _ _)
  | negSucc m₁ =>
      cases n₂ with
      | ofNat m₂ =>
          rw [Int.ofNat_eq_natCast, decimal_natCast, decimal_negSucc] at h
          exact absurd h.symm (digits_append_ne_dash_cons m₂ _ _)
      | negSucc m₂ =>
          rw [decimal_negSucc, decimal_negSucc] at h
          obtain ⟨hm, hs⟩ := digits_append_dash_inj (List.cons.inj h).2
          obtain rfl : m₁ = m₂ := by omega
          exact ⟨rfl, hs⟩

theorem isAtomName_response {field : Binary} (h : IsAtomName (lit "CTRL-REQ-" ++ field)) :
    IsAtomName (lit "CTRL-RSP-" ++ field) := by
  have hreq : "CTRL-REQ-".length = 9 := rfl
  have hrsp : "CTRL-RSP-".length = 9 := rfl
  rw [isAtomName_lit_append_iff, hreq] at h
  rwa [isAtomName_lit_append_iff, hrsp]

section Encoding

variable (U : GraphemeTable) {rsp : Atom} (n : Int) (answer : Binary)

theorem encode_response (hrsp : rsp.name ∈ ctrlRspCommands) :
    encode U (response rsp n answer) =
      .ok (rsp.name ++ lit "-" ++ decimal n ++ lit "-" ++ answer) := by
  simp only [response, encode, if_pos hrsp, Term.toString]
  rfl

theorem encode_response_of_not_mem
    {field : Binary} (hname : rsp.name = lit "CTRL-RSP-" ++ field)
    (hrsp : rsp.name ∉ ctrlRspCommands) :
    encode U (response rsp n answer) =
      .ok (rsp.name ++ lit " " ++ decimal n ++ lit " " ++ encodeBinaryArg U answer) := by
  have hnil : rsp ≠ Atom.nil := by
    rintro rfl
    cases hname
  simp only [response, encode, if_neg hrsp, Term.toString, if_neg hnil, encodeArg]
  rfl

end Encoding

/-- The names of the interactive responses are the front `CTRL-RSP-` and a field. -/
theorem exists_field_of_mem
    {name : Binary} (h : name ∈ ctrlRspCommands) :
    ∃ field, name = lit "CTRL-RSP-" ++ field ∧ '-'.toUInt8 ∉ field := by
  have hall : ∀ c ∈ ctrlRspCommands,
      c = lit "CTRL-RSP-" ++ c.drop 9 ∧ '-'.toUInt8 ∉ c.drop 9 := by
    decide +kernel
  exact ⟨_, hall name h⟩

/-- The command, the number and the answer of a response can be read back. -/
theorem response_inj
    (U : GraphemeTable) {rsp rsp' : Atom} {n n' : Int} {answer answer' : Binary}
    (hrsp : rsp.name ∈ ctrlRspCommands) (hrsp' : rsp'.name ∈ ctrlRspCommands)
    (h : encode U (response rsp n answer) = encode U (response rsp' n' answer')) :
    rsp = rsp' ∧ n = n' ∧ answer = answer' := by
  have hdash : lit "-" = ['-'.toUInt8] := rfl
  obtain ⟨field, hname, hfield⟩ := exists_field_of_mem hrsp
  obtain ⟨field', hname', hfield'⟩ := exists_field_of_mem hrsp'
  rw [encode_response U n answer hrsp, encode_response U n' answer' hrsp', Except.ok.injEq,
    hname, hname'] at h
  simp only [hdash, List.append_assoc, List.append_right_inj, List.cons_append,
    List.nil_append] at h
  obtain ⟨rfl, hrest⟩ := append_cons_inj_of_not_mem hfield hfield' h
  exact ⟨Atom.eq_of_name_eq (hname.trans hname'.symm), decimal_append_dash_inj hrest⟩

/-- The general clause puts a space where the dash should be. -/
theorem not_answerable_of_not_mem
    (U : GraphemeTable) {field : Binary} (n : Int)
    (hnot : lit "CTRL-RSP-" ++ field ∉ ctrlRspCommands) : ¬ Answerable U field n := by
  rintro ⟨rsp, hname, hencode, _⟩
  rw [← hname] at hnot
  have h := hencode []
  rw [encode_response_of_not_mem U n [] hname hnot, Except.ok.injEq, hname,
    responseText] at h
  simp only [List.append_assoc, List.append_right_inj] at h
  cases h

/-- A received request can be answered exactly when the encoder knows its field. -/
theorem answerable_iff
    (U : GraphemeTable) {t field : Binary} {n : Int} (h : IsReceived t field n) :
    Answerable U field n ↔ lit "CTRL-RSP-" ++ field ∈ ctrlRspCommands := by
  obtain ⟨tag, text, htag, _⟩ := h
  have hvalid : IsAtomName (lit "CTRL-RSP-" ++ field) :=
    isAtomName_response (htag ▸ tag.valid)
  constructor
  · intro hanswerable
    by_contra hnot
    exact not_answerable_of_not_mem U n hnot hanswerable
  · intro hmem
    refine ⟨⟨_, hvalid⟩, rfl, fun answer => encode_response U n answer hmem, ?_⟩
    intro n₁ n₂ answer₁ answer₂ h
    exact (response_inj U hmem hmem h).2

/-- A request for the PIN can be answered. -/
theorem answerable_pin :
    Answerable .latin (lit "PIN") 1 ↔ lit "CTRL-RSP-" ++ lit "PIN" ∈ ctrlRspCommands :=
  answerable_iff .latin (t := lit "CTRL-REQ-PIN-1-Enter PIN")
    ⟨pinField.tag, lit "Enter PIN", rfl, by decide +kernel⟩

/-- The response to a request for a field the encoder does not know is quoted. -/
theorem not_answerable_sim :
    IsReceived (lit "CTRL-REQ-SIM-1-GSM-AUTH") (lit "SIM") 1 ∧
      ¬ Answerable .latin (lit "SIM") 1 :=
  ⟨⟨⟨lit "CTRL-REQ-SIM", by decide +kernel, by decide +kernel⟩, lit "GSM-AUTH", rfl,
    by decide +kernel⟩, not_answerable_of_not_mem .latin 1 (by decide +kernel)⟩

end Responses

end WpaSupplicant
