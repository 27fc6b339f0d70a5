import WpaSupplicant.ErlangTerms
import Mathlib.Data.Finmap

/-!
# Decoding notifications and responses

`WpaSupplicant.Decode`: `notif` on the text of an unsolicited message and
`resp` on the reply to a request.  Both raise on some texts;
`notif_returns_iff` and `resp_returns_iff` say on which ones they do not.
-/

namespace WpaSupplicant
namespace Decode

open ElixirString

/-- A decoded notification: an atom, or an atom tagging what came with it. -/
inductive Notif
  | bare (name : Atom)
  | tagged (tag : Atom) (text : Binary)
  | numbered (tag : Atom) (n : Int) (text : Binary)
deriving DecidableEq

/-- The value of one key of a key/value response. -/
inductive KvValue
  | bool (b : Bool)
  | nil
  | int (n : Int)
  | text (b : Binary)
deriving DecidableEq

/-- A map from atoms to the values of a key/value response. -/
abbrev KvMap := Finmap (fun _ : Atom => KvValue)

/-- A decoded response. -/
inductive Reply
  | atom (a : Atom)
  | nil
  | int (n : Int)
  | text (b : Binary)
  | lines (ls : List Binary)
  | map (m : KvMap)
deriving DecidableEq

section Notifications

/-- The clause for interactive requests. -/
def notifCtrlReq (rest : Binary) : Except Raise Notif :=
  match splitParts rest '-'.toUInt8 3 with
  | [field, netId, text] => do
      let tag ← toAtom (lit "CTRL-REQ-" ++ field)
      let n ← toInteger netId 10
      return .numbered tag n text
  | _ => .error .matchError

/-- The clauses for scan entries, with the atom each puts first. -/
def notifBss (tag : Atom) (rest : Binary) : Except Raise Notif :=
  match splitTrim rest ' '.toUInt8 with
  | [entryId, bssid] => do
      let n ← toInteger entryId 10
      return .numbered tag n bssid
  | _ => .error .matchError

/-- The clauses that turn the whole line into an atom. -/
def notifAtom (event : Binary) : Except Raise Notif := do
  let name ← toAtom (rstrip event)
  return .bare name

/-- `notif/1`. -/
def notif (s : Binary) : Except Raise Notif :=
  if let some rest := s.dropPrefix? (lit "CTRL-REQ-") then
    notifCtrlReq rest
  else if let some rest := s.dropPrefix? (lit "CTRL-EVENT-BSS-ADDED") then
    notifBss (.lit "CTRL-EVENT-BSS-ADDED") rest
  else if let some rest := s.dropPrefix? (lit "CTRL-EVENT-BSS-REMOVED") then
    notifBss (.lit "CTRL-EVENT-BSS-REMOVED") rest
  else if let some _ := s.dropPrefix? (lit "CTRL-EVENT-CONNECTED") then
    .ok (.bare (.lit "CTRL-EVENT-CONNECTED"))
  else if let some _ := s.dropPrefix? (lit "CTRL-EVENT-DISCONNECTED") then
    .ok (.bare (.lit "CTRL-EVENT-DISCONNECTED"))
  else if let some _ := s.dropPrefix? (lit "CTRL-EVENT-") then
    notifAtom s
  else if let some _ := s.dropPrefix? (lit "WPS-") then
    notifAtom s
  else if let some mac := s.dropPrefix? (lit "AP-STA-CONNECTED ") then
    .ok (.tagged (.lit "AP-STA-CONNECTED") (rstrip mac))
  else if let some mac := s.dropPrefix? (lit "AP-STA-DISCONNECTED ") then
    .ok (.tagged (.lit "AP-STA-DISCONNECTED") (rstrip mac))
  else
    .ok (.tagged (.lit "INFO") (rstrip s))

/-- An interactive request with its three parts, the second a number. -/
def IsCtrlReq (rest : Binary) : Prop :=
  ∃ field netId text, splitParts rest '-'.toUInt8 3 = [field, netId, text] ∧
    IsAtomName (lit "CTRL-REQ-" ++ field) ∧ IsNumeral 10 netId

/-- A scan entry event with its two parameters, the first a number. -/
def IsBssEvent (rest : Binary) : Prop :=
  ∃ entryId bssid, splitTrim rest ' '.toUInt8 = [entryId, bssid] ∧
    IsNumeral 10 entryId

/-- The notification texts that decode. -/
def IsNotification (s : Binary) : Prop :=
  if let some rest := s.dropPrefix? (lit "CTRL-REQ-") then
    IsCtrlReq rest
  else if let some rest := s.dropPrefix? (lit "CTRL-EVENT-BSS-ADDED") then
    IsBssEvent rest
  else if let some rest := s.dropPrefix? (lit "CTRL-EVENT-BSS-REMOVED") then
    IsBssEvent rest
  else if let some _ := s.dropPrefix? (lit "CTRL-EVENT-CONNECTED") then
    True
  else if let some _ := s.dropPrefix? (lit "CTRL-EVENT-DISCONNECTED") then
    True
  else if let some _ := s.dropPrefix? (lit "CTRL-EVENT-") then
    IsAtomName (rstrip s)
  else if let some _ := s.dropPrefix? (lit "WPS-") then
    IsAtomName (rstrip s)
  else
    True

theorem toAtom_returns_iff (s : Binary) :
    Returns (toAtom s) ↔ IsAtomName s := by
  unfold toAtom
  split <;> simp_all

theorem notifCtrlReq_returns_iff (rest : Binary) :
    Returns (notifCtrlReq rest) ↔ IsCtrlReq rest := by
  unfold notifCtrlReq IsCtrlReq
  split
  · next field netId text h =>
      rw [returns_bind_const (p := IsNumeral 10 netId), toAtom_returns_iff]
      · simp [h]
      · intro tag
        rw [returns_bind_const (p := True) (by simp), toInteger_returns_iff]
        simp
  · next h =>
      simp only [not_returns_error, false_iff]
      rintro ⟨field, netId, text, hsplit, _⟩
      exact h field netId text hsplit

theorem notifBss_returns_iff (tag : Atom) (rest : Binary) :
    Returns (notifBss tag rest) ↔ IsBssEvent rest := by
  unfold notifBss IsBssEvent
  split
  · next entryId bssid h =>
      rw [returns_bind_const (p := True) (by simp), toInteger_returns_iff]
      simp [h]
  · next h =>
      simp only [not_returns_error, false_iff]
      rintro ⟨entryId, bssid, hsplit, _⟩
      exact h entryId bssid hsplit

theorem notifAtom_returns_iff (event : Binary) :
    Returns (notifAtom event) ↔ IsAtomName (rstrip event) := by
  unfold notifAtom
  rw [returns_bind_const (p := True) (by simp), toAtom_returns_iff]
  simp

/-- `notif` returns exactly on the notification texts. -/
theorem notif_returns_iff (s : Binary) :
    Returns (notif s) ↔ IsNotification s := by
  unfold notif IsNotification
  repeat' split
  all_goals
    simp only [notifCtrlReq_returns_iff, notifBss_returns_iff,
      notifAtom_returns_iff, returns_ok]

instance (s : Binary) : Decidable (IsNotification s) :=
  decidable_of_iff _ (notif_returns_iff s)

end Notifications

section Responses

/-- `kv_value/2`. -/
def kvValueBase (value : Binary) (base : Nat) : KvValue :=
  match toInteger value base with
  | .ok n => .int n
  | .error _ => .text value

/-- `kv_value/1`. -/
def kvValue (str : Binary) : KvValue :=
  if str = lit "TRUE" then .bool true
  else if str = lit "FALSE" then .bool false
  else if str = [] then .nil
  else if let some hex := str.dropPrefix? (lit "0x") then kvValueBase hex 16
  else kvValueBase str 10

/-- One line of a key/value response. -/
def kvPair (pair : Binary) : Except Raise (Atom × KvValue) :=
  match split pair '='.toUInt8 with
  | [key, value] => do
      let key ← toAtom key
      return (key, kvValue (rstrip value))
  | _ => .error .matchError

/-- `kv_resp/1`. -/
def kvResp (resp : Binary) : Except Raise KvMap :=
  (splitTrim resp '\n'.toUInt8).foldlM
    (fun acc pair => do
      let kv ← kvPair pair
      return acc.insert kv.1 kv.2)
    ∅

/-- The command is this atom. -/
def isAtom (req : Term) (name : String) : Bool :=
  match req with
  | .atom a => a.name == lit name
  | _ => false

/-- The command is `{:BSS, _}`. -/
def isBss : Term → Bool
  | .tuple [.atom a, _] => a.name == lit "BSS"
  | _ => false

/-- The commands of the clauses that call `kv_resp` on every reply. -/
def isKvCommand (req : Term) : Bool :=
  isAtom req "MIB" || isAtom req "STATUS" || isAtom req "STATUS-VERBOSE"

/-- `tresp/2`. -/
def tresp (req : Term) (resp : Binary) : Except Raise Reply :=
  if isAtom req "PING" ∧ resp = lit "PONG" then
    .ok (.atom .pong)
  else if isKvCommand req then
    Reply.map <$> kvResp resp
  else if isBss req then
    if resp = [] then .ok .nil else Reply.map <$> kvResp resp
  else if isAtom req "INTERFACES" then
    .ok (.lines (split resp '\n'.toUInt8))
  else if isAtom req "ADD_NETWORK" then
    Reply.int <$> toInteger resp 10
  else if resp = lit "OK" then
    .ok (.atom .ok)
  else if resp = lit "FAIL" then
    .ok (.atom .fail)
  else if let some string := resp.dropPrefix? (lit "\"") then
    .ok (.text (rstripChar string '"'))
  else
    .ok (.text resp)

/-- `resp/2`. -/
def resp (req : Term) (resp : Binary) : Except Raise Reply :=
  tresp req (strip resp)

/-- Every line is a key and a value around one `=`, the key an atom name. -/
def IsKvText (resp : Binary) : Prop :=
  ∀ pair ∈ splitTrim resp '\n'.toUInt8,
    ∃ key value, split pair '='.toUInt8 = [key, value] ∧ IsAtomName key

/-- The stripped replies to a command that decode. -/
def IsResponse (req : Term) (resp : Binary) : Prop :=
  if isKvCommand req then IsKvText resp
  else if isBss req then resp = [] ∨ IsKvText resp
  else if isAtom req "ADD_NETWORK" then IsNumeral 10 resp
  else True

theorem kvPair_returns_iff (pair : Binary) :
    Returns (kvPair pair) ↔
      ∃ key value, split pair '='.toUInt8 = [key, value] ∧ IsAtomName key := by
  unfold kvPair
  split
  · next key value h =>
      rw [returns_bind_const (p := True) (by simp), toAtom_returns_iff]
      simp [h]
  · next h =>
      simp only [not_returns_error, false_iff]
      rintro ⟨key, value, hsplit, _⟩
      exact h key value hsplit

/-- A fold of calls returns when each of them does. -/
theorem returns_foldlM_insert_iff (pairs : List Binary) (acc : KvMap) :
    Returns (pairs.foldlM
      (fun acc pair => do
        let kv ← kvPair pair
        return acc.insert kv.1 kv.2) acc) ↔
      ∀ pair ∈ pairs, Returns (kvPair pair) := by
  induction pairs generalizing acc with
  | nil =>
      simp
  | cons pair pairs ih =>
      rw [List.foldlM_cons, bind_assoc,
        returns_bind_const (p := ∀ pair ∈ pairs, Returns (kvPair pair))]
      · simp
      · intro kv
        exact ih _

theorem kvResp_returns_iff (resp : Binary) :
    Returns (kvResp resp) ↔ IsKvText resp := by
  unfold kvResp IsKvText
  rw [returns_foldlM_insert_iff]
  simp only [kvPair_returns_iff]

theorem returns_map_iff
    {α β : Type} (f : α → β) (x : Except Raise α) :
    Returns (f <$> x) ↔ Returns x := by
  cases x <;> simp [Returns, Functor.map, Except.map]

/-- A command is at most one atom. -/
theorem isAtom_eq_false_of_isAtom
    {req : Term} {name : String}
    (h : isAtom req name = true) (other : String) (hne : lit name ≠ lit other) :
    isAtom req other = false := by
  cases req with
  | atom a =>
      simp only [isAtom, beq_iff_eq] at h
      simpa [isAtom, h] using hne
  | _ =>
      rfl

/-- The reply to a command without a clause of its own is a success only if it says so. -/
theorem tresp_eq_ok_iff
    {req : Term} (hping : isAtom req "PING" = false) (hkv : isKvCommand req = false)
    (hbss : isBss req = false) (hinterfaces : isAtom req "INTERFACES" = false)
    (hadd : isAtom req "ADD_NETWORK" = false) (resp : Binary) :
    tresp req resp = .ok (.atom .ok) ↔ resp = lit "OK" := by
  have hfail : Atom.fail ≠ Atom.ok := by decide
  simp only [tresp, hping, hkv, hbss, hinterfaces, hadd, Bool.false_eq_true, false_and,
    if_false]
  by_cases hok : resp = lit "OK"
  · simp [hok]
  · simp only [hok, if_false, iff_false]
    split
    · simp [hfail]
    · split <;> simp

theorem isBss_eq_false_of_isAtom
    {req : Term} {name : String} (h : isAtom req name = true) :
    isBss req = false := by
  cases req with
  | atom a =>
      rfl
  | _ =>
      cases h

/-- `tresp` returns exactly on the responses to the command. -/
theorem tresp_returns_iff (req : Term) (resp : Binary) :
    Returns (tresp req resp) ↔ IsResponse req resp := by
  unfold tresp IsResponse
  split
  · next h =>
      have hname (other : String) (hne : lit "PING" ≠ lit other) :
          isAtom req other = false :=
        isAtom_eq_false_of_isAtom h.1 other hne
      simp [isKvCommand, hname "MIB" (by decide), hname "STATUS" (by decide),
        hname "STATUS-VERBOSE" (by decide), hname "ADD_NETWORK" (by decide),
        isBss_eq_false_of_isAtom h.1]
  split
  · rw [returns_map_iff, kvResp_returns_iff]
  split
  · split
    · next hresp =>
        simp [hresp]
    · next hresp =>
        rw [returns_map_iff, kvResp_returns_iff]
        simp [hresp]
  split
  · next h =>
      simp [isAtom_eq_false_of_isAtom h "ADD_NETWORK" (by decide)]
  split
  · rw [returns_map_iff, toInteger_returns_iff]
  · repeat' split
    all_goals simp

instance (req : Term) (resp : Binary) : Decidable (IsResponse req resp) :=
  decidable_of_iff _ (tresp_returns_iff req resp)

/-- `resp` returns exactly on the stripped responses to the command. -/
theorem resp_returns_iff (req : Term) (s : Binary) :
    Returns (resp req s) ↔ IsResponse req (strip s) :=
  tresp_returns_iff req (strip s)

end Responses

end Decode
end WpaSupplicant
