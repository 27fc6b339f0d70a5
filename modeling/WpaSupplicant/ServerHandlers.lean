import WpaSupplicant.RequestEncoding
import WpaSupplicant.MessageDecoding

/-!
# The GenServer callbacks

`init`, `handle_call`, `handle_info` and `handle_wpa` of `WpaSupplicant`.  A
callback returns the messages it sends together with its new state, or raises,
which terminates the server.
-/

namespace WpaSupplicant

open Decode (Notif Reply)

abbrev Pid := Nat

abbrev Port := Nat

/-- The `from` of a call: the caller and the reference of this call. -/
structure From where
  pid : Pid
  ref : Nat
deriving DecidableEq

/-- `{:wpa_supplicant, pid, notif}`, as it is given to the event manager. -/
structure WpaEvent where
  source : Pid
  notif : Notif
deriving DecidableEq

/-- The value of a `GenServer.reply`. -/
inductive CallValue
  | response (r : Reply)
  | manager (pid : Pid)
deriving DecidableEq

/-- What a callback sends: to the port, to the event manager, to a caller. -/
inductive Effect
  | command (port : Port) (payload : Binary)
  | notify (manager : Pid) (event : WpaEvent)
  | reply (client : From) (value : CallValue)
deriving DecidableEq

/-- The struct `%WpaSupplicant{}`. -/
structure ServerState where
  port : Port
  manager : Pid
  requests : List (From × Term)

/-- The messages `handle_call` has clauses for. -/
inductive Call
  | request (command : Term)
  | eventManager

/-- The messages `handle_info` has clauses for. -/
inductive Info
  | data (message : Binary)
  | exitStatus (status : Nat)

/-- How a callback that does not raise ends. -/
inductive Callback
  | continue (effects : List Effect) (state : ServerState)
  | stop (state : ServerState)

namespace Server

/-- `init/1`, once the port is open. -/
def init (port : Port) (manager : Pid) : ServerState where
  port := port
  manager := manager
  requests := []

/-- `handle_call/3`. -/
def handleCall (U : GraphemeTable) (call : Call) (sender : From)
    (state : ServerState) : Except Raise Callback :=
  match call with
  | .request command => do
      let payload ← Encode.encode U command
      return .continue [.command state.port payload]
        { state with requests := state.requests ++ [(sender, command)] }
  | .eventManager =>
      .ok (.continue [.reply sender (.manager state.manager)] state)

/-- The text that `<<"<", _priority::utf8, ">", notification::binary>>` binds. -/
def notification? : Binary → Option Binary
  | [] => none
  | x :: rest =>
      if x = '<'.toUInt8 then
        match Utf8.head? rest with
        | some priority =>
            match rest.drop priority.utf8Size with
            | [] => none
            | y :: text => if y = '>'.toUInt8 then some text else none
        | none => none
      else
        none

/-- The second clause of `handle_wpa/2`. -/
def handleResponse (response : Binary) (state : ServerState) :
    Except Raise Callback :=
  match state.requests with
  | [] => .error .matchError
  | (client, command) :: nextOnes => do
      let decodedResponse ← Decode.resp command response
      return .continue [.reply client (.response decodedResponse)]
        { state with requests := nextOnes }

/-- `handle_wpa/2`; `self` is the server's own pid. -/
def handleWpa (self : Pid) (message : Binary) (state : ServerState) :
    Except Raise Callback :=
  match notification? message with
  | some notification => do
      let decodedNotif ← Decode.notif notification
      return .continue [.notify state.manager ⟨self, decodedNotif⟩] state
  | none => handleResponse message state

/-- `handle_info/2`. -/
def handleInfo (self : Pid) (info : Info) (state : ServerState) :
    Except Raise Callback :=
  match info with
  | .data message => handleWpa self message state
  | .exitStatus _ => .ok (.stop state)

theorem drop_encodeChar_append (c : Char) (b : Binary) :
    (String.utf8EncodeChar c ++ b).drop c.utf8Size = b := by
  rw [← String.length_utf8EncodeChar, List.drop_left]

/-- The messages of the notification clause. -/
theorem notification?_eq_some_iff {message text : Binary} :
    notification? message = some text ↔
      ∃ priority : Char,
        message = '<'.toUInt8 ::
          (String.utf8EncodeChar priority ++ '>'.toUInt8 :: text) := by
  constructor
  · intro h
    cases message with
    | nil =>
        cases h
    | cons x rest =>
        simp only [notification?] at h
        split at h
        · next hx =>
            cases hhead : Utf8.head? rest with
            | none =>
                simp [hhead] at h
            | some c =>
                obtain ⟨t, rfl⟩ := Utf8.head?_eq_some_iff.mp hhead
                rw [hhead] at h
                simp only [drop_encodeChar_append] at h
                cases t with
                | nil =>
                    simp at h
                | cons y t =>
                    simp only [Option.ite_none_right_eq_some,
                      Option.some.injEq] at h
                    obtain ⟨rfl, rfl⟩ := h
                    exact ⟨c, by rw [hx]⟩
        · cases h
  · rintro ⟨c, rfl⟩
    simp [notification?, Utf8.head?_encode_append]

theorem handleCall_of_encode
    {U : GraphemeTable} {command : Term} {payload : Binary} {sender : From}
    {state : ServerState} (h : Encode.encode U command = .ok payload) :
    handleCall U (.request command) sender state =
      .ok (.continue [.command state.port payload]
        { state with requests := state.requests ++ [(sender, command)] }) := by
  simp only [handleCall, h]
  rfl

theorem handleWpa_of_notification
    {self : Pid} {message text : Binary} {state : ServerState} {n : Notif}
    (hmessage : notification? message = some text)
    (hnotif : Decode.notif text = .ok n) :
    handleWpa self message state =
      .ok (.continue [.notify state.manager ⟨self, n⟩] state) := by
  rw [handleWpa, hmessage]
  simp only [hnotif]
  rfl

theorem handleWpa_of_response
    {self : Pid} {message : Binary} {state : ServerState}
    {client : From} {command : Term} {nextOnes : List (From × Term)} {r : Reply}
    (hmessage : notification? message = none)
    (hrequests : state.requests = (client, command) :: nextOnes)
    (hresp : Decode.resp command message = .ok r) :
    handleWpa self message state =
      .ok (.continue [.reply client (.response r)]
        { state with requests := nextOnes }) := by
  rw [handleWpa, hmessage]
  simp only [handleResponse, hrequests, hresp]
  rfl

/-- Why handling a message raises. -/
inductive WpaRaises (message : Binary) (state : ServerState) : Prop
  | notification (text : Binary)
      (hmessage : notification? message = some text)
      (hnotif : ¬ Returns (Decode.notif text))
  | unexpected
      (hmessage : notification? message = none)
      (hrequests : state.requests = [])
  | response (client : From) (command : Term) (nextOnes : List (From × Term))
      (hmessage : notification? message = none)
      (hrequests : state.requests = (client, command) :: nextOnes)
      (hresp : ¬ Returns (Decode.resp command message))

/-- A message is a notification or the reply to the oldest request, or raises. -/
theorem handleWpa_cases (self : Pid) (message : Binary) (state : ServerState) :
    (∃ text n, notification? message = some text ∧ Decode.notif text = .ok n ∧
      handleWpa self message state =
        .ok (.continue [.notify state.manager ⟨self, n⟩] state)) ∨
    (∃ client command nextOnes r, notification? message = none ∧
      state.requests = (client, command) :: nextOnes ∧
      Decode.resp command message = .ok r ∧
      handleWpa self message state =
        .ok (.continue [.reply client (.response r)]
          { state with requests := nextOnes })) ∨
    ((∃ e, handleWpa self message state = .error e) ∧ WpaRaises message state) := by
  cases hmessage : notification? message with
  | some text =>
      cases hnotif : Decode.notif text with
      | ok n =>
          exact .inl ⟨text, n, rfl, hnotif, handleWpa_of_notification hmessage hnotif⟩
      | error e =>
          refine .inr (.inr ⟨⟨e, ?_⟩, .notification text hmessage (by simp [hnotif])⟩)
          rw [handleWpa, hmessage]
          simp only [hnotif]
          rfl
  | none =>
      cases hrequests : state.requests with
      | nil =>
          refine .inr (.inr ⟨⟨.matchError, ?_⟩, .unexpected hmessage hrequests⟩)
          rw [handleWpa, hmessage]
          simp only [handleResponse, hrequests]
      | cons request nextOnes =>
          obtain ⟨client, command⟩ := request
          cases hresp : Decode.resp command message with
          | ok r =>
              exact .inr (.inl ⟨client, command, nextOnes, r, rfl, rfl, hresp,
                handleWpa_of_response hmessage hrequests hresp⟩)
          | error e =>
              refine .inr (.inr ⟨⟨e, ?_⟩,
                .response client command nextOnes hmessage hrequests (by simp [hresp])⟩)
              rw [handleWpa, hmessage]
              simp only [handleResponse, hrequests, hresp]
              rfl

end Server
end WpaSupplicant
