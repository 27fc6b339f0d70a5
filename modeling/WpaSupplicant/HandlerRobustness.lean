import WpaSupplicant.ServerHandlers
import WpaSupplicant.StepSystem

/-!
# What a message may do to the pending requests

The server handles one message at a time and has no guard around the encoder
and the decoder.  A message they accept keeps every pending request but the one
it answers; a command without a text ends the server and all that is pending.
-/

namespace WpaSupplicant
namespace Server

/-- A request of a client, or a message from the port. -/
inductive Message
  | request (sender : From) (command : Term)
  | data (message : Binary)

/-- The callback that the message reaches. -/
def handle (U : GraphemeTable) (self : Pid) (msg : Message) (state : ServerState) :
    Except Raise Callback :=
  match msg with
  | .request sender command => handleCall U (.request command) sender state
  | .data message => handleInfo self (.data message) state

/-- The state after a message that does not end the server. -/
def step (U : GraphemeTable) (self : Pid) (state : ServerState) (msg : Message) :
    Option ServerState :=
  match handle U self msg state with
  | .ok (.continue _ state') => some state'
  | _ => none

/-- States of a server that has just started and has handled some messages. -/
def Reachable (U : GraphemeTable) (self : Pid) (port : Port) (manager : Pid)
    (state : ServerState) : Prop :=
  ∃ msgs, StepSystem.Run (step U self) (fun _ _ => True) (init port manager) msgs state

/-- The pending request that the message answers: the oldest, if it is a reply. -/
def answered (msg : Message) (state : ServerState) : List (From × Term) :=
  match msg with
  | .request _ _ => []
  | .data message =>
      if (notification? message).isSome then [] else state.requests.take 1

/-- The request that the message adds. -/
def added : Message → List (From × Term)
  | .request sender command => [(sender, command)]
  | .data _ => []

/-- The clients that some effects reply to. -/
def repliesTo (effects : List Effect) : List From :=
  effects.filterMap fun
    | .reply client _ => some client
    | _ => none

/--
The server goes on, replies to nobody but the client of the request that the
message answers, and keeps every other pending request in its place.
-/
def KeepsPending (U : GraphemeTable) (self : Pid) (msg : Message) (state : ServerState) :
    Prop :=
  ∃ effects state',
    handle U self msg state = .ok (.continue effects state') ∧
      repliesTo effects = (answered msg state).map Prod.fst ∧
      answered msg state ++ state'.requests = state.requests ++ added msg

/-- The encoder, or the decoder the message reaches, has a clause for it. -/
def Accepts (msg : Message) (state : ServerState) : Prop :=
  match msg with
  | .request _ command => Encode.IsRequest command
  | .data message =>
      match notification? message with
      | some text => Decode.IsNotification text
      | none =>
          ∃ client command nextOnes, state.requests = (client, command) :: nextOnes ∧
            Decode.IsResponse command (ElixirString.strip message)

section Handling

variable {U : GraphemeTable} {self : Pid} {state : ServerState}

theorem handleCall_of_not_isRequest
    {sender : From} {command : Term} (h : ¬ Encode.IsRequest command) :
    ∃ e, handleCall U (.request command) sender state = .error e := by
  cases hencode : Encode.encode U command with
  | error e =>
      refine ⟨e, ?_⟩
      simp only [handleCall, hencode]
      rfl
  | ok payload =>
      exact absurd ((Encode.encode_returns_iff U command).mp ⟨payload, hencode⟩) h

/-- An accepted message ends neither the server nor a request it does not answer. -/
theorem keepsPending_of_accepts
    {msg : Message} (h : Accepts msg state) :
    KeepsPending U self msg state := by
  cases msg with
  | request sender command =>
      obtain ⟨payload, hencode⟩ := (Encode.encode_returns_iff U command).mpr h
      exact ⟨_, _, handleCall_of_encode hencode, rfl, rfl⟩
  | data message =>
      simp only [Accepts] at h
      split at h
      · next text htext =>
          obtain ⟨n, hnotif⟩ := (Decode.notif_returns_iff text).mpr h
          refine ⟨_, _, handleWpa_of_notification htext hnotif, ?_, ?_⟩
          · simp [answered, htext, repliesTo]
          · simp [answered, htext, added]
      · next hnone =>
          obtain ⟨client, command, nextOnes, hrequests, hresponse⟩ := h
          obtain ⟨r, hresp⟩ := (Decode.resp_returns_iff command message).mpr hresponse
          refine ⟨_, _, handleWpa_of_response hnone hrequests hresp, ?_, ?_⟩
          · simp [answered, hnone, hrequests, repliesTo]
          · simp [answered, hnone, hrequests, added]

end Handling

/-- A state in which two clients wait for the replies to `PING` and `STATUS`. -/
def twoPending : ServerState where
  port := 5
  manager := 7
  requests := [(⟨1, 0⟩, .atom .ping), (⟨2, 0⟩, .atom .status)]

theorem reachable_twoPending :
    Reachable .latin 9 5 7 twoPending := by
  let ping : Message := .request ⟨1, 0⟩ (.atom .ping)
  let status : Message := .request ⟨2, 0⟩ (.atom .status)
  have hrun : StepSystem.Run (step .latin 9) (fun _ _ => True) (init 5 7)
      (([] ++ [ping]) ++ [status]) twoPending :=
    .snoc (.snoc .start trivial rfl) trivial rfl
  exact ⟨_, hrun⟩

end Server
end WpaSupplicant
