import WpaSupplicant.ScanEntries
import Mathlib.Data.ENat.Basic

/-!
# Requests for the entries of a changing list

`all_bss/3` asks for the entries of the supplicant's list by position, while the
list changes and other clients use the server.  A state is the list, the server,
the caller and the entries that the caller was given.

* `resp_entryText`: what the caller is given for an entry, and past the end;
* `Sync`: what the caller holds and waits for;
* `step_ask`, `step_entry`, `Elsewhere`: the steps of the caller, and what the
  server does without it.
-/

namespace WpaSupplicant
namespace Scan

open Decode (Reply Record)
open ElixirString

deriving instance DecidableEq for Decode.KvLine
deriving instance DecidableEq for Decode.Record

/-- An entry of the supplicant's list. -/
structure Entry where
  id : Nat
  record : Record
  /-- Its record is not taken for a notification. -/
  response : record.text.head? ≠ some '<'.toUInt8
deriving DecidableEq

/-- What the caller is given for an entry. -/
def Entry.decoded (e : Entry) : Reply :=
  .map e.record.map

/-- What the supplicant answers `{:BSS, i}` with, up to white space at the end. -/
def entryText (table : List Entry) (i : Nat) : Binary :=
  match table[i]? with
  | some e => e.record.text
  | none => []

/-- What `resp` makes of it. -/
def entryReply (table : List Entry) (i : Nat) : Reply :=
  match table[i]? with
  | some e => e.decoded
  | none => .nil

/-- Encodings of white space characters. -/
def areSpaces (ws : List Binary) : Bool :=
  ws.all fun w => whitespace.pats.contains w

theorem areSpaces_iff (ws : List Binary) :
    areSpaces ws = true ↔ ∀ w ∈ ws, w ∈ whitespace.pats := by
  simp [areSpaces]

/-- The `i` of `{:BSS, i}`. -/
def entryIndex? : Term → Option Nat
  | .tuple [.atom a, .int (.ofNat i)] => if a.name = lit "BSS" then some i else none
  | _ => none

section Replies

theorem isBss_of_entryIndex? {command : Term} {i : Nat} (h : entryIndex? command = some i) :
    Decode.isBss command = true := by
  unfold entryIndex? at h
  split at h
  · next a i =>
      have hname := (Option.ite_none_right_eq_some.mp h).1
      simpa [Decode.isBss] using hname
  · cases h

theorem entryIndex?_request
    {count : Nat} {acc : List Reply} {command : Term}
    (h : request? (.enumerating count acc) = some command) :
    entryIndex? command = some count := by
  cases h
  rfl

/-- The caller's requests are encoded. -/
theorem exists_encode_request
    {caller : State} {command : Term} (h : request? caller = some command)
    (U : GraphemeTable) : ∃ payload, Encode.encode U command = .ok payload := by
  cases caller with
  | scanning | enumerating =>
      cases h
      exact ⟨_, rfl⟩
  | _ =>
      cases h

theorem resp_flatten
    {req : Term} (hreq : Decode.isBss req = true)
    {ws : List Binary} (hws : ∀ w ∈ ws, w ∈ whitespace.pats) :
    Decode.resp req ws.flatten = .ok .nil := by
  have hkv : Decode.isKvCommand req = false := by
    cases req with
    | tuple =>
        rfl
    | _ =>
        cases hreq
  have hping : ¬ (Decode.isAtom req "PING" = true ∧ ([] : Binary) = lit "PONG") := by
    rintro ⟨_, h⟩
    exact absurd h (by decide)
  rw [Decode.resp, strip_flatten hws, Decode.tresp, if_neg hping, hkv, hreq]
  rfl

variable {command : Term} {i : Nat} (hcommand : entryIndex? command = some i)
  {trailing : List Binary} (htrailing : ∀ w ∈ trailing, w ∈ whitespace.pats)
include htrailing

/-- The supplicant's answer is no notification. -/
theorem notification?_entryText (table : List Entry) (i : Nat) :
    Server.notification? (entryText table i ++ trailing.flatten) = none := by
  have hspace : '<'.toUInt8 ∉ trailing.flatten :=
    not_mem_flatten_whitespace (by decide) (by decide) htrailing
  have hhead : (entryText table i ++ trailing.flatten).head? ≠ some '<'.toUInt8 := by
    rw [List.head?_append, ne_eq, Option.or_eq_some_iff, not_or, not_and]
    constructor
    · unfold entryText
      cases table[i]? with
      | some e =>
          exact e.response
      | none =>
          simp
    · exact fun _ h => hspace (List.mem_of_mem_head? h)
  generalize entryText table i ++ trailing.flatten = message at hhead
  cases message with
  | nil =>
      rfl
  | cons x rest =>
      rw [Server.notification?, if_neg (by simpa using hhead)]

include hcommand

theorem resp_entryText (table : List Entry) :
    Decode.resp command (entryText table i ++ trailing.flatten) =
      .ok (entryReply table i) := by
  have hbss := isBss_of_entryIndex? hcommand
  unfold entryText entryReply
  cases table[i]? with
  | some e =>
      exact e.record.resp_text hbss trailing htrailing
  | none =>
      exact resp_flatten hbss htrailing

end Replies

/-- The list, the server, the caller, and the entries it was given, the latest first. -/
structure Enumeration where
  table : List Entry
  /-- `none` once the server has terminated. -/
  server : Option ServerState
  caller : State
  seen : List Entry

namespace Enumeration

/-- What happens next. -/
inductive Action
  /-- The caller makes its next request. -/
  | ask (ref : Nat)
  /-- Another client calls. -/
  | call (client : From) (call : Call)
  /-- The supplicant answers `{:BSS, i}`, with white space at the end. -/
  | entry (trailing : List Binary)
  /-- The port delivers anything else. -/
  | deliver (info : Info)
  | insert (i : Nat) (e : Entry)
  | remove (i : Nat)

def Action.isAsk : Action → Bool
  | .ask _ => true
  | _ => false

def Action.isInsert : Action → Bool
  | .insert _ _ => true
  | _ => false

/-- The oldest request is answered. -/
def Action.isReply : Action → Bool
  | .entry _ => true
  | .deliver (.data message) => (Server.notification? message).isNone
  | _ => false

/-- The requests of the caller that are not answered. -/
def own (me : Pid) (state : ServerState) : List (From × Term) :=
  state.requests.filter fun r => decide (r.1.pid = me)

/-- The oldest request, if it is for an entry. -/
def oldest? (state : ServerState) : Option (From × Nat) :=
  match state.requests with
  | [] => none
  | (client, command) :: _ => (entryIndex? command).map fun i => (client, i)

/-- A message that is taken for the reply to a request for an entry. -/
def answersEntry (state : ServerState) : Info → Bool
  | .data message =>
      (Server.notification? message).isNone && (oldest? state).isSome
  | .exitStatus _ => false

/-- The caller of a server that has terminated. -/
def exited : State → State
  | .returned result => .returned result
  | _ => .crashed

/-- The caller after a message of the server. -/
def receive (self me : Pid) (caller : State) : Effect → State
  | .reply client (.response r) =>
      if client.pid = me then (Scan.step self caller (.answer r)).getD caller else caller
  | _ => caller

def terminated (s : Enumeration) : Enumeration :=
  { s with
    server := none
    caller := exited s.caller }

@[simp] theorem server_terminated (s : Enumeration) : s.terminated.server = none := rfl

@[simp] theorem caller_terminated (s : Enumeration) :
    s.terminated.caller = exited s.caller := rfl

@[simp] theorem seen_terminated (s : Enumeration) : s.terminated.seen = s.seen := rfl

/-- The end of a callback. -/
def absorb (self me : Pid) (s : Enumeration) : Except Raise Callback → Enumeration
  | .ok (.continue effects state) =>
      { s with
        server := some state
        caller := effects.foldl (receive self me) s.caller }
  | .ok (.stop _) => s.terminated
  | .error _ => s.terminated

/-- One action; `none` when it cannot happen. -/
def step (U : GraphemeTable) (self me : Pid) (s : Enumeration) :
    Action → Option Enumeration
  | .ask ref =>
      match s.server, request? s.caller with
      | some state, some command =>
          -- the caller waits for one reply before it asks again
          if (own me state).isEmpty then
            some (s.absorb self me
              (Server.handleCall U (.request command) ⟨me, ref⟩ state))
          else
            none
      | _, _ => none
  | .call client call =>
      match s.server with
      | some state =>
          if client.pid = me then none
          else some (s.absorb self me (Server.handleCall U call client state))
      | none => none
  | .entry trailing =>
      match s.server with
      | some state =>
          match oldest? state with
          | some (client, i) =>
              if areSpaces trailing then
                some { s.absorb self me (Server.handleInfo self
                    (.data (entryText s.table i ++ trailing.flatten)) state) with
                  seen :=
                    if client.pid = me then s.table[i]?.toList ++ s.seen else s.seen }
              else
                none
          | none => none
      | none => none
  | .deliver info =>
      match s.server with
      | some state =>
          if answersEntry state info then none
          else some (s.absorb self me (Server.handleInfo self info state))
      | none => none
  | .insert i e =>
      if i ≤ s.table.length ∧ e ∉ s.table then
        some { s with table := s.table.insertIdx i e }
      else
        none
  | .remove i =>
      if i < s.table.length then some { s with table := s.table.eraseIdx i } else none

/-- The caller before its first request. -/
def start (table : List Entry) (state : ServerState) : Enumeration where
  table := table
  server := some state
  caller := .enumerating 0 []
  seen := []

/-- The caller holds the entries it was given and waits for one reply at most. -/
structure Sync (me : Pid) (s : Enumeration) : Prop where
  caller :
    s.caller = .crashed ∨ s.caller = .returned (s.seen.map Entry.decoded) ∨
      s.caller = .enumerating s.seen.length (s.seen.map Entry.decoded)
  crashed : s.caller = .crashed → s.server = none
  waiting : ∀ state, s.server = some state →
    own me state = [] ∨ ∃ client command,
      own me state = [(client, command)] ∧ entryIndex? command = some s.seen.length ∧
        s.caller = .enumerating s.seen.length (s.seen.map Entry.decoded)

/-- The number of requests in front of the caller's first one. -/
def ahead (me : Pid) : List (From × Term) → ENat
  | [] => ⊤
  | (client, _) :: rest => if client.pid = me then 0 else ahead me rest + 1

/--
What the server does without the caller: it serves its other clients, and maybe
answers the oldest request, or it terminates.
-/
inductive Elsewhere (me : Pid) (s : Enumeration) (answered : Bool) : Enumeration → Prop
  | served (state state' : ServerState)
      (hserver : s.server = some state) (hown : own me state' = own me state)
      (hle : ahead me state'.requests ≤ ahead me state.requests)
      (hlt : answered → own me state ≠ [] →
        ahead me state'.requests < ahead me state.requests) :
      Elsewhere me s answered { s with server := some state' }
  | terminated : Elsewhere me s answered s.terminated

section Server

variable {me : Pid}

theorem own_append (state : ServerState) (requests : List (From × Term)) :
    own me { state with requests := state.requests ++ requests } =
      own me state ++ requests.filter fun r => decide (r.1.pid = me) := by
  simp [own]

theorem own_cons
    (me : Pid) {state : ServerState} {client : From} {command : Term} {rest : List (From × Term)}
    (h : state.requests = (client, command) :: rest) :
    own me state =
      if client.pid = me then (client, command) :: own me { state with requests := rest }
      else own me { state with requests := rest } := by
  simp only [own, h, List.filter_cons, decide_eq_true_eq]

theorem ahead_eq_top_iff (me : Pid) (state : ServerState) :
    ahead me state.requests = ⊤ ↔ own me state = [] := by
  unfold own
  induction state.requests with
  | nil =>
      simp [ahead]
  | cons r rest ih =>
      by_cases hclient : r.1.pid = me <;> simp [ahead, hclient, ih]

/-- Another client gets in line behind. -/
theorem ahead_concat {client : From} (hclient : client.pid ≠ me) (command : Term)
    (requests : List (From × Term)) :
    ahead me (requests ++ [(client, command)]) = ahead me requests := by
  induction requests with
  | nil =>
      simp [ahead, hclient]
  | cons r rest ih =>
      simp [ahead, ih]

/-- A reply to another client brings the caller closer to its own. -/
theorem Elsewhere.answered
    {s : Enumeration} {state : ServerState} (hserver : s.server = some state)
    {client : From} {command : Term} {rest : List (From × Term)}
    (hrequests : state.requests = (client, command) :: rest) (hclient : client.pid ≠ me)
    (answered : Bool) :
    Elsewhere me s answered { s with server := some { state with requests := rest } } := by
  have hown := own_cons me hrequests
  rw [if_neg hclient] at hown
  have hahead : ahead me state.requests = ahead me rest + 1 := by
    rw [hrequests, ahead, if_neg hclient]
  refine .served state _ hserver hown.symm ?_ fun _ hne => ?_
  · rw [hahead]
    exact le_self_add
  · rw [hahead]
    refine (ENat.lt_add_one_iff ?_).mpr le_rfl
    rwa [hown, ne_eq, ← ahead_eq_top_iff] at hne

theorem oldest?_eq_some
    {state : ServerState} {client : From} {i : Nat} (h : oldest? state = some (client, i)) :
    ∃ command rest, state.requests = (client, command) :: rest ∧
      entryIndex? command = some i := by
  unfold oldest? at h
  split at h
  · cases h
  · next client' command rest hrequests =>
      obtain ⟨j, hj, heq⟩ := Option.map_eq_some_iff.mp h
      cases heq
      exact ⟨command, rest, hrequests, hj⟩

theorem oldest?_of_requests
    {state : ServerState} {client : From} {command : Term} {rest : List (From × Term)}
    (h : state.requests = (client, command) :: rest) {i : Nat}
    (hi : entryIndex? command = some i) :
    oldest? state = some (client, i) := by
  simp [oldest?, h, hi]

end Server

section Steps

variable {U : GraphemeTable} {self me : Pid} {s s' : Enumeration}

theorem step_ask {ref : Nat} (h : step U self me s (.ask ref) = some s') :
    ∃ state command, s.server = some state ∧ request? s.caller = some command ∧
      own me state = [] ∧
      s' = { s with
        server := some { state with
          requests := state.requests ++ [(⟨me, ref⟩, command)] } } := by
  simp only [step] at h
  split at h
  · next state command hserver hcommand =>
      split at h
      · next hown =>
          obtain ⟨payload, hpayload⟩ := exists_encode_request hcommand U
          rw [Server.handleCall_of_encode hpayload] at h
          cases h
          exact ⟨state, command, hserver, hcommand, List.isEmpty_iff.mp hown, rfl⟩
      · cases h
  · cases h

theorem step_call
    {client : From} {call : Call} (h : step U self me s (.call client call) = some s') :
    Elsewhere me s false s' := by
  simp only [step] at h
  split at h
  · next state hserver =>
      split at h
      · cases h
      · next hclient =>
          cases h
          cases call with
          | eventManager =>
              obtain ⟨table, server, caller, seen⟩ := s
              cases hserver
              exact .served state state rfl rfl le_rfl (by simp)
          | request command =>
              cases hencode : Encode.encode U command with
              | error e =>
                  simp only [Server.handleCall, hencode]
                  exact .terminated
              | ok payload =>
                  rw [Server.handleCall_of_encode hencode]
                  refine .served state _ hserver ?_ ?_ (by simp)
                  · simp [own_append, hclient]
                  · exact (ahead_concat hclient command state.requests).le
  · cases h

/-- No other message is a reply to the caller. -/
theorem step_deliver
    (hs : Sync me s) {info : Info} (h : step U self me s (.deliver info) = some s') :
    Elsewhere me s (Action.isReply (.deliver info)) s' := by
  simp only [step] at h
  split at h
  · next state hserver =>
      split at h
      · cases h
      · next hinfo =>
          cases h
          cases info with
          | exitStatus status =>
              exact .terminated
          | data message =>
              rw [Server.handleInfo]
              rcases Server.handleWpa_cases self message state with
                ⟨text, n, htext, _, h⟩ |
                ⟨client, command, rest, r, hmessage, hrequests, _, h⟩ | ⟨⟨e, h⟩, _⟩
              · rw [h]
                exact .served state state hserver rfl le_rfl (by simp [Action.isReply, htext])
              · rw [h]
                have hclient : client.pid ≠ me := by
                  -- the caller only asks for entries
                  intro hclient
                  have hown := own_cons me hrequests
                  rw [if_pos hclient] at hown
                  rcases hs.waiting state hserver with hnil | ⟨_, _, hone, hindex, _⟩
                  · simp [hnil] at hown
                  · rw [hone] at hown
                    cases (List.cons.inj hown).1
                    have holdest := oldest?_of_requests hrequests hindex
                    simp [answersEntry, hmessage, holdest] at hinfo
                have hserved := Elsewhere.answered hserver hrequests hclient
                  (Action.isReply (.deliver (.data message)))
                simpa [absorb, receive, hclient] using hserved
              · rw [h]
                exact .terminated
  · cases h

/-- The supplicant answers the caller, or another client. -/
theorem step_entry
    (hs : Sync me s) {trailing : List Binary}
    (h : step U self me s (.entry trailing) = some s') :
    ∃ state client i, s.server = some state ∧ oldest? state = some (client, i) ∧
      ((client.pid ≠ me ∧ Elsewhere me s true s') ∨
        (client.pid = me ∧ i = s.seen.length ∧
          s.caller = .enumerating s.seen.length (s.seen.map Entry.decoded) ∧
          ∃ state', own me state' = [] ∧ s' = { s with
            server := some state'
            caller :=
              match s.table[i]? with
              | some e => .enumerating (i + 1) (e.decoded :: s.seen.map Entry.decoded)
              | none => .returned (s.seen.map Entry.decoded)
            seen := s.table[i]?.toList ++ s.seen })) := by
  simp only [step] at h
  split at h
  · next state hserver =>
      split at h
      · next client i holdest =>
          split at h
          · next hspaces =>
              have htrailing := (areSpaces_iff trailing).mp hspaces
              obtain ⟨command, rest, hrequests, hindex⟩ := oldest?_eq_some holdest
              refine ⟨state, client, i, hserver, holdest, ?_⟩
              rw [Server.handleInfo, Server.handleWpa_of_response
                (notification?_entryText htrailing s.table i) hrequests
                (resp_entryText hindex htrailing s.table)] at h
              by_cases hclient : client.pid = me
              · right
                have hown := own_cons me hrequests
                rw [if_pos hclient] at hown
                rcases hs.waiting state hserver with
                  hnil | ⟨client', command', hone, hi, hcaller⟩
                · simp [hnil] at hown
                · rw [hone] at hown
                  obtain ⟨heq, hrest⟩ := List.cons.inj hown
                  cases heq
                  obtain rfl : i = s.seen.length := by
                    rw [hi] at hindex
                    exact (Option.some.inj hindex).symm
                  refine ⟨hclient, rfl, hcaller, { state with requests := rest },
                    hrest.symm, ?_⟩
                  rw [← Option.some.inj h]
                  simp only [absorb, List.foldl_cons, List.foldl_nil, receive, hclient,
                    if_true, hcaller, entryReply]
                  cases s.table[s.seen.length]? <;> rfl
              · left
                refine ⟨hclient, ?_⟩
                rw [← Option.some.inj h]
                simpa [absorb, receive, hclient] using
                  Elsewhere.answered hserver hrequests hclient true
          · cases h
      · cases h
  · cases h

theorem step_insert {i : Nat} {e : Entry} (h : step U self me s (.insert i e) = some s') :
    (i ≤ s.table.length ∧ e ∉ s.table) ∧ s' = { s with table := s.table.insertIdx i e } := by
  simp only [step, Option.ite_none_right_eq_some, Option.some.injEq] at h
  exact ⟨h.1, h.2.symm⟩

theorem step_remove {i : Nat} (h : step U self me s (.remove i) = some s') :
    i < s.table.length ∧ s' = { s with table := s.table.eraseIdx i } := by
  simp only [step, Option.ite_none_right_eq_some, Option.some.injEq] at h
  exact ⟨h.1, h.2.symm⟩

end Steps

end Enumeration
end Scan
end WpaSupplicant
