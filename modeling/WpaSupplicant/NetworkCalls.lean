import WpaSupplicant.NetworkConfiguration
import WpaSupplicant.ServerHandlers
import WpaSupplicant.StepSystem

/-!
# One call of set_network

A call of `set_network` that runs alone: the server has no other request, and
the supplicant answers each one with any text or not at all.

* `serve_of_empty`: what the callbacks of the server make of one request and
  its reply;
* `Asks`: the requests of a call, each after the answers that let it go on;
* `run_followsPlan`: what a call sends, when it selects and when it returns.
-/

namespace WpaSupplicant

/-- A request and its reply in a server with nothing else to do. -/
def request (U : GraphemeTable) (command : Term) (reply : Binary) :
    Except Raise Decode.Reply := do
  let _ ← Encode.encode U command
  Decode.resp command reply

/-- `handle_call` on the request and then `handle_info` on the reply. -/
def Server.serve (U : GraphemeTable) (self : Pid) (sender : From) (state : ServerState)
    (command : Term) (reply : Binary) : Except Raise Callback := do
  match ← Server.handleCall U (.request command) sender state with
  | .continue _ state => Server.handleInfo self (.data reply) state
  | .stop state => return .stop state

/-- With no other request, the callbacks reply to the caller or raise. -/
theorem Server.serve_of_empty
    (U : GraphemeTable) (self : Pid) (sender : From) {state : ServerState}
    (hstate : state.requests = []) (command : Term) {reply : Binary}
    (hreply : Server.notification? reply = none) :
    Server.serve U self sender state command reply =
      (fun r => .continue [.reply sender (.response r)] state) <$>
        request U command reply := by
  unfold Server.serve request
  cases hencode : Encode.encode U command with
  | error e =>
      simp only [Server.handleCall, hencode]
      rfl
  | ok payload =>
      rw [Server.handleCall_of_encode hencode]
      obtain ⟨port, manager, requests⟩ := state
      subst hstate
      change Server.handleWpa self reply ⟨port, manager, [(sender, command)]⟩ =
        (fun r => Callback.continue [.reply sender (.response r)] ⟨port, manager, []⟩) <$>
          Decode.resp command reply
      rw [Server.handleWpa, hreply]
      cases hresp : Decode.resp command reply with
      | error e =>
          simp only [Server.handleResponse, hresp]
          rfl
      | ok r =>
          simp only [Server.handleResponse, hresp]
          rfl

namespace SetNetwork

open Decode (Reply)
open StepSystem (Run)

/-- What becomes of a request. -/
inductive Outcome
  | reply (text : Binary)
  | noReply

/-- A call, with the requests that came to an end and the values they returned. -/
structure Call where
  caller : State
  answered : List (Command × Option Reply)

namespace Call

/-- The call before its first request. -/
def start (options : Options) : Call where
  caller := .removing options
  answered := []

/-- The value that a request returns, if it does. -/
def value (U : GraphemeTable) (cmd : Command) : Outcome → Option Reply
  | .reply text => (request U cmd.term text).toOption
  | .noReply => none

/-- The caller once its request has returned, or has exited it. -/
def resume (caller : State) : Option Reply → State
  | some r => SetNetwork.step caller (.ok r)
  | none => .crashed

theorem resume_toOption
    {caller : State} {cmd : Command} (h : outstanding caller = some cmd)
    (result : Except Raise Reply) :
    resume caller result.toOption = SetNetwork.step caller result := by
  cases result with
  | ok r =>
      rfl
  | error e =>
      cases caller <;> first | rfl | cases h

/-- The call once its request has come to an end. -/
def step (U : GraphemeTable) (s : Call) (outcome : Outcome) : Option Call :=
  match outstanding s.caller with
  | none => none
  | some cmd =>
      some {
        caller := resume s.caller (value U cmd outcome)
        answered := s.answered ++ [(cmd, value U cmd outcome)] }

/-- The requests made so far, the last one perhaps waiting for its answer. -/
def issued (s : Call) : List Command :=
  s.answered.map Prod.fst ++ (outstanding s.caller).toList

/-- Every request of a call that is not cut short. -/
def plan (options : Options) (netid : Int) : List Command :=
  [.removeAll, .add] ++ options.map (fun option => .set netid option.1 option.2) ++
    [.select netid]

/-- The caller goes on after this value of the request. -/
def Accepts : Command → Option Reply → Prop
  | .removeAll, result => result.isSome
  | .add, result => ∃ netid, result = some (.int netid)
  | .set _ _ _, result => result = some (.atom .ok)
  | .select _, result => result = some (.atom .ok)

/-- What was asked and answered once these options are set. -/
def confirmed (r : Reply) (netid : Int) (options : Options) :
    List (Command × Option Reply) :=
  [(.removeAll, some r), (.add, some (.int netid))] ++
    options.map fun option => (.set netid option.1 option.2, some (.atom .ok))

/-- The request that a call with these options makes after these answers. -/
inductive Asks (options : Options) : List (Command × Option Reply) → Command → Prop
  | removeAll : Asks options [] .removeAll
  | add (r : Reply) : Asks options [(.removeAll, some r)] .add
  | set
      (r : Reply) (netid : Int) (done : Options) (key value : Term) (rest : Options)
      (hoptions : options = done ++ (key, value) :: rest) :
      Asks options (confirmed r netid done) (.set netid key value)
  | select (r : Reply) (netid : Int) :
      Asks options (confirmed r netid options) (.select netid)

/-- Where a call is, and what it has been answered. -/
def Progress (options : Options) (s : Call) : Prop :=
  match s.caller with
  | .removing rest => rest = options ∧ s.answered = []
  | .adding rest => rest = options ∧ ∃ r, s.answered = [(.removeAll, some r)]
  | .setting netid key value rest =>
      ∃ r done, options = done ++ (key, value) :: rest ∧ s.answered = confirmed r netid done
  | .selecting netid => ∃ r, s.answered = confirmed r netid options
  | .returned =>
      ∃ r netid, s.answered =
        confirmed r netid options ++ [(.select netid, some (.atom .ok))]
  | .crashed =>
      ∃ front cmd result, s.answered = front ++ [(cmd, result)] ∧ Asks options front cmd ∧
        ¬ Accepts cmd result

section Progress

variable {U : GraphemeTable} {options : Options}

/-- `Enum.each` goes on with the options that are left. -/
theorem progress_each
    (r : Reply) (netid : Int) (done : Options) {rest : Options} (hoptions : options = done ++ rest) :
    Progress options ⟨each netid rest, confirmed r netid done⟩ := by
  cases rest with
  | nil =>
      rw [List.append_nil] at hoptions
      subst hoptions
      exact ⟨r, rfl⟩
  | cons option rest =>
      exact ⟨r, done, hoptions, rfl⟩

theorem confirmed_concat (r : Reply) (netid : Int) (done : Options) (key value : Term) :
    confirmed r netid done ++ [(.set netid key value, some (.atom .ok))] =
      confirmed r netid (done ++ [(key, value)]) := by
  simp [confirmed]

/-- A value that is not accepted ends the call. -/
theorem progress_crashed
    {answered : List (Command × Option Reply)} {cmd : Command} {result : Option Reply}
    (hasks : Asks options answered cmd) (hresult : ¬ Accepts cmd result) :
    Progress options ⟨.crashed, answered ++ [(cmd, result)]⟩ :=
  ⟨answered, cmd, result, rfl, hasks, hresult⟩

theorem step_progress
    {s s' : Call} {outcome : Outcome}
    (h : step U s outcome = some s') (hs : Progress options s) :
    Progress options s' := by
  obtain ⟨caller, answered⟩ := s
  cases caller with
  | removing rest =>
      obtain ⟨rfl, rfl⟩ := hs
      simp only [step, outstanding, Option.some.injEq] at h
      subst h
      cases value U .removeAll outcome with
      | none =>
          exact progress_crashed .removeAll (by simp [Accepts])
      | some r =>
          exact ⟨rfl, r, rfl⟩
  | adding rest =>
      obtain ⟨rfl, r, rfl⟩ := hs
      simp only [step, outstanding, Option.some.injEq] at h
      subst h
      cases value U .add outcome with
      | none =>
          exact progress_crashed (.add r) (by simp [Accepts])
      | some r' =>
          cases r' with
          | int netid =>
              exact progress_each r netid [] rfl
          | _ =>
              exact progress_crashed (.add r) (by simp [Accepts])
  | setting netid key val rest =>
      obtain ⟨r, done, hoptions, rfl⟩ := hs
      have hasks := Asks.set r netid done key val rest hoptions
      simp only [step, outstanding, Option.some.injEq] at h
      subst h
      cases value U (.set netid key val) outcome with
      | none =>
          exact progress_crashed hasks (by simp [Accepts])
      | some r' =>
          by_cases hok : r' = .atom .ok
          · subst hok
            rw [confirmed_concat]
            exact progress_each r netid _ (by simpa using hoptions)
          · simp only [resume, SetNetwork.step, if_neg hok]
            exact progress_crashed hasks (by simp [Accepts, hok])
  | selecting netid =>
      obtain ⟨r, rfl⟩ := hs
      have hasks : Asks options (confirmed r netid options) (.select netid) := .select r netid
      simp only [step, outstanding, Option.some.injEq] at h
      subst h
      cases value U (.select netid) outcome with
      | none =>
          exact progress_crashed hasks (by simp [Accepts])
      | some r' =>
          by_cases hok : r' = .atom .ok
          · subst hok
            exact ⟨r, netid, rfl⟩
          · simp only [resume, SetNetwork.step, if_neg hok]
            exact progress_crashed hasks (by simp [Accepts, hok])
  | returned | crashed =>
      cases h

theorem run_progress
    {hist : List Outcome} {s : Call}
    (hrun : Run (step U) (fun _ _ => True) (start options) hist s) :
    Progress options s := by
  have hstart : Progress options (start options) := ⟨rfl, rfl⟩
  exact hrun.invariant (I := fun _ s => Progress options s) hstart
    fun ih _ hstep => step_progress hstep ih

/-- A call waits for an answer, has returned or has crashed. -/
theorem Progress.cases {s : Call} (hs : Progress options s) :
    (∃ cmd, outstanding s.caller = some cmd ∧ Asks options s.answered cmd) ∨
      (s.caller = .returned ∧ ∃ r netid,
        s.answered = confirmed r netid options ++ [(.select netid, some (.atom .ok))]) ∨
      (s.caller = .crashed ∧ ∃ front cmd result, s.answered = front ++ [(cmd, result)] ∧
        Asks options front cmd ∧ ¬ Accepts cmd result) := by
  obtain ⟨caller, answered⟩ := s
  cases caller with
  | removing rest =>
      obtain ⟨_, rfl⟩ := hs
      exact .inl ⟨_, rfl, .removeAll⟩
  | adding rest =>
      obtain ⟨_, r, rfl⟩ := hs
      exact .inl ⟨_, rfl, .add r⟩
  | setting netid key value rest =>
      obtain ⟨r, done, hoptions, rfl⟩ := hs
      exact .inl ⟨_, rfl, .set r netid done key value rest hoptions⟩
  | selecting netid =>
      obtain ⟨r, rfl⟩ := hs
      exact .inl ⟨_, rfl, .select r netid⟩
  | returned =>
      exact .inr (.inl ⟨rfl, hs⟩)
  | crashed =>
      exact .inr (.inr ⟨rfl, hs⟩)

end Progress

section Plan

variable {options : Options} {answered : List (Command × Option Reply)} {cmd : Command}

theorem map_fst_confirmed (r : Reply) (netid : Int) (done : Options) :
    (confirmed r netid done).map Prod.fst =
      [.removeAll, .add] ++ done.map fun option => .set netid option.1 option.2 := by
  simp [confirmed]

/-- The requests of a call are the plan's, for the id that it was given. -/
theorem Asks.isPrefix_plan (h : Asks options answered cmd) :
    ∃ netid, answered.map Prod.fst ++ [cmd] <+: plan options netid ∧
      (2 < (answered.map Prod.fst ++ [cmd]).length →
        answered[1]? = some (.add, some (.int netid))) := by
  cases h with
  | removeAll =>
      exact ⟨0, by simp [plan], by simp⟩
  | add r =>
      exact ⟨0, by simp [plan], by simp⟩
  | set r netid done key value rest hoptions =>
      refine ⟨netid, ?_, fun _ => rfl⟩
      rw [map_fst_confirmed, plan, hoptions]
      simp
  | select r netid =>
      refine ⟨netid, ?_, fun _ => rfl⟩
      rw [map_fst_confirmed, plan]

theorem accepts_of_mem_confirmed
    {r : Reply} {netid : Int} {done : Options} {x : Command × Option Reply}
    (hx : x ∈ confirmed r netid done) : Accepts x.1 x.2 := by
  rcases List.mem_append.mp hx with hx | hx
  · rcases List.mem_cons.mp hx with rfl | hx
    · rfl
    · obtain rfl := List.mem_singleton.mp hx
      exact ⟨netid, rfl⟩
  · obtain ⟨option, _, rfl⟩ := List.mem_map.mp hx
    rfl

/-- Everything answered before a request was accepted. -/
theorem Asks.accepts (h : Asks options answered cmd) :
    ∀ x ∈ answered, Accepts x.1 x.2 := by
  cases h with
  | removeAll =>
      simp
  | add r =>
      intro x hx
      obtain rfl := List.mem_singleton.mp hx
      rfl
  | set | select =>
      exact fun x hx => accepts_of_mem_confirmed hx

/-- A selection comes after every option was confirmed. -/
theorem Asks.confirmed_of_select_mem
    (h : Asks options answered cmd) {netid : Int}
    (hmem : Command.select netid ∈ answered.map Prod.fst ++ [cmd]) :
    ∃ r, answered = confirmed r netid options := by
  cases h with
  | removeAll =>
      simp at hmem
  | add r =>
      simp at hmem
  | set r netid' done key value rest hoptions =>
      simp [map_fst_confirmed] at hmem
  | select r netid' =>
      obtain rfl : netid = netid' := by
        simpa [map_fst_confirmed] using hmem
      exact ⟨r, rfl⟩

end Plan

section Removal

variable {U : GraphemeTable}

/-- The caller goes on the same from the same place, whatever it was answered before. -/
theorem run_of_same_caller
    {s₀ s : Call} {hist : List Outcome}
    (hrun : Run (step U) (fun _ _ => True) s₀ hist s)
    (t₀ : Call) (hcaller : t₀.caller = s₀.caller)
    (hasked : t₀.answered.map Prod.fst = s₀.answered.map Prod.fst) :
    ∃ t, Run (step U) (fun _ _ => True) t₀ hist t ∧ t.caller = s.caller ∧
      t.answered.map Prod.fst = s.answered.map Prod.fst := by
  induction hrun with
  | start =>
      exact ⟨t₀, .start, hcaller, hasked⟩
  | @snoc hist s s' outcome prev _ hstep ih =>
      obtain ⟨t, htrun, htcaller, htasked⟩ := ih
      have hstep' : ∃ t', step U t outcome = some t' ∧ t'.caller = s'.caller ∧
          t'.answered.map Prod.fst = s'.answered.map Prod.fst := by
        unfold step at hstep ⊢
        rw [htcaller]
        cases hcmd : outstanding s.caller with
        | none =>
            simp [hcmd] at hstep
        | some cmd =>
            rw [hcmd] at hstep
            cases hstep
            exact ⟨_, rfl, rfl, by simp [htasked]⟩
      obtain ⟨t', htstep, ht'⟩ := hstep'
      exact ⟨t', .snoc htrun trivial htstep, ht'⟩

/-- The reply to `REMOVE_NETWORK` decodes, whatever it is. -/
theorem returns_request_removeAll (text : Binary) :
    ∃ r, request U Command.removeAll.term text = .ok r := by
  have hreturns : Returns (Decode.resp Command.removeAll.term text) := by
    rw [Decode.resp_returns_iff]
    exact trivial
  exact hreturns

/-- The reply to `REMOVE_NETWORK` changes neither what the call does nor how it ends. -/
theorem run_of_other_removal
    {options : Options} {text : Binary} {hist : List Outcome} {s : Call}
    (hrun : Run (step U) (fun _ _ => True) (start options) (.reply text :: hist) s)
    (text' : Binary) :
    ∃ t, Run (step U) (fun _ _ => True) (start options) (.reply text' :: hist) t ∧
      t.caller = s.caller ∧ t.answered.map Prod.fst = s.answered.map Prod.fst := by
  have hfirst (text : Binary) : ∃ m, step U (start options) (.reply text) = some m ∧
      m.caller = .adding options ∧ m.answered.map Prod.fst = [.removeAll] := by
    obtain ⟨r, hr⟩ := returns_request_removeAll (U := U) text
    refine ⟨_, rfl, ?_, rfl⟩
    simp only [start, value, hr]
    rfl
  rw [← List.singleton_append] at hrun
  obtain ⟨m, hm, hrest⟩ := hrun.split
  obtain ⟨_, hstep, hcaller, hasked⟩ := hfirst text
  obtain rfl := Option.some.inj (hstep.symm.trans hm.single.2)
  obtain ⟨m', hstep', hcaller', hasked'⟩ := hfirst text'
  obtain ⟨t, htrun, ht⟩ := run_of_same_caller hrest m' (by rw [hcaller, hcaller'])
    (by rw [hasked, hasked'])
  exact ⟨t, .cons trivial hstep' htrun, ht⟩

end Removal

/-- The last request of a call, and the answers that made it ask that. -/
theorem Progress.exists_asks {options : Options} {s : Call} (hs : Progress options s) :
    ∃ front cmd, Asks options front cmd ∧ s.issued = front.map Prod.fst ++ [cmd] ∧
      front <+: s.answered := by
  rcases hs.cases with ⟨cmd, hcmd, hasks⟩ | ⟨hcaller, r, netid, hanswered⟩ |
    ⟨hcaller, front, cmd, result, hanswered, hasks, _⟩
  · exact ⟨s.answered, cmd, hasks, by simp [issued, hcmd], List.prefix_refl _⟩
  · refine ⟨_, .select netid, .select r netid, ?_, ?_⟩
    · simp [issued, hcaller, hanswered, outstanding]
    · rw [hanswered]
      exact List.prefix_append _ _
  · refine ⟨front, cmd, hasks, ?_, ?_⟩
    · simp [issued, hcaller, hanswered, outstanding]
    · rw [hanswered]
      exact List.prefix_append _ _

theorem Progress.returned_iff {options : Options} {s : Call} (hs : Progress options s) :
    s.caller = .returned ↔ ∃ r netid,
      s.answered = confirmed r netid options ++ [(.select netid, some (.atom .ok))] := by
  constructor
  · intro h
    rcases hs.cases with ⟨cmd, hcmd, _⟩ | ⟨_, hanswered⟩ | ⟨hcaller, _⟩
    · simp [h, outstanding] at hcmd
    · exact hanswered
    · simp [h] at hcaller
  · rintro ⟨r, netid, hanswered⟩
    rcases hs.cases with ⟨cmd, _, hasks⟩ | ⟨hcaller, _⟩ |
      ⟨_, front, cmd, result, hanswered', _, hresult⟩
    · -- the call cannot ask anything behind a confirmed selection
      have hmem : Command.select netid ∈ s.answered.map Prod.fst ++ [cmd] := by
        simp [hanswered]
      obtain ⟨r', hconfirmed⟩ := hasks.confirmed_of_select_mem hmem
      have hlen := congrArg List.length (hanswered.symm.trans hconfirmed)
      simp [confirmed] at hlen
    · exact hcaller
    · obtain ⟨_, hlast⟩ := List.append_inj' (hanswered'.symm.trans hanswered) rfl
      cases hlast
      exact absurd rfl hresult

theorem Progress.crashed_iff {options : Options} {s : Call} (hs : Progress options s) :
    s.caller = .crashed ↔ ∃ x ∈ s.answered, ¬ Accepts x.1 x.2 := by
  constructor
  · intro h
    rcases hs.cases with ⟨cmd, hcmd, _⟩ | ⟨hcaller, _⟩ |
      ⟨_, front, cmd, result, hanswered, _, hresult⟩
    · simp [h, outstanding] at hcmd
    · simp [h] at hcaller
    · exact ⟨(cmd, result), by simp [hanswered], hresult⟩
  · rintro ⟨x, hx, hresult⟩
    rcases hs.cases with ⟨_, _, hasks⟩ | ⟨_, r, netid, hanswered⟩ | ⟨hcaller, _⟩
    · exact absurd (hasks.accepts x hx) hresult
    · rw [hanswered] at hx
      rcases List.mem_append.mp hx with hx | hx
      · exact absurd (accepts_of_mem_confirmed hx) hresult
      · obtain rfl := List.mem_singleton.mp hx
        exact absurd rfl hresult
    · exact hcaller

/-- The values that a call sees are those of its requests. -/
theorem run_values
    {U : GraphemeTable} {options : Options} {hist : List Outcome} {s : Call}
    (hrun : Run (step U) (fun _ _ => True) (start options) hist s) :
    s.answered.length = hist.length ∧
      s.answered.map Prod.snd = List.zipWith (value U) (s.answered.map Prod.fst) hist := by
  refine hrun.invariant (I := fun hist s => s.answered.length = hist.length ∧
    s.answered.map Prod.snd = List.zipWith (value U) (s.answered.map Prod.fst) hist)
    ⟨rfl, rfl⟩ ?_
  rintro hist s outcome s' ⟨hlen, hvalues⟩ _ hstep
  unfold step at hstep
  cases hcmd : outstanding s.caller with
  | none =>
      simp [hcmd] at hstep
  | some cmd =>
      rw [hcmd] at hstep
      cases hstep
      refine ⟨by simp [hlen], ?_⟩
      rw [List.map_append, List.map_append, List.zipWith_append (by simpa using hlen), hvalues]
      rfl

/-- What a call with these options has done after these outcomes of its requests. -/
structure FollowsPlan
    (U : GraphemeTable) (options : Options) (hist : List Outcome) (s : Call) : Prop where
  /-- What it sees of each request is the value of the reply to it. -/
  values : s.answered.length = hist.length ∧
    s.answered.map Prod.snd = List.zipWith (value U) (s.answered.map Prod.fst) hist
  /-- It sends the requests of the plan in order, for the id it was given. -/
  issued : ∃ netid, s.issued <+: plan options netid ∧
    (2 < s.issued.length → s.answered[1]? = some (.add, some (.int netid)))
  /-- It selects a network only with an id and with every option confirmed. -/
  selects : ∀ netid, .select netid ∈ s.issued → ∃ r, confirmed r netid options <+: s.answered
  /-- It returns exactly when the selection is confirmed as well. -/
  returned : s.caller = .returned ↔ ∃ r netid,
    s.answered = confirmed r netid options ++ [(.select netid, some (.atom .ok))]
  /-- It crashes exactly when it was answered anything else. -/
  crashed : s.caller = .crashed ↔ ∃ x ∈ s.answered, ¬ Accepts x.1 x.2
  /-- Once it has no request waiting it has returned or crashed, and does nothing more. -/
  ended : outstanding s.caller = none →
    (s.caller = .returned ∨ s.caller = .crashed) ∧ ∀ outcome, step U s outcome = none
  /-- Another reply to `REMOVE_NETWORK` would have changed nothing. -/
  removal : ∀ text text' rest, hist = .reply text :: rest →
    ∃ t, Run (step U) (fun _ _ => True) (start options) (.reply text' :: rest) t ∧
      t.caller = s.caller ∧ t.issued = s.issued

/-- What a call sends, when it selects and when it returns. -/
theorem run_followsPlan
    {U : GraphemeTable} {options : Options} {hist : List Outcome} {s : Call}
    (hrun : Run (step U) (fun _ _ => True) (start options) hist s) :
    FollowsPlan U options hist s where
  values := run_values hrun
  issued := by
    obtain ⟨front, cmd, hasks, hissued, rest, hanswered⟩ := (run_progress hrun).exists_asks
    obtain ⟨netid, hplan, hid⟩ := hasks.isPrefix_plan
    rw [hissued]
    refine ⟨netid, hplan, fun hlen => ?_⟩
    have hfront := hid hlen
    obtain ⟨hlt, _⟩ := List.getElem?_eq_some_iff.mp hfront
    rw [← hanswered, List.getElem?_append_left hlt, hfront]
  selects := by
    intro netid hmem
    obtain ⟨front, cmd, hasks, hissued, hfront⟩ := (run_progress hrun).exists_asks
    rw [hissued] at hmem
    obtain ⟨r, rfl⟩ := hasks.confirmed_of_select_mem hmem
    exact ⟨r, hfront⟩
  returned := (run_progress hrun).returned_iff
  crashed := (run_progress hrun).crashed_iff
  ended := by
    intro h
    refine ⟨?_, fun outcome => by simp [step, h]⟩
    obtain ⟨caller, answered⟩ := s
    cases caller <;> simp [outstanding] at h ⊢
  removal := by
    rintro text text' rest rfl
    obtain ⟨t, htrun, hcaller, hasked⟩ := run_of_other_removal hrun text'
    exact ⟨t, htrun, hcaller, by rw [issued, issued, hcaller, hasked]⟩

section Replies

variable {U : GraphemeTable}

/-- A setting or a selection is confirmed by the text `OK`. -/
theorem value_eq_ok_iff
    {cmd : Command} (hadd : cmd ≠ .add) (text : Binary) :
    value U cmd (.reply text) = some (.atom .ok) ↔
      Returns (Encode.encode U cmd.term) ∧ ElixirString.strip text = lit "OK" := by
  have hresp : Decode.resp cmd.term text = .ok (.atom .ok) ↔
      ElixirString.strip text = lit "OK" := by
    cases cmd with
    | add =>
        exact absurd rfl hadd
    | removeAll | set | select =>
        exact Decode.tresp_eq_ok_iff rfl rfl rfl rfl rfl _
  cases hencode : Encode.encode U cmd.term with
  | error e =>
      simp [value, request, hencode, bind, Except.bind, Except.toOption]
  | ok payload =>
      have hrequest : request U cmd.term text = Decode.resp cmd.term text := by
        rw [request, hencode]
        rfl
      rw [value, hrequest, ← hresp]
      cases Decode.resp cmd.term text with
      | error e =>
          simp [Except.toOption]
      | ok r =>
          simp [Except.toOption]

/-- The id of a call is the number in the reply to `ADD_NETWORK`. -/
theorem value_add_eq_int_iff (text : Binary) (netid : Int) :
    value U .add (.reply text) = some (.int netid) ↔
      ElixirString.toInteger (ElixirString.strip text) 10 = .ok netid := by
  have hrequest : request U Command.add.term text =
      Reply.int <$> ElixirString.toInteger (ElixirString.strip text) 10 := by
    rfl
  rw [value, hrequest]
  cases ElixirString.toInteger (ElixirString.strip text) 10 with
  | error e =>
      simp [Except.toOption]
  | ok n =>
      simp [Except.toOption]

end Replies

set_option maxRecDepth 4000 in
/-- A call with one option that returns. -/
theorem run_followsPlan_returned :
    ∃ s, FollowsPlan .latin [(.atom (.lit "proto"), .binary (lit "RSN"))]
      [.reply (lit "OK\n"), .reply (lit "0\n"), .reply (lit "OK\n"), .reply (lit "OK\n")] s ∧
      s.caller = .returned := by
  obtain ⟨s, hs, hreturned⟩ : ∃ s : Call,
      StepSystem.run? (step .latin) (fun _ _ => True)
        (start [(.atom (.lit "proto"), .binary (lit "RSN"))])
        [.reply (lit "OK\n"), .reply (lit "0\n"), .reply (lit "OK\n"),
          .reply (lit "OK\n")] = some s ∧
      s.caller = .returned :=
    ⟨_, rfl, rfl⟩
  exact ⟨s, run_followsPlan (StepSystem.run_of_run? hs), hreturned⟩

end Call
end SetNetwork
end WpaSupplicant
