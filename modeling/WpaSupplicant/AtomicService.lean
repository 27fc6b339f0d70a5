import WpaSupplicant.TraceRefinement

/-!
# A service whose requests take effect at once

The specification of a request server.  The object behind it handles one request
at a time, in the order of their arrival; a request is invoked, takes effect at one
moment, and is answered later.  What the clients see are invocations and responses.

* `step_explained`, `run_explained`: in every run the responses are those of the
  object when it handles the requests one after the other, in the order in which
  they were invoked.
-/

namespace WpaSupplicant

open StepSystem

universe u v w x

/-- The object, the requests that wait for it, and the results not yet returned. -/
structure AtomicService (κ : Type u) (α : Type v) (β : Type w) (σ : Type x) where
  object : σ
  waiting : List (κ × α)
  performed : List (κ × β)

namespace AtomicService

variable {κ : Type u} {α : Type v} {β : Type w} {σ : Type x}

/-- What happens next. -/
inductive Move (κ : Type u) (α : Type v)
  | invoke (client : κ) (request : α)
  | perform
  | respond

/-- What clients see. -/
inductive Event (κ : Type u) (α : Type v) (β : Type w)
  | invoked (client : κ) (request : α)
  | responded (client : κ) (result : β)

/-- The event of a request. -/
def Event.call (r : κ × α) : Event κ α β :=
  .invoked r.1 r.2

/-- The event of a result. -/
def Event.return (r : κ × β) : Event κ α β :=
  .responded r.1 r.2

/-- A service that nobody has called. -/
def start (o : σ) : AtomicService κ α β σ :=
  ⟨o, [], []⟩

/-- `exec` is what the object does on a request; `none` when it has no answer. -/
def step (exec : σ → α → Option (σ × β)) (s : AtomicService κ α β σ) :
    Move κ α → Option (AtomicService κ α β σ)
  | .invoke client request =>
      some { s with waiting := s.waiting ++ [(client, request)] }
  | .perform =>
      match s.waiting with
      | [] => none
      | (client, request) :: rest =>
          (exec s.object request).map fun (o, result) =>
            ⟨o, rest, s.performed ++ [(client, result)]⟩
  | .respond =>
      match s.performed with
      | [] => none
      | _ :: rest => some { s with performed := rest }

/-- What a step shows. -/
def observe (s : AtomicService κ α β σ) (m : Move κ α) (_ : AtomicService κ α β σ) :
    List (Event κ α β) :=
  match m with
  | .invoke client request => [.invoked client request]
  | .perform => []
  | .respond => s.performed.head?.toList.map .return

/-- The requests of a history, oldest first. -/
def invocations (events : List (Event κ α β)) : List (κ × α) :=
  events.filterMap fun
    | .invoked client request => some (client, request)
    | .responded _ _ => none

/-- The responses of a history, oldest first. -/
def responses (events : List (Event κ α β)) : List (κ × β) :=
  events.filterMap fun
    | .invoked _ _ => none
    | .responded client result => some (client, result)

/-- The object handles the requests one after the other, with these results. -/
inductive Handles (exec : σ → α → Option (σ × β)) :
    σ → List (κ × α) → List (κ × β) → σ → Prop
  | nil (o : σ) :
      Handles exec o [] [] o
  | concat
      {o o₁ o₂ : σ} {requests : List (κ × α)} {results : List (κ × β)}
      {request : α} {result : β}
      (client : κ)
      (prev : Handles exec o requests results o₁)
      (hexec : exec o₁ request = some (o₂, result)) :
      Handles exec o (requests ++ [(client, request)]) (results ++ [(client, result)]) o₂

/--
The requests invoked are those handled and those that wait; the results are those
returned and those that are not.
-/
def Explained (exec : σ → α → Option (σ × β)) (o : σ) (events : List (Event κ α β))
    (s : AtomicService κ α β σ) : Prop :=
  ∃ handled,
    invocations events = handled ++ s.waiting ∧
    Handles exec o handled (responses events ++ s.performed) s.object

section Events

variable (xs ys : List (Event κ α β))

@[simp] theorem invocations_append :
    invocations (xs ++ ys) = invocations xs ++ invocations ys :=
  List.filterMap_append

@[simp] theorem responses_append :
    responses (xs ++ ys) = responses xs ++ responses ys :=
  List.filterMap_append

@[simp] theorem invocations_map_call (rs : List (κ × α)) :
    invocations (rs.map Event.call : List (Event κ α β)) = rs := by
  simp [invocations, Event.call, List.filterMap_map, Function.comp_def]

@[simp] theorem responses_map_call (rs : List (κ × α)) :
    responses (rs.map Event.call : List (Event κ α β)) = [] := by
  simp [responses, Event.call, List.filterMap_map, Function.comp_def]

@[simp] theorem invocations_map_return (rs : List (κ × β)) :
    invocations (rs.map Event.return : List (Event κ α β)) = [] := by
  simp [invocations, Event.return, List.filterMap_map, Function.comp_def]

@[simp] theorem responses_map_return (rs : List (κ × β)) :
    responses (rs.map Event.return : List (Event κ α β)) = rs := by
  simp [responses, Event.return, List.filterMap_map, Function.comp_def]

end Events

variable {exec : σ → α → Option (σ × β)} {o : σ}

section Moves

variable {s : AtomicService κ α β σ}

theorem step_perform
    {client : κ} {request : α} {rest : List (κ × α)} {o' : σ} {result : β}
    (hwaiting : s.waiting = (client, request) :: rest)
    (hexec : exec s.object request = some (o', result)) :
    step exec s .perform = some ⟨o', rest, s.performed ++ [(client, result)]⟩ := by
  simp only [step, hwaiting, hexec, Option.map_some]

theorem step_respond
    {r : κ × β} {rest : List (κ × β)} (hperformed : s.performed = r :: rest) :
    step exec s .respond = some { s with performed := rest } := by
  simp only [step, hperformed]

end Moves

theorem step_explained
    {events : List (Event κ α β)} {s s' : AtomicService κ α β σ} {m : Move κ α}
    (h : Explained exec o events s) (hstep : step exec s m = some s') :
    Explained exec o (events ++ observe s m s') s' := by
  obtain ⟨handled, hinvoked, hhandles⟩ := h
  cases m with
  | invoke client request =>
      cases hstep
      refine ⟨handled, ?_, ?_⟩
      · rw [invocations_append, hinvoked]
        simp [observe, invocations]
      · simpa [observe, responses] using hhandles
  | perform =>
      simp only [step] at hstep
      split at hstep
      · cases hstep
      · next client request rest hwaiting =>
          obtain ⟨⟨o', result⟩, hexec, rfl⟩ := Option.map_eq_some_iff.mp hstep
          refine ⟨handled ++ [(client, request)], ?_, ?_⟩
          · simp [observe, hinvoked, hwaiting]
          · rw [observe, List.append_nil, ← List.append_assoc]
            exact .concat client hhandles hexec
  | respond =>
      simp only [step] at hstep
      split at hstep
      · cases hstep
      · next r rest hperformed =>
          cases hstep
          refine ⟨handled, ?_, ?_⟩
          · simp [observe, hinvoked]
          · rw [observe, hperformed, responses_append, responses_map_return]
            simpa [hperformed] using hhandles

/-- Every history is explained by one sequence of requests and their results. -/
theorem run_explained
    {A : AtomicService κ α β σ → Move κ α → Prop} {hist : List (Move κ α)}
    {s : AtomicService κ α β σ}
    (hrun : Run (step exec) A (start o) hist s) :
    Explained exec o (trace (step exec) observe (start o) hist) s := by
  induction hrun with
  | start =>
      exact ⟨[], rfl, .nil o⟩
  | snoc prev allowed hstep ih =>
      rw [prev.trace_concat hstep]
      exact step_explained ih hstep

end AtomicService
end WpaSupplicant
