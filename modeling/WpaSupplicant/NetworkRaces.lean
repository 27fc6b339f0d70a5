import WpaSupplicant.NetworkConfiguration
import WpaSupplicant.StepSystem
import Mathlib.Logic.Function.Basic

/-!
# Concurrent calls of set_network

Several processes run `set_network` against one server and one supplicant; each
request is answered before the next one is taken, and any process may be next.
Nothing ties the requests of a call together, and an id is given again after a
removal.

* `Mine`: what the table says about the network of a call;
* `selected_eq_options`: as long as no request reaches a network that another
  call added under the same id, a call that returns has selected its own options;
* `selected_mixed`: two calls that were given the same id.
-/

namespace WpaSupplicant
namespace SetNetwork

open StepSystem (Run)

/-- An entry of the supplicant's table, with the call that added it. -/
structure Network (ι : Type) where
  id : Nat
  owner : Option ι
  options : Options

/-- One more than the largest id in the table. -/
def nextId {ι : Type} (table : List (Network ι)) : Nat :=
  table.foldr (fun net n => max (net.id + 1) n) 0

/-- A network with this id is in the table. -/
def HasId {ι : Type} (table : List (Network ι)) (netid : Int) : Prop :=
  ∃ net ∈ table, (net.id : Int) = netid

instance {ι : Type} (table : List (Network ι)) (netid : Int) :
    Decidable (HasId table netid) :=
  inferInstanceAs (Decidable (∃ net ∈ table, (net.id : Int) = netid))

/-- One option more for the networks with this id. -/
def store {ι : Type} (netid : Int) (key value : Term) (table : List (Network ι)) :
    List (Network ι) :=
  table.map fun net =>
    if (net.id : Int) = netid then { net with options := net.options ++ [(key, value)] }
    else net

/-- The supplicant's table and reply after a request. -/
def supplicant {ι : Type} (c : ι) (table : List (Network ι)) :
    Command → List (Network ι) × Binary
  | .removeAll => ([], lit "OK\n")
  | .add =>
      (table ++ [⟨nextId table, some c, []⟩], decimal (nextId table) ++ lit "\n")
  | .set netid key value =>
      if HasId table netid then (store netid key value table, lit "OK\n")
      else (table, lit "FAIL\n")
  | .select netid =>
      (table, if HasId table netid then lit "OK\n" else lit "FAIL\n")

/-- The options of the network that `SELECT_NETWORK` selects. -/
def optionsOf {ι : Type} (table : List (Network ι)) (netid : Int) : Option Options :=
  (table.find? fun net => decide ((net.id : Int) = netid)).map Network.options

/-- The callers, the supplicant's table, and what each caller had selected. -/
structure Race (ι : Type) where
  table : List (Network ι)
  caller : ι → State
  selected : ι → Option Options

namespace Race

variable {ι : Type}

/-- The callers of a server that has terminated. -/
def terminated (s : Race ι) (e : Raise) : Race ι :=
  { s with caller := fun d => SetNetwork.step (s.caller d) (.error e) }

/-- The next request of one caller, from `encode` to the decoded reply. -/
def step [DecidableEq ι] (U : GraphemeTable) (s : Race ι) (c : ι) : Option (Race ι) :=
  match outstanding (s.caller c) with
  | none => none
  | some cmd =>
      match Encode.encode U cmd.term with
      | .error e => some (s.terminated e)
      | .ok _ =>
          match Decode.resp cmd.term (supplicant c s.table cmd).2 with
          | .error e => some (s.terminated e)
          | .ok r =>
              some {
                table := (supplicant c s.table cmd).1
                caller := Function.update s.caller c (SetNetwork.step (s.caller c) (.ok r))
                selected :=
                  match cmd with
                  | .select netid =>
                      Function.update s.selected c (optionsOf s.table netid)
                  | _ => s.selected }

/-- Any table that no call has added to, and each call before its first request. -/
def start (nets : List (Nat × Options)) (options : ι → Options) : Race ι where
  table := nets.map fun net => ⟨net.1, none, net.2⟩
  caller c := .removing (options c)
  selected _ := none

/-- The id that a caller uses in its next request. -/
def usedId : State → Option Int
  | .setting netid _ _ _ | .selecting netid => some netid
  | _ => none

/-- The caller's request reaches no network that another call has added. -/
def OwnNetwork (s : Race ι) (c : ι) : Prop :=
  ∀ netid ∈ usedId (s.caller c), ∀ net ∈ s.table, (net.id : Int) = netid →
    net.owner = some c

instance [DecidableEq ι] (s : Race ι) (c : ι) : Decidable (OwnNetwork s c) :=
  inferInstanceAs (Decidable (∀ netid ∈ usedId (s.caller c), ∀ net ∈ s.table,
    (net.id : Int) = netid → net.owner = some c))

/-- What the table says about the network of a call. -/
def Mine (options : Options) (s : Race ι) (c : ι) : Prop :=
  match s.caller c with
  | .removing rest | .adding rest =>
      rest = options ∧ ∀ net ∈ s.table, net.owner ≠ some c
  | .setting netid key value rest =>
      ∀ net ∈ s.table, net.owner = some c →
        (net.id : Int) = netid ∧ net.options ++ (key, value) :: rest = options
  | .selecting netid =>
      ∀ net ∈ s.table, net.owner = some c →
        (net.id : Int) = netid ∧ net.options = options
  | .returned => s.selected c = some options
  | .crashed => True

section Table

variable {s s' : Race ι} {c : ι}

/-- Another call's networks come through a request unchanged, or not at all. -/
theorem mem_table_of_mem_supplicant
    {cmd : Command} (hcmd : outstanding (s.caller c) = some cmd)
    (hown : OwnNetwork s c) {d : ι} (hd : d ≠ c)
    {net : Network ι} (hnet : net ∈ (supplicant c s.table cmd).1)
    (howner : net.owner = some d) :
    net ∈ s.table := by
  cases cmd with
  | removeAll =>
      simp [supplicant] at hnet
  | add =>
      rcases List.mem_append.mp hnet with h | h
      · exact h
      · obtain rfl := List.mem_singleton.mp h
        exact absurd (Option.some.inj howner).symm hd
  | set netid key value =>
      have hid : netid ∈ usedId (s.caller c) := by
        cases hc : s.caller c <;> simp_all [outstanding, usedId]
      simp only [supplicant] at hnet
      split at hnet
      · obtain ⟨old, hold, rfl⟩ := List.mem_map.mp hnet
        by_cases hmatch : (old.id : Int) = netid
        · have := hown netid hid old hold hmatch
          simp only [hmatch, if_true, this, Option.some.injEq] at howner
          exact absurd howner.symm hd
        · simpa [hmatch] using hold
      · exact hnet
  | select netid =>
      exact hnet

/-- What holds of a call survives a table with fewer networks of its own. -/
theorem Mine.mono
    {options : Options} {d : ι} (h : Mine options s d)
    (hcaller : s'.caller d = s.caller d) (hselected : s'.selected d = s.selected d)
    (htable : ∀ net ∈ s'.table, net.owner = some d → net ∈ s.table) :
    Mine options s' d := by
  unfold Mine at h ⊢
  rw [hcaller, hselected]
  split at h
  · exact ⟨h.1, fun net hnet howner => h.2 net (htable net hnet howner) howner⟩
  · exact ⟨h.1, fun net hnet howner => h.2 net (htable net hnet howner) howner⟩
  · exact fun net hnet howner => h net (htable net hnet howner) howner
  · exact fun net hnet howner => h net (htable net hnet howner) howner
  · exact h
  · exact h

/-- A call between two options, or between the last one and its end. -/
theorem mine_each
    {options rest : Options} {netid : Int}
    (hcaller : s'.caller c = each netid rest)
    (htable : ∀ net ∈ s'.table, net.owner = some c →
      (net.id : Int) = netid ∧ net.options ++ rest = options) :
    Mine options s' c := by
  unfold Mine
  rw [hcaller]
  cases rest with
  | nil =>
      simpa [each] using htable
  | cons option rest =>
      exact htable

theorem mine_of_crashed
    {options : Options} (hcaller : s'.caller c = .crashed) :
    Mine options s' c := by
  unfold Mine
  rw [hcaller]
  trivial

/-- The network that a call adds is its only one, and has no options. -/
theorem mine_added
    {options : Options} (hnone : ∀ net ∈ s.table, net.owner ≠ some c)
    (hcaller : s'.caller c = each (nextId s.table) options)
    (htable : s'.table = s.table ++ [⟨nextId s.table, some c, []⟩]) :
    Mine options s' c := by
  refine mine_each hcaller ?_
  intro net hnet howner
  rw [htable] at hnet
  rcases List.mem_append.mp hnet with hold | hnew
  · exact absurd howner (hnone net hold)
  · obtain rfl := List.mem_singleton.mp hnew
    exact ⟨rfl, rfl⟩

/-- An option that is stored comes behind those stored before. -/
theorem mine_stored
    {options rest : Options} {netid : Int} {key value : Term}
    (hmine : ∀ net ∈ s.table, net.owner = some c →
      (net.id : Int) = netid ∧ net.options ++ (key, value) :: rest = options)
    (hcaller : s'.caller c = each netid rest)
    (htable : s'.table = store netid key value s.table) :
    Mine options s' c := by
  refine mine_each hcaller ?_
  intro net hnet howner
  rw [htable] at hnet
  obtain ⟨old, hold, rfl⟩ := List.mem_map.mp hnet
  have howner' : old.owner = some c := by
    split at howner <;> exact howner
  obtain ⟨hmatch, hoptions⟩ := hmine old hold howner'
  simp only [hmatch, if_true]
  exact ⟨trivial, by rw [List.append_assoc]; exact hoptions⟩

/-- The network found under an id is one of those with that id. -/
theorem optionsOf_of_hasId
    {table : List (Network ι)} {netid : Int} (h : HasId table netid) :
    ∃ net ∈ table, (net.id : Int) = netid ∧ optionsOf table netid = some net.options := by
  obtain ⟨net, hnet, hid⟩ := h
  cases hfind : table.find? fun net => decide ((net.id : Int) = netid) with
  | none =>
      rw [List.find?_eq_none] at hfind
      exact absurd (decide_eq_true hid) (hfind net hnet)
  | some found =>
      refine ⟨found, List.mem_of_find?_eq_some hfind, ?_, by rw [optionsOf, hfind]; rfl⟩
      simpa using List.find?_some hfind

/-- The network that a call selects has the options stored by then. -/
theorem mine_selected
    {options : Options} {netid : Int} (hid : HasId s.table netid)
    (hown : ∀ net ∈ s.table, (net.id : Int) = netid → net.owner = some c)
    (hmine : ∀ net ∈ s.table, net.owner = some c →
      (net.id : Int) = netid ∧ net.options = options)
    (hcaller : s'.caller c = .returned)
    (hselected : s'.selected c = optionsOf s.table netid) :
    Mine options s' c := by
  obtain ⟨net, hnet, hmatch, hfound⟩ := optionsOf_of_hasId hid
  unfold Mine
  simp only [hcaller, hselected, hfound, (hmine net hnet (hown net hnet hmatch)).2]

/-- A server that has terminated leaves only calls that have ended. -/
theorem terminated_mine
    {options : Options} (e : Raise) (h : Mine options s c) :
    Mine options (s.terminated e) c := by
  cases hc : s.caller c with
  | returned =>
      have hcaller : (s.terminated e).caller c = s.caller c := by
        simp only [terminated, hc]
        rfl
      exact h.mono hcaller rfl fun net hnet _ => hnet
  | removing | adding | setting | selecting | crashed =>
      apply mine_of_crashed
      simp only [terminated, hc]
      rfl

end Table

section Step

variable [DecidableEq ι] {U : GraphemeTable} {s s' : Race ι} {c : ι}

/-- A request is answered, or it ends the server and every call in progress. -/
theorem step_cases (h : step U s c = some s') :
    (∃ e, s' = s.terminated e) ∨
      ∃ cmd r, outstanding (s.caller c) = some cmd ∧
        Decode.resp cmd.term (supplicant c s.table cmd).2 = .ok r ∧
        s'.table = (supplicant c s.table cmd).1 ∧
        s'.caller = Function.update s.caller c (SetNetwork.step (s.caller c) (.ok r)) ∧
        s'.selected =
          match cmd with
          | .select netid => Function.update s.selected c (optionsOf s.table netid)
          | _ => s.selected := by
  unfold step at h
  split at h
  · cases h
  · next cmd hcmd =>
      split at h
      · next e _ =>
          exact .inl ⟨e, (Option.some.inj h).symm⟩
      · split at h
        · next e _ =>
            exact .inl ⟨e, (Option.some.inj h).symm⟩
        · next r hr =>
            cases h
            exact .inr ⟨cmd, r, hcmd, hr, rfl, rfl, rfl⟩

/-- A call's own request keeps what the table says about its network. -/
theorem step_mine_self
    {options : Options} (h : step U s c = some s') (hown : OwnNetwork s c)
    (hmine : Mine options s c) :
    Mine options s' c := by
  rcases step_cases h with ⟨e, rfl⟩ | ⟨cmd, r, hcmd, hr, htable, hcaller, hselected⟩
  · exact terminated_mine e hmine
  replace hcaller : s'.caller c = SetNetwork.step (s.caller c) (.ok r) := by
    rw [hcaller, Function.update_self]
  unfold Mine at hmine
  cases hc : s.caller c with
  | removing rest =>
      obtain rfl : .removeAll = cmd := by simpa [hc, outstanding] using hcmd
      simp only [hc] at hmine
      simp only [hc, SetNetwork.step] at hcaller
      unfold Mine
      rw [hcaller, htable]
      exact ⟨hmine.1, by simp [supplicant]⟩
  | adding rest =>
      obtain rfl : .add = cmd := by simpa [hc, outstanding] using hcmd
      simp only [hc] at hmine
      simp only [supplicant] at hr
      rw [resp_addNetwork, Except.ok.injEq] at hr
      subst hr
      simp only [hc, SetNetwork.step, hmine.1] at hcaller
      exact mine_added hmine.2 hcaller htable
  | setting netid key value rest =>
      obtain rfl : .set netid key value = cmd := by simpa [hc, outstanding] using hcmd
      simp only [hc] at hmine
      simp only [hc, SetNetwork.step] at hcaller
      by_cases hid : HasId s.table netid
      · simp only [supplicant, hid, if_true] at hr htable
        rw [resp_ok (by simp), Except.ok.injEq] at hr
        rw [if_pos hr.symm] at hcaller
        exact mine_stored hmine hcaller htable
      · simp only [supplicant, hid, if_false] at hr
        rw [resp_fail (by simp), Except.ok.injEq] at hr
        subst hr
        exact mine_of_crashed hcaller
  | selecting netid =>
      obtain rfl : .select netid = cmd := by simpa [hc, outstanding] using hcmd
      simp only [hc] at hmine
      simp only [hc, SetNetwork.step] at hcaller
      by_cases hid : HasId s.table netid
      · simp only [supplicant, hid, if_true] at hr
        rw [resp_ok (by simp), Except.ok.injEq] at hr
        rw [if_pos hr.symm] at hcaller
        refine mine_selected hid (hown netid (by simp [hc, usedId])) hmine hcaller ?_
        simp only [hselected, Function.update_self]
      · simp only [supplicant, hid, if_false] at hr
        rw [resp_fail (by simp), Except.ok.injEq] at hr
        subst hr
        exact mine_of_crashed hcaller
  | returned | crashed =>
      simp [hc, outstanding] at hcmd

/-- Another call's request keeps what the table says about a call's network. -/
theorem step_mine_other
    {options : Options} {d : ι} (hd : d ≠ c) (h : step U s c = some s')
    (hown : OwnNetwork s c) (hmine : Mine options s d) :
    Mine options s' d := by
  rcases step_cases h with ⟨e, rfl⟩ | ⟨cmd, r, hcmd, hr, htable, hcaller, hselected⟩
  · exact terminated_mine e hmine
  refine hmine.mono ?_ ?_ ?_
  · rw [hcaller, Function.update_of_ne hd]
  · rw [hselected]
    cases cmd <;> simp [Function.update_of_ne hd]
  · intro net hnet howner
    rw [htable] at hnet
    exact mem_table_of_mem_supplicant hcmd hown hd hnet howner

/-- Requests that reach only their own call's network keep every call's invariant. -/
theorem run_mine
    {nets : List (Nat × Options)} {options : ι → Options} {schedule : List ι}
    (hrun : Run (step U) OwnNetwork (start nets options) schedule s) :
    ∀ d, Mine (options d) s d := by
  refine hrun.invariant (I := fun _ s => ∀ d, Mine (options d) s d) ?_ ?_
  · intro d
    refine ⟨rfl, fun net hnet => ?_⟩
    obtain ⟨n, _, rfl⟩ := List.mem_map.mp hnet
    simp
  · intro hist s c s' ih hown hstep d
    by_cases hd : d = c
    · subst hd
      exact step_mine_self hstep hown (ih d)
    · exact step_mine_other hd hstep hown (ih d)

end Step

/--
In every interleaving in which no request reaches a network that another call
added under the same id, a call that returns `:ok` had exactly its own options
in the network it selected.
-/
theorem selected_eq_options
    [DecidableEq ι] (U : GraphemeTable) (nets : List (Nat × Options))
    (options : ι → Options) {schedule : List ι} {s : Race ι}
    (hrun : Run (step U) OwnNetwork (start nets options) schedule s)
    (c : ι) (hreturned : s.caller c = .returned) :
    s.selected c = some (options c) := by
  have h := run_mine hrun c
  unfold Mine at h
  rwa [hreturned] at h

/-- Two calls, one for an open network and one with a passphrase. -/
def twoCalls : Bool → Options
  | false => [(.atom (.lit "key_mgmt"), .atom (.lit "NONE"))]
  | true => [(.atom (.lit "psk"), .binary (lit "secret"))]

set_option maxRecDepth 4000 in
/-- Calls that run one after the other select their own options. -/
theorem selected_in_turn :
    ∃ s : Race Bool,
      Run (step .latin) OwnNetwork (start [(3, [])] twoCalls)
        [false, false, false, false, true, true, true, true] s ∧
      s.selected true = some (twoCalls true) := by
  obtain ⟨s, hs, hreturned⟩ : ∃ s : Race Bool,
      StepSystem.run? (step .latin) OwnNetwork (start [(3, [])] twoCalls)
        [false, false, false, false, true, true, true, true] = some s ∧
      s.caller true = .returned :=
    ⟨_, rfl, rfl⟩
  have hrun := StepSystem.run_of_run? hs
  exact ⟨s, hrun, selected_eq_options _ _ _ hrun true hreturned⟩

set_option maxRecDepth 4000 in
/-- Calls that were given the same id select each other's options. -/
theorem selected_mixed :
    ∃ (schedule : List Bool) (s : Race Bool),
      Run (step .latin) (fun _ _ => True) (start [] twoCalls) schedule s ∧
      s.caller true = .returned ∧
      s.selected true = some (twoCalls false ++ twoCalls true) ∧
      s.selected true ≠ some (twoCalls true) := by
  obtain ⟨s, hs, hreturned, hselected⟩ : ∃ s : Race Bool,
      StepSystem.run? (step .latin) (fun _ _ => True) (start [] twoCalls)
        [false, false, true, true, false, true, true] = some s ∧
      s.caller true = .returned ∧
      s.selected true = some (twoCalls false ++ twoCalls true) :=
    ⟨_, rfl, rfl, rfl⟩
  refine ⟨_, s, StepSystem.run_of_run? hs, hreturned, hselected, ?_⟩
  rw [hselected]
  simp [twoCalls]

end Race
end SetNetwork
end WpaSupplicant
