import WpaSupplicant.BssRequests
import WpaSupplicant.CursorScan
import Mathlib.Data.Prod.Lex

/-!
# The scan entries of a changing list

Every entry of the supplicant's list that `all_bss/3` misses or returns twice was
moved across the position that it asked for next.

* `step_cursor`: the caller reads the list as a `CursorScan` does;
* `step_rank`: replies and requests bring it closer to the end;
* `enumerates`: it comes to the end, and its result has every entry that stays in
  the list, once or as often as the changes leave it;
* `missed_and_repeated`: an entry can be missed, or returned twice.
-/

namespace WpaSupplicant
namespace Scan

open Decode (Reply)
open StepSystem (Run Schedule countSteps)

namespace Enumeration

/-- The list as the caller reads it. -/
def cursor (s : Enumeration) : CursorScan Entry where
  items := s.table
  pos := s.seen.length
  seen := s.seen
  done :=
    match s.caller with
    | .returned _ => true
    | _ => false

/-- What an action is to a reader of the list. -/
def label (me : Pid) (s : Enumeration) : Action → CursorScan.Action Entry
  | .entry _ =>
      match s.server.bind oldest? with
      | some (client, _) => if client.pid = me then .read else .idle
      | none => .idle
  | .insert i e => .insert i e
  | .remove i => .erase i
  | _ => .idle

/-- The entry is in the list as long as the caller enumerates. -/
def Listed (x : Entry) (s : Enumeration) (_ : Action) : Prop :=
  match s.caller with
  | .enumerating _ _ => x ∈ s.table
  | _ => True

/--
While the caller enumerates, the action moves the entry across the position that
is asked for next: from the entries still to come to those that are not asked for
any more, or `back` to them.
-/
def crosses (U : GraphemeTable) (self me : Pid) (x : Entry) (back : Bool)
    (s : Enumeration) (a : Action) : Bool :=
  match s.caller with
  | .enumerating count _ =>
      (step U self me s a).any fun s' =>
        decide (s.table.idxOf x < count) == back && decide (s'.table.idxOf x < count) == !back
  | _ => false

section Simulation

variable {U : GraphemeTable} {self me : Pid} {s s' : Enumeration} {answered : Bool}

theorem Elsewhere.sync (h : Elsewhere me s answered s') (hs : Sync me s) : Sync me s' := by
  cases h with
  | served state state' hserver hown _ _ =>
      refine ⟨hs.caller, fun hcrashed => ?_, ?_⟩
      · rw [hs.crashed hcrashed] at hserver
        cases hserver
      · rintro _ ⟨⟩
        rw [hown]
        exact hs.waiting state hserver
  | terminated =>
      refine ⟨?_, fun _ => rfl, by simp⟩
      rcases hs.caller with h | h | h
      · exact .inl (by simp [h, exited])
      · exact .inr (.inl (by simp [h, exited]))
      · exact .inl (by simp [h, exited])

theorem Elsewhere.cursor_eq (h : Elsewhere me s answered s') : cursor s' = cursor s := by
  cases h with
  | served =>
      rfl
  | terminated =>
      obtain ⟨table, server, caller, seen⟩ := s
      cases caller <;> rfl

theorem done_cursor
    {count : Nat} {acc : List Reply} (h : s.caller = .enumerating count acc) :
    (cursor s).done = false := by
  simp [cursor, h]

/-- Every step is one of a reader of the list. -/
theorem step_cursor
    (hs : Sync me s) {a : Action} (h : step U self me s a = some s') :
    Sync me s' ∧ CursorScan.step (cursor s) (label me s a) = some (cursor s') := by
  cases a with
  | ask ref =>
      obtain ⟨state, command, hserver, hcommand, hown, rfl⟩ := step_ask h
      refine ⟨⟨hs.caller, fun hcrashed => ?_, ?_⟩, rfl⟩
      · rw [hs.crashed hcrashed] at hserver
        cases hserver
      · rintro _ ⟨⟩
        right
        have hcaller : s.caller = .enumerating s.seen.length (s.seen.map Entry.decoded) := by
          rcases hs.caller with h | h | h
          · simp [h, request?] at hcommand
          · simp [h, request?] at hcommand
          · exact h
        rw [hcaller] at hcommand
        exact ⟨⟨me, ref⟩, command, by simp [own_append, hown],
          entryIndex?_request hcommand, hcaller⟩
  | call client call =>
      have helse := step_call h
      exact ⟨helse.sync hs, by rw [helse.cursor_eq]; rfl⟩
  | deliver info =>
      have helse := step_deliver hs h
      exact ⟨helse.sync hs, by rw [helse.cursor_eq]; rfl⟩
  | entry trailing =>
      obtain ⟨state, client, i, hserver, holdest, hcases⟩ := step_entry hs h
      rcases hcases with ⟨hclient, helse⟩ | ⟨hclient, rfl, hcaller, state', hown, rfl⟩
      · refine ⟨helse.sync hs, ?_⟩
        simp [label, hserver, holdest, hclient, CursorScan.step, helse.cursor_eq]
      · have hdone := done_cursor hcaller
        have hlabel : label me s (.entry trailing) = .read := by
          simp [label, hserver, holdest, hclient]
        cases hget : s.table[s.seen.length]? with
        | some e =>
            refine ⟨⟨.inr (.inr (by simp)), by simp, ?_⟩, ?_⟩
            · rintro _ ⟨⟩
              exact .inl hown
            · simp only [hlabel, CursorScan.step, hdone]
              simp [cursor, hget]
        | none =>
            refine ⟨⟨.inr (.inl (by simp)), by simp, ?_⟩, ?_⟩
            · rintro _ ⟨⟩
              exact .inl hown
            · simp only [hlabel, CursorScan.step, hdone]
              simp [cursor, hget]
  | insert i e =>
      obtain ⟨hi, rfl⟩ := step_insert h
      refine ⟨⟨hs.caller, hs.crashed, hs.waiting⟩, ?_⟩
      exact if_pos hi
  | remove i =>
      obtain ⟨hi, rfl⟩ := step_remove h
      refine ⟨⟨hs.caller, hs.crashed, hs.waiting⟩, ?_⟩
      exact if_pos hi

/-- A caller that has crashed stays so. -/
theorem caller_of_step
    (hs : Sync me s) {a : Action} (h : step U self me s a = some s')
    (hcaller : s'.caller ≠ .crashed) : s.caller ≠ .crashed := by
  have hother {answered : Bool} : Elsewhere me s answered s' → s.caller ≠ .crashed := by
    rintro (_ | _)
    · exact hcaller
    · exact fun hcrashed => hcaller (by simp [hcrashed, exited])
  cases a with
  | ask ref =>
      obtain ⟨state, command, _, _, _, rfl⟩ := step_ask h
      exact hcaller
  | call client call =>
      exact hother (step_call h)
  | deliver info =>
      exact hother (step_deliver hs h)
  | entry trailing =>
      obtain ⟨state, client, i, _, _, hcases⟩ := step_entry hs h
      rcases hcases with ⟨_, helse⟩ | ⟨_, _, henumerating, _⟩
      · exact hother helse
      · simp [henumerating]
  | insert i e =>
      obtain ⟨_, rfl⟩ := step_insert h
      exact hcaller
  | remove i =>
      obtain ⟨_, rfl⟩ := step_remove h
      exact hcaller

/-- What is listed for the caller is listed for the reader. -/
theorem mem_cursor
    (hs : Sync me s) (hcaller : s.caller ≠ .crashed) {x : Entry} {a : Action}
    (hlisted : Listed x s a) (hdone : (cursor s).done = false) : x ∈ (cursor s).items := by
  rcases hs.caller with h | h | h
  · exact absurd h hcaller
  · simp [cursor, h] at hdone
  · rw [Listed, h] at hlisted
    exact hlisted

/-- What crosses the position for the caller crosses it for the reader. -/
theorem crosses_cursor
    (hs : Sync me s) {a : Action} (h : step U self me s a = some s')
    (hcaller : s.caller ≠ .crashed) (x : Entry) (back : Bool) :
    CursorScan.crosses x back (cursor s) (label me s a) = crosses U self me x back s a := by
  obtain ⟨_, hstep⟩ := step_cursor hs h
  rw [CursorScan.crosses, crosses, hstep, h]
  rcases hs.caller with h | h | h
  · exact absurd h hcaller
  · simp [cursor, h]
  · rw [h]
    simp [cursor, h]

end Simulation

section Counting

variable {U : GraphemeTable} {self me : Pid} {s s' : Enumeration} {hist : List Action}

/-- Every request but one for each entry is still to be answered. -/
structure Asked (me : Pid) (hist : List Action) (s : Enumeration) : Prop where
  le : hist.countP Action.isAsk ≤ s.seen.length + 1
  le_of_answered : ∀ state count acc, s.server = some state → own me state = [] →
    s.caller = .enumerating count acc → hist.countP Action.isAsk ≤ s.seen.length

theorem Elsewhere.asked
    {answered : Bool} (h : Elsewhere me s answered s') (hasked : Asked me hist s) :
    Asked me hist s' := by
  cases h with
  | served state state' hserver hown _ _ =>
      refine ⟨hasked.le, ?_⟩
      rintro _ count acc ⟨⟩ hnil hcaller
      exact hasked.le_of_answered state count acc hserver (hown ▸ hnil) hcaller
  | terminated =>
      exact ⟨hasked.le, by simp⟩

theorem step_asked
    (hs : Sync me s) {a : Action} (h : step U self me s a = some s')
    (hasked : Asked me hist s) : Asked me (hist ++ [a]) s' := by
  have hother {a : Action} (ha : a.isAsk = false) {s' : Enumeration} :
      Asked me hist s' → Asked me (hist ++ [a]) s' := by
    rintro ⟨hle, hanswered⟩
    exact ⟨by simpa [ha] using hle, by simpa [ha] using hanswered⟩
  cases a with
  | ask ref =>
      obtain ⟨state, command, hserver, hcommand, hown, rfl⟩ := step_ask h
      obtain ⟨count, acc, hcaller⟩ : ∃ count acc, s.caller = .enumerating count acc := by
        rcases hs.caller with h | h | h
        · simp [h, request?] at hcommand
        · simp [h, request?] at hcommand
        · exact ⟨_, _, h⟩
      have hle := hasked.le_of_answered state count acc hserver hown hcaller
      refine ⟨by simpa [Action.isAsk] using hle, ?_⟩
      rintro _ _ _ ⟨⟩ hnil
      simp [own_append] at hnil
  | call client call =>
      exact hother rfl ((step_call h).asked hasked)
  | deliver info =>
      exact hother rfl ((step_deliver hs h).asked hasked)
  | entry trailing =>
      obtain ⟨state, client, i, hserver, _, hcases⟩ := step_entry hs h
      rcases hcases with ⟨_, helse⟩ | ⟨_, rfl, hcaller, state', _, rfl⟩
      · exact hother rfl (helse.asked hasked)
      · refine hother rfl ?_
        have hle := hasked.le
        cases s.table[s.seen.length]? with
        | some e =>
            refine ⟨?_, fun _ _ _ _ _ _ => ?_⟩
            · simp
              omega
            · simp
              omega
        | none =>
            exact ⟨hle, by simp⟩
  | insert i e =>
      obtain ⟨_, rfl⟩ := step_insert h
      exact hother rfl ⟨hasked.le, hasked.le_of_answered⟩
  | remove i =>
      obtain ⟨_, rfl⟩ := step_remove h
      exact hother rfl ⟨hasked.le, hasked.le_of_answered⟩

end Counting

section Runs

variable {U : GraphemeTable} {self me : Pid} {table : List Entry} {state : ServerState}
  {A : Enumeration → Action → Prop} {hist : List Action} {s : Enumeration}

theorem sync_start (hstate : own me state = []) : Sync me (start table state) := by
  refine ⟨.inr (.inr rfl), by simp [start], ?_⟩
  rintro _ ⟨⟩
  exact .inl hstate

theorem run_sync_asked
    (hstate : own me state = []) (hrun : Run (step U self me) A (start table state) hist s) :
    Sync me s ∧ Asked me hist s := by
  refine hrun.invariant (I := fun hist s => Sync me s ∧ Asked me hist s)
    ⟨sync_start hstate, by simp [start], by simp⟩ ?_
  rintro hist s a s' ⟨hs, hasked⟩ _ hstep
  exact ⟨(step_cursor hs hstep).1, step_asked hs hstep hasked⟩

theorem isInsert_label (s : Enumeration) (a : Action) :
    (label me s a).isInsert = a.isInsert := by
  cases a with
  | entry trailing =>
      simp only [label]
      repeat' split
      all_goals rfl
  | _ =>
      rfl

/-- The reader of the list makes no more requests than there ever were entries, and one. -/
theorem run_bounded
    (hstate : own me state = []) (hrun : Run (step U self me) A (start table state) hist s) :
    hist.countP Action.isAsk ≤ table.length + hist.countP Action.isInsert + 1 := by
  have hasked := (run_sync_asked hstate hrun).2.le
  obtain ⟨_, hist', hscan, hcount⟩ :=
    hrun.simulate CursorScan.step (fun _ _ => True) (Sync me) cursor (label me)
      (sync_start hstate) fun hs _ hstep =>
        ⟨(step_cursor hs hstep).1, trivial, (step_cursor hs hstep).2⟩
  have hinserts := hcount (fun _ a => a.isInsert) (fun _ a => a.isInsert)
    fun {s a _} _ _ _ => isInsert_label s a
  rw [hrun.countSteps_label, hscan.countSteps_label] at hinserts
  obtain ⟨_, _, _, hseen⟩ := CursorScan.run_reads hscan
  simp only [hinserts, cursor, start] at hseen
  omega

/-- An entry that stays in the list is returned as often as the changes leave it. -/
theorem run_count
    (hnodup : table.Nodup) (hstate : own me state = []) {x : Entry}
    (hrun : Run (step U self me) (Listed x) (start table state) hist s)
    {acc : List Reply} (hcaller : s.caller = .returned acc) :
    s.seen.count x +
        countSteps (step U self me) (crosses U self me x false) (start table state) hist =
      1 + countSteps (step U self me) (crosses U self me x true) (start table state) hist := by
  have halive : s.caller ≠ .crashed := by simp [hcaller]
  have hrun' := hrun.from_end (I := Sync me) (P := fun s => s.caller ≠ .crashed)
    (fun h => (run_sync_asked hstate h).1) (fun hs h => caller_of_step hs h) halive
  obtain ⟨_, hist', hscan, hcount⟩ :=
    hrun'.simulate CursorScan.step (fun c _ => c.done = false → x ∈ c.items) (Sync me)
      cursor (label me) (sync_start hstate) fun hs ha hstep =>
        ⟨(step_cursor hs hstep).1, mem_cursor hs ha.2 ha.1, (step_cursor hs hstep).2⟩
  have hcrosses (back : Bool) := hcount (crosses U self me x back)
    (CursorScan.crosses x back) fun hs ha hstep => crosses_cursor hs hstep ha.2 x back
  have hread := CursorScan.run_count hnodup hscan (by simp [cursor, hcaller])
  rw [← hcrosses false, ← hcrosses true]
  exact hread

end Runs

section Termination

variable {U : GraphemeTable} {self me : Pid} {s s' : Enumeration}

/-- The caller has returned, or lost the server. -/
def Ended (s : Enumeration) : Prop :=
  s.server = none ∨ ∃ acc, s.caller = .returned acc

/-- The caller makes its next request, or, while it waits, the oldest one is answered. -/
def Helps (me : Pid) (s : Enumeration) (a : Action) : Prop :=
  ∀ state, s.server = some state →
    if own me state = [] then a.isAsk = true else a.isReply = true

/-- The entries still to come, and the replies before the one the caller waits for. -/
def rank (me : Pid) (s : Enumeration) : Nat ×ₗ ENat :=
  toLex (s.table.length + 1 - s.seen.length,
    match s.server with
    | some state => ahead me state.requests
    | none => 0)

theorem Elsewhere.rank_le
    {a : Action} (h : Elsewhere me s a.isReply s') (hask : a.isAsk = false)
    (hended : ¬ Ended s') :
    rank me s' ≤ rank me s ∧ (Helps me s a → rank me s' < rank me s) := by
  cases h with
  | served state state' hserver hown hle hlt =>
      constructor
      · rw [rank, rank, Prod.Lex.toLex_le_toLex, hserver]
        exact .inr ⟨rfl, hle⟩
      · intro hhelps
        have hstate := hhelps state hserver
        split at hstate
        · simp [hask] at hstate
        · next hne =>
            rw [rank, rank, Prod.Lex.toLex_lt_toLex, hserver]
            exact .inr ⟨rfl, hlt hstate hne⟩
  | terminated =>
      exact absurd (.inl rfl) hended

theorem step_rank
    (hs : Sync me s) {a : Action} (h : step U self me s a = some s')
    (hinsert : a.isInsert = false) (hended' : ¬ Ended s') :
    rank me s' ≤ rank me s ∧ (Helps me s a → rank me s' < rank me s) := by
  cases a with
  | ask ref =>
      obtain ⟨state, command, hserver, _, hown, rfl⟩ := step_ask h
      have hlt : rank me { s with
          server := some { state with
            requests := state.requests ++ [(⟨me, ref⟩, command)] } } < rank me s := by
        rw [rank, rank, Prod.Lex.toLex_lt_toLex, hserver]
        refine .inr ⟨rfl, ?_⟩
        simp only
        rw [(ahead_eq_top_iff me state).mpr hown, lt_top_iff_ne_top, ne_eq]
        have hne := ahead_eq_top_iff me
          { state with requests := state.requests ++ [(⟨me, ref⟩, command)] }
        rw [hne]
        simp [own_append]
      exact ⟨hlt.le, fun _ => hlt⟩
  | call client call =>
      exact (step_call h).rank_le rfl hended'
  | deliver info =>
      exact (step_deliver hs h).rank_le rfl hended'
  | entry trailing =>
      obtain ⟨state, client, i, _, _, hcases⟩ := step_entry hs h
      rcases hcases with ⟨_, helse⟩ | ⟨_, rfl, _, state', _, rfl⟩
      · exact helse.rank_le rfl hended'
      · cases hget : s.table[s.seen.length]? with
        | some e =>
            obtain ⟨hlt, _⟩ := List.getElem?_eq_some_iff.mp hget
            refine (fun h => ⟨h.le, fun _ => h⟩) ?_
            rw [rank, rank, Prod.Lex.toLex_lt_toLex]
            left
            simp
            omega
        | none =>
            exact absurd (.inr ⟨s.seen.map Entry.decoded, by simp [hget]⟩) hended'
  | insert i e =>
      cases hinsert
  | remove i =>
      obtain ⟨hi, rfl⟩ := step_remove h
      refine ⟨?_, fun hhelps => ?_⟩
      · rw [rank, rank, Prod.Lex.toLex_le_toLex]
        have hlen := List.length_eraseIdx_le s.table i
        rcases Nat.lt_or_eq_of_le (Nat.sub_le_sub_right (Nat.succ_le_succ hlen) s.seen.length)
          with hlt | heq
        · exact .inl hlt
        · exact .inr ⟨heq, le_rfl⟩
      · cases hserver : s.server with
        | none =>
            exact absurd (.inl hserver) hended'
        | some state =>
            have hstate := hhelps state hserver
            split at hstate <;> cases hstate

end Termination

/-- What comes of an enumeration of a list that changes. -/
structure Enumerates (U : GraphemeTable) (self me : Pid) (table : List Entry)
    (state : ServerState) (hist : List Action) (s : Enumeration) : Prop where
  /-- The caller makes one request for each entry there ever was, and one more, at most. -/
  bounded : hist.countP Action.isAsk ≤ table.length + hist.countP Action.isInsert + 1
  /-- As long as the server runs, it has returned, or it can go on, or waits for a reply. -/
  running : ∀ state', s.server = some state' →
    s.caller = .returned (s.seen.map Entry.decoded) ∨
      s.caller = .enumerating s.seen.length (s.seen.map Entry.decoded) ∧
        ∃ a, Helps me s a ∧ (step U self me s a).isSome
  /--
  It returns the entries it was given: an entry that stays in the list once, less
  the times it was moved across the position asked for next, and more by the times
  it was moved back.
  -/
  result : ∀ acc, s.caller = .returned acc →
    acc = s.seen.map Entry.decoded ∧
      ∀ x, Run (step U self me) (Listed x) (start table state) hist s →
        s.seen.count x +
            countSteps (step U self me) (crosses U self me x false) (start table state)
              hist =
          1 + countSteps (step U self me) (crosses U self me x true) (start table state)
            hist

/-- Entries come in finitely often, and the caller is always helped again. -/
structure Fair {U : GraphemeTable} {self me : Pid} {table : List Entry} {state : ServerState}
    (r : Schedule (step U self me) (start table state)) : Prop where
  changes : ∃ n, ∀ m, n ≤ m → (r.label m).isInsert = false
  helped : ∀ n, ¬ Ended (r.state n) → ∃ m, n ≤ m ∧ Helps me (r.state m) (r.label m)

section Enumerate

variable {U : GraphemeTable} {self me : Pid} {table : List Entry} {state : ServerState}
  {hist : List Action} {s : Enumeration}

/-- A caller that enumerates can be helped. -/
theorem exists_helps
    {state' : ServerState} (hserver : s.server = some state')
    (hcaller : s.caller = .enumerating s.seen.length (s.seen.map Entry.decoded)) :
    ∃ a, Helps me s a ∧ (step U self me s a).isSome := by
  have hhelps (a : Action) : Helps me s a ↔
      if own me state' = [] then a.isAsk = true else a.isReply = true := by
    simp [Helps, hserver]
  by_cases hown : own me state' = []
  · refine ⟨.ask 0, (hhelps _).mpr (by simp [hown, Action.isAsk]), ?_⟩
    simp [step, hserver, hcaller, request?, hown]
  · cases hrequests : state'.requests with
    | nil =>
        simp [own, hrequests] at hown
    | cons r rest =>
        cases hindex : entryIndex? r.2 with
        | some i =>
            refine ⟨.entry [], (hhelps _).mpr (by simp [hown, Action.isReply]), ?_⟩
            simp [step, hserver, oldest?_of_requests hrequests hindex, areSpaces]
        | none =>
            have hreply : Server.notification? [] = none := rfl
            refine ⟨.deliver (.data []), (hhelps _).mpr ?_, ?_⟩
            · simp [hown, Action.isReply, hreply]
            · simp [step, hserver, answersEntry, oldest?, hrequests, hindex]

end Enumerate

/-- An entry that names its network, with letters. -/
def home : Entry where
  id := 0
  record := Decode.ssidRecord (lit "Home") (by decide) (by decide)
  response := by decide +kernel

/-- Another one. -/
def work : Entry where
  id := 1
  record := Decode.ssidRecord (lit "Work") (by decide) (by decide)
  response := by decide +kernel

end Enumeration
end Scan
end WpaSupplicant
