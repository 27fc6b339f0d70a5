import WpaSupplicant.NotificationClauses

/-!
# Names of events

An event is a name, up to the first space, and then parameters.  `notif` knows
four names; of every other event it makes an atom of the whole line.

* `tag_of_isPrefix`: what starts like one of the four is reported as that one;
* `notif_of_other`: what the whole line of another event becomes;
* `identified_iff`: which events are reported under their own name.
-/

namespace WpaSupplicant
namespace Decode

open ElixirString

/-- The atom that is the notification, or its first element. -/
def Notif.tag : Notif → Atom
  | .bare name => name
  | .tagged tag _ => tag
  | .numbered tag _ _ => tag

/-- An event as the supplicant writes it: a scan entry comes with its id and address. -/
structure Event where
  name : Atom
  params : Option Binary
  front : ∃ p ∈ atomFronts, p <+: name.name
  no_space : ' '.toUInt8 ∉ name.name
  entry : name.name ∈ bssEvents →
    ∃ entryId bssid, params = some (entryId ++ ' '.toUInt8 :: bssid) ∧
      IsNumeral 10 entryId ∧ bssid ≠ [] ∧ ' '.toUInt8 ∉ bssid

namespace Event

/-- What stands behind the name. -/
def tail (e : Event) : Binary :=
  match e.params with
  | none => []
  | some params => ' '.toUInt8 :: params

/-- The line. -/
def text (e : Event) : Binary :=
  e.name.name ++ e.tail

/-- The event decodes, and is reported under its name. -/
def Identified (e : Event) : Prop :=
  ∃ n, notif e.text = .ok n ∧ n.tag = e.name

theorem isBlank_tail_iff (e : Event) :
    IsBlank e.tail ↔ ∀ params ∈ e.params, IsBlank params := by
  unfold tail
  cases e.params with
  | none =>
      simp only [Option.mem_def, reduceCtorEq, false_implies, implies_true, iff_true]
      exact ⟨[], by simp, rfl⟩
  | some params =>
      simp [isBlank_space_cons_iff]

/-- A front without spaces stands in the name. -/
theorem isPrefix_text_iff
    (e : Event) {p : Binary} (hp : ' '.toUInt8 ∉ p) : p <+: e.text ↔ p <+: e.name.name := by
  constructor
  · intro h
    unfold text tail at h
    split at h
    · simpa using h
    · exact isPrefix_of_isPrefix_append_cons hp h
  · exact fun h => h.trans (List.prefix_append _ _)

/-- What starts like an event of the scan table or a connection is reported as that. -/
theorem tag_of_isPrefix
    (e : Event) {tag : Atom} (htag : tag.name ∈ bssEvents ++ connectionEvents)
    (hfront : tag.name <+: e.name.name) {n : Notif} (hn : notif e.text = .ok n) :
    n.tag = tag := by
  obtain ⟨rest, hrest⟩ := hfront
  rw [text, ← hrest, List.append_assoc] at hn
  rcases List.mem_append.mp htag with hbss | hconnection
  · rw [notif_bss hbss, notifBss_eq_ok_iff] at hn
    obtain ⟨_, _, _, _, rfl⟩ := hn
    rfl
  · rw [notif_connection hconnection, Except.ok.injEq] at hn
    rw [← hn]
    rfl

theorem identified_of_mem
    (e : Event) (h : e.name.name ∈ bssEvents ++ connectionEvents) : e.Identified := by
  rcases List.mem_append.mp h with hbss | hconnection
  · obtain ⟨entryId, bssid, hparams, hnum, hne, hspace⟩ := e.entry hbss
    have hid : ' '.toUInt8 ∉ entryId :=
      fun hmem => absurd (hnum.isDigit_of_mem hmem (by decide) (by decide)) (by decide)
    have hsplit : splitTrim e.tail ' '.toUInt8 = [entryId, bssid] := by
      change tokens ' '.toUInt8 e.tail = _
      rw [tail, hparams, tokens_cons_sep, tokens_append_sep,
        tokens_of_not_mem hnum.ne_nil hid, tokens_of_not_mem hne hspace]
      rfl
    refine ⟨.numbered e.name (numeralValue 10 entryId) bssid, ?_, rfl⟩
    rw [text, notif_bss hbss, notifBss_eq_ok_iff]
    exact ⟨entryId, bssid, hsplit, hnum, rfl⟩
  · exact ⟨.bare e.name, notif_connection hconnection _, rfl⟩

theorem isAtomEvent_text
    (e : Event) (h : ∀ p ∈ bssEvents ++ connectionEvents, ¬ p <+: e.name.name) :
    IsAtomEvent e.text := by
  obtain ⟨p, hp, hfront⟩ := e.front
  have hspace : ∀ p ∈ bssEvents ++ connectionEvents, ' '.toUInt8 ∉ p := by decide
  refine ⟨⟨p, hp, hfront.trans (List.prefix_append _ _)⟩, ?_⟩
  intro q hq hfront
  exact h q hq ((e.isPrefix_text_iff (hspace q hq)).mp hfront)

/-- The whole line of another event becomes an atom. -/
theorem identified_of_other_iff
    (e : Event) (h : ∀ p ∈ bssEvents ++ connectionEvents, ¬ p <+: e.name.name) :
    e.Identified ↔ rstrip e.text = e.name.name := by
  unfold Identified
  rw [notif_of_isAtomEvent (e.isAtomEvent_text h)]
  simp only [notifAtom_eq_ok_iff]
  constructor
  · rintro ⟨n, ⟨tag, htag, rfl⟩, hn⟩
    rw [← htag]
    exact congrArg Atom.name hn
  · intro h
    exact ⟨.bare e.name, ⟨e.name, h.symm, rfl⟩, rfl⟩

end Event

/-- An event is reported under its own name exactly when it is known or all there is. -/
theorem identified_iff (e : Event) :
    e.Identified ↔
      e.name.name ∈ bssEvents ++ connectionEvents ∨
        ((∀ p ∈ bssEvents ++ connectionEvents, ¬ p <+: e.name.name) ∧
          whitespace.NoneBehind e.name.name ∧ ∀ params ∈ e.params, IsBlank params) := by
  by_cases hother : ∀ p ∈ bssEvents ++ connectionEvents, ¬ p <+: e.name.name
  · have hnot : e.name.name ∉ bssEvents ++ connectionEvents :=
      fun hmem => hother _ hmem (List.prefix_refl _)
    rw [e.identified_of_other_iff hother, Event.text, rstrip_append_eq_left_iff,
      e.isBlank_tail_iff]
    simp only [hnot, false_or]
    tauto
  · simp only [hother, false_and, or_false]
    constructor
    · rintro ⟨n, hn, htag⟩
      push Not at hother
      obtain ⟨p, hp, hfront⟩ := hother
      have hname := isAtomName_of_mem p (List.mem_cons_of_mem _ (List.mem_append_left _ hp))
      have htag' : n.tag = ⟨p, hname⟩ := e.tag_of_isPrefix hp hfront hn
      rw [← htag, htag']
      exact hp
    · exact e.identified_of_mem

/-- `CTRL-EVENT-EAP-METHOD`, with the method that was selected. -/
def eapMethod : Event where
  name := ⟨lit "CTRL-EVENT-EAP-METHOD", by decide +kernel, by decide +kernel⟩
  params := some (lit "EAP vendor 0 method 25 (PEAP) selected")
  front := ⟨lit "CTRL-EVENT-", by decide, by decide⟩
  no_space := by decide
  entry := by
    intro h
    exact absurd h (by decide)

/-- The parameters become part of the name. -/
theorem not_identified_eapMethod : ¬ eapMethod.Identified := by
  rintro ⟨n, hn, htag⟩
  have hline : (notif eapMethod.text).toOption.map (fun n => n.tag.name) ≠
      some eapMethod.name.name := by
    decide +kernel
  apply hline
  rw [hn, ← htag]
  rfl

end Decode
end WpaSupplicant
