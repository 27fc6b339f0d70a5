import WpaSupplicant.NotificationClauses

/-!
# White space behind a notification

Each clause of `notif` gets rid of white space at the end in its own way: some
strip the line, some drop the parameters, one splits at spaces and one does
nothing.

* `notifBss_append_eq_iff`: a scan entry event survives spaces only;
* `notifCtrlReq_append_eq_iff`: an interactive request survives nothing;
* `notif_append_eq_iff`: which white space leaves a notification as it is.
-/

namespace WpaSupplicant
namespace Decode

open ElixirString

/-- A run of spaces, tabs, carriage returns and newlines. -/
def IsTrailing (w : Binary) : Prop :=
  ∀ x ∈ w, x ∈ lit " \t\r\n"

instance (w : Binary) : Decidable (IsTrailing w) :=
  inferInstanceAs (Decidable (∀ x ∈ w, _))

/-- The text does not end inside a front that `notif` looks for. -/
def IsComplete (s : Binary) : Prop :=
  ∀ p ∈ eventFronts, s <+: p → s = p

instance (s : Binary) : Decidable (IsComplete s) :=
  inferInstanceAs (Decidable (∀ p ∈ eventFronts, _))

/-- White space that the clause for the text gets rid of. -/
def IsDropped (s w : Binary) : Prop :=
  (lit "CTRL-REQ-" <+: s → w = []) ∧
    ((∃ p ∈ bssEvents, p <+: s) → ∀ x ∈ w, x = ' '.toUInt8)

theorem rstrip_append_of_isTrailing
    {w : Binary} (hw : IsTrailing w) (s : Binary) : rstrip (s ++ w) = rstrip s := by
  have hbytes : ∀ x ∈ lit " \t\r\n", [x] ∈ whitespace.pats := by decide +kernel
  have hws : ∀ p ∈ w.map ([·]), p ∈ whitespace.pats := by
    intro p hp
    obtain ⟨x, hx, rfl⟩ := List.mem_map.mp hp
    exact hbytes x (hw x hx)
  have hflat : (w.map ([·])).flatten = w := by
    simp [← List.flatMap_def]
  have := whitespace.trimEnd_append_of_mem hws s
  rwa [hflat] at this

section Clauses

theorem notifBss_append_eq_iff
    {tag : Atom} {rest : Binary} (h : Returns (notifBss tag rest)) (w : Binary) :
    notifBss tag (rest ++ w) = notifBss tag rest ↔ ∀ x ∈ w, x = ' '.toUInt8 := by
  obtain ⟨n, hn⟩ := h
  obtain ⟨entryId, bssid, hsplit, hnum, rfl⟩ := notifBss_eq_ok_iff.mp hn
  rw [hn]
  constructor
  · intro h
    obtain ⟨entryId', bssid', hsplit', _, hnotif⟩ := notifBss_eq_ok_iff.mp h
    obtain ⟨l, htokens, hflat⟩ := tokens_append_of_two hsplit w
    obtain rfl : bssid = bssid' := by
      simp only [Notif.numbered.injEq] at hnotif
      exact hnotif.2.2
    obtain rfl : l = [bssid] := by
      have := htokens.symm.trans hsplit'
      exact (List.cons.inj this).2
    simpa using hflat
  · intro hw
    have hsame : splitTrim (rest ++ w) ' '.toUInt8 = splitTrim rest ' '.toUInt8 :=
      tokens_append_of_forall_eq rest hw
    rw [← hn, notifBss, notifBss, hsame]

theorem notifCtrlReq_append_eq_iff
    {rest : Binary} (h : Returns (notifCtrlReq rest)) (w : Binary) :
    notifCtrlReq (rest ++ w) = notifCtrlReq rest ↔ w = [] := by
  obtain ⟨n, hn⟩ := h
  obtain ⟨tag, field, netId, text, hsplit, htag, hnum, rfl⟩ := notifCtrlReq_eq_ok_iff.mp hn
  obtain ⟨seps, seps', rfl, hseps, hseps', hfne, hf, hnne, hnet, htne⟩ :=
    splitParts_three_iff.mp hsplit
  have happend : notifCtrlReq (seps ++ (field ++ '-'.toUInt8 :: (seps' ++
      (netId ++ '-'.toUInt8 :: text))) ++ w) =
      .ok (.numbered tag (numeralValue 10 netId) (text ++ w)) := by
    rw [notifCtrlReq_eq_ok_iff]
    refine ⟨tag, field, netId, text ++ w, ?_, htag, hnum, rfl⟩
    rw [splitParts_three_iff]
    exact ⟨seps, seps', by simp, hseps, hseps', hfne, hf, hnne, hnet, by simp [htne]⟩
  rw [happend, hn]
  simp

end Clauses

section Dispatch

variable {s w : Binary}

/-- No other front lets a text start like an interactive request. -/
theorem not_ctrlReq_isPrefix
    {p : Binary} (hp : p ∈ bssEvents ++ connectionEvents ++ atomFronts ++ stationEvents)
    (rest : Binary) : ¬ lit "CTRL-REQ-" <+: p ++ rest := by
  have hexclude : ∀ p ∈ bssEvents ++ connectionEvents ++ atomFronts ++ stationEvents,
      ¬ lit "CTRL-REQ-" <+: p ∧ ¬ p <+: lit "CTRL-REQ-" := by
    decide +kernel
  exact not_isPrefix_append (hexclude p hp).1 (hexclude p hp).2 rest

/-- The clauses but two get rid of every white space. -/
theorem isDropped_of_front
    {p : Binary} (hp : p ∈ connectionEvents ++ stationEvents) (rest w : Binary) :
    IsDropped (p ++ rest) w := by
  have hexclude : ∀ p ∈ connectionEvents ++ stationEvents, ∀ q ∈ bssEvents,
      ¬ q <+: p ∧ ¬ p <+: q := by
    decide +kernel
  have hfront : p ∈ bssEvents ++ connectionEvents ++ atomFronts ++ stationEvents := by
    simp only [List.mem_append] at hp ⊢
    tauto
  constructor
  · exact fun h => absurd h (not_ctrlReq_isPrefix hfront rest)
  · rintro ⟨q, hq, h⟩
    exact absurd h (not_isPrefix_append (hexclude p hp q hq).1 (hexclude p hp q hq).2 rest)

theorem isDropped_of_isAtomEvent (h : IsAtomEvent s) (w : Binary) : IsDropped s w := by
  obtain ⟨⟨p, hp, rest, rfl⟩, hnamed⟩ := h
  constructor
  · exact fun h => absurd h (not_ctrlReq_isPrefix (by simp [hp]) rest)
  · rintro ⟨q, hq, h⟩
    exact absurd h (hnamed q (List.mem_append_left _ hq))

/-- What is added behind a complete text does not change which fronts it has. -/
theorem isPrefix_append_iff (hs : IsComplete s) {p : Binary} (hp : p ∈ eventFronts) :
    p <+: s ++ w ↔ p <+: s := by
  constructor
  · intro h
    rcases List.prefix_or_prefix_of_prefix h (List.prefix_append s w) with h | h
    · exact h
    · rw [hs p hp h]
  · exact fun h => h.trans (List.prefix_append s w)

theorem isAtomEvent_append (hs : IsComplete s) (h : IsAtomEvent s) :
    IsAtomEvent (s ++ w) := by
  obtain ⟨⟨p, hp, hfront⟩, hnamed⟩ := h
  refine ⟨⟨p, hp, hfront.trans (List.prefix_append s w)⟩, fun q hq => ?_⟩
  rw [isPrefix_append_iff hs]
  · exact hnamed q hq
  · simp only [eventFronts, List.mem_cons, List.mem_append] at hq ⊢
    tauto

theorem isDropped_ctrlReq_iff (rest w : Binary) :
    IsDropped (lit "CTRL-REQ-" ++ rest) w ↔ w = [] := by
  constructor
  · exact fun h => h.1 (List.prefix_append _ _)
  · rintro rfl
    exact ⟨fun _ => rfl, by simp⟩

theorem isDropped_bss_iff {p : Binary} (hp : p ∈ bssEvents) (rest w : Binary) :
    IsDropped (p ++ rest) w ↔ ∀ x ∈ w, x = ' '.toUInt8 := by
  constructor
  · exact fun h => h.2 ⟨p, hp, List.prefix_append _ _⟩
  · intro hw
    refine ⟨fun h => ?_, fun _ => hw⟩
    exact absurd h (not_ctrlReq_isPrefix (by simp [hp]) rest)

theorem isDropped_of_forall_not_isPrefix
    (h : ∀ p ∈ eventFronts, ¬ p <+: s) (w : Binary) : IsDropped s w := by
  constructor
  · exact fun hreq => absurd hreq (h _ (by simp [eventFronts]))
  · rintro ⟨p, hp, hfront⟩
    exact absurd hfront (h p (by simp [eventFronts, hp]))

end Dispatch

/-- White space behind a notification leaves it as it is when its clause drops it. -/
theorem notif_append_eq_iff
    {s w : Binary} (hdecodes : Returns (notif s)) (hcomplete : IsComplete s)
    (hw : IsTrailing w) :
    notif (s ++ w) = notif s ↔ IsDropped s w := by
  rcases notif_cases s with
    ⟨rest, rfl⟩ | ⟨tag, htag, rest, rfl⟩ | ⟨tag, htag, rest, rfl⟩ | hatom |
      ⟨tag, htag, mac, rfl⟩ | hinfo
  · rw [notif_ctrlReq] at hdecodes
    rw [List.append_assoc, notif_ctrlReq, notif_ctrlReq,
      notifCtrlReq_append_eq_iff hdecodes, isDropped_ctrlReq_iff]
  · rw [notif_bss htag] at hdecodes
    rw [List.append_assoc, notif_bss htag, notif_bss htag,
      notifBss_append_eq_iff hdecodes, isDropped_bss_iff htag]
  · rw [List.append_assoc, notif_connection htag, notif_connection htag]
    simp [isDropped_of_front (List.mem_append_left _ htag)]
  · rw [notif_of_isAtomEvent hatom, notif_of_isAtomEvent (isAtomEvent_append hcomplete hatom),
      notifAtom, notifAtom, rstrip_append_of_isTrailing hw]
    simp [isDropped_of_isAtomEvent hatom]
  · rw [List.append_assoc, notif_station htag, notif_station htag,
      rstrip_append_of_isTrailing hw]
    rw [List.append_assoc]
    simp [isDropped_of_front (List.mem_append_right _ htag)]
  · obtain ⟨tag, htag⟩ : ∃ tag : Atom, tag.name = lit "INFO" :=
      ⟨⟨_, isAtomName_of_mem _ (List.mem_cons_self ..)⟩, rfl⟩
    have hinfo' : ∀ p ∈ eventFronts, ¬ p <+: s ++ w := by
      intro p hp
      rw [isPrefix_append_iff hcomplete hp]
      exact hinfo p hp
    rw [notif_of_forall_not_isPrefix htag hinfo, notif_of_forall_not_isPrefix htag hinfo',
      rstrip_append_of_isTrailing hw]
    simp [isDropped_of_forall_not_isPrefix hinfo]

/-- A disconnection is reported with or without a newline. -/
theorem notif_append_eq_disconnected :
    notif (lit "CTRL-EVENT-DISCONNECTED" ++ lit "\n") = notif (lit "CTRL-EVENT-DISCONNECTED") ↔
      IsDropped (lit "CTRL-EVENT-DISCONNECTED") (lit "\n") :=
  notif_append_eq_iff (by decide +kernel) (by decide) (by decide +kernel)

/-- A newline becomes part of the address of a scan entry. -/
theorem not_notif_append_eq_bss :
    Returns (notif (lit "CTRL-EVENT-BSS-ADDED 34 00:11:22:33:44:55")) ∧
      IsComplete (lit "CTRL-EVENT-BSS-ADDED 34 00:11:22:33:44:55") ∧ IsTrailing (lit "\n") ∧
      notif (lit "CTRL-EVENT-BSS-ADDED 34 00:11:22:33:44:55" ++ lit "\n") ≠
        notif (lit "CTRL-EVENT-BSS-ADDED 34 00:11:22:33:44:55") := by
  decide +kernel

end Decode
end WpaSupplicant
