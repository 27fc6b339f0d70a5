import WpaSupplicant.MessageDecoding
import WpaSupplicant.SeparatedTokens

/-!
# The clauses of `notif`

One lemma for each kind of clause says what `notif` makes of a text that
reaches it, and `notif_cases` that every text reaches one of them.
-/

namespace WpaSupplicant
namespace Decode

open ElixirString

/-- The events of the scan table, which carry an id and an address. -/
def bssEvents : List Binary :=
  [lit "CTRL-EVENT-BSS-ADDED", lit "CTRL-EVENT-BSS-REMOVED"]

/-- The events whose parameters are dropped. -/
def connectionEvents : List Binary :=
  [lit "CTRL-EVENT-CONNECTED", lit "CTRL-EVENT-DISCONNECTED"]

/-- The fronts of the events whose whole line becomes an atom. -/
def atomFronts : List Binary :=
  [lit "CTRL-EVENT-", lit "WPS-"]

/-- The events of an access point, which carry an address behind a space. -/
def stationEvents : List Binary :=
  [lit "AP-STA-CONNECTED", lit "AP-STA-DISCONNECTED"]

/-- Every front that `notif` looks for. -/
def eventFronts : List Binary :=
  lit "CTRL-REQ-" :: (bssEvents ++ connectionEvents ++ atomFronts ++
    stationEvents.map (· ++ lit " "))

/-- A text for the clauses that make an atom of it: no clause above takes it. -/
def IsAtomEvent (s : Binary) : Prop :=
  (∃ p ∈ atomFronts, p <+: s) ∧ ∀ p ∈ bssEvents ++ connectionEvents, ¬ p <+: s

/-- The tags that `notif` has are atom names. -/
theorem isAtomName_of_mem :
    ∀ p ∈ lit "INFO" :: (bssEvents ++ connectionEvents ++ stationEvents), IsAtomName p := by
  decide +kernel

theorem notif_ctrlReq (rest : Binary) :
    notif (lit "CTRL-REQ-" ++ rest) = notifCtrlReq rest := by
  rw [notif, dropPrefix?_append]

theorem notif_bss {tag : Atom} (htag : tag.name ∈ bssEvents) (rest : Binary) :
    notif (tag.name ++ rest) = notifBss tag rest := by
  obtain ⟨name, valid⟩ := tag
  simp only [bssEvents, List.mem_cons, List.not_mem_nil, or_false] at htag
  rcases htag with rfl | rfl <;>
    simp (disch := decide) only [notif, dropPrefix?_append_eq_none, dropPrefix?_append] <;>
    rfl

theorem notif_connection {tag : Atom} (htag : tag.name ∈ connectionEvents) (rest : Binary) :
    notif (tag.name ++ rest) = .ok (.bare tag) := by
  obtain ⟨name, valid⟩ := tag
  simp only [connectionEvents, List.mem_cons, List.not_mem_nil, or_false] at htag
  rcases htag with rfl | rfl <;>
    simp (disch := decide) only [notif, dropPrefix?_append_eq_none, dropPrefix?_append] <;>
    rfl

theorem notif_station {tag : Atom} (htag : tag.name ∈ stationEvents) (mac : Binary) :
    notif (tag.name ++ lit " " ++ mac) = .ok (.tagged tag (rstrip mac)) := by
  obtain ⟨name, valid⟩ := tag
  simp only [stationEvents, List.mem_cons, List.not_mem_nil, or_false] at htag
  rcases htag with rfl | rfl
  · have hfront : lit "AP-STA-CONNECTED" ++ lit " " = lit "AP-STA-CONNECTED " := by decide
    simp (disch := decide) only [hfront, notif, dropPrefix?_append_eq_none,
      dropPrefix?_append]
    rfl
  · have hfront : lit "AP-STA-DISCONNECTED" ++ lit " " = lit "AP-STA-DISCONNECTED " := by
      decide
    simp (disch := decide) only [hfront, notif, dropPrefix?_append_eq_none,
      dropPrefix?_append]
    rfl

theorem notif_of_isAtomEvent {s : Binary} (h : IsAtomEvent s) :
    notif s = notifAtom s := by
  obtain ⟨⟨p, hp, rest, rfl⟩, hnamed⟩ := h
  have hnone (q : Binary) (hq : q ∈ bssEvents ++ connectionEvents) :
      (p ++ rest).dropPrefix? q = none :=
    dropPrefix?_eq_none (hnamed q hq)
  have hadded := hnone (lit "CTRL-EVENT-BSS-ADDED") (by decide)
  have hremoved := hnone (lit "CTRL-EVENT-BSS-REMOVED") (by decide)
  have hconnected := hnone (lit "CTRL-EVENT-CONNECTED") (by decide)
  have hdisconnected := hnone (lit "CTRL-EVENT-DISCONNECTED") (by decide)
  simp only [atomFronts, List.mem_cons, List.not_mem_nil, or_false] at hp
  rcases hp with rfl | rfl <;>
    simp (disch := decide) only [notif, hadded, hremoved, hconnected, hdisconnected,
      dropPrefix?_append_eq_none, dropPrefix?_append]

theorem notif_of_forall_not_isPrefix
    {tag : Atom} (htag : tag.name = lit "INFO")
    {s : Binary} (h : ∀ p ∈ eventFronts, ¬ p <+: s) :
    notif s = .ok (.tagged tag (rstrip s)) := by
  obtain ⟨name, valid⟩ := tag
  subst htag
  have hnone (q : Binary) (hq : q ∈ eventFronts) : s.dropPrefix? q = none :=
    dropPrefix?_eq_none (h q hq)
  simp (disch := decide) only [notif, hnone]
  rfl

/-- What a scan entry event decodes to. -/
theorem notifBss_eq_ok_iff {tag : Atom} {rest : Binary} {n : Notif} :
    notifBss tag rest = .ok n ↔
      ∃ entryId bssid, splitTrim rest ' '.toUInt8 = [entryId, bssid] ∧
        IsNumeral 10 entryId ∧ n = .numbered tag (numeralValue 10 entryId) bssid := by
  constructor
  · intro h
    obtain ⟨entryId, bssid, hsplit, hnum⟩ :=
      (notifBss_returns_iff tag rest).mp ⟨n, h⟩
    refine ⟨entryId, bssid, hsplit, hnum, ?_⟩
    simp only [notifBss, hsplit, toInteger_of_isNumeral hnum] at h
    exact (Except.ok.inj h).symm
  · rintro ⟨entryId, bssid, hsplit, hnum, rfl⟩
    simp only [notifBss, hsplit, toInteger_of_isNumeral hnum]
    rfl

/-- What an interactive request decodes to. -/
theorem notifCtrlReq_eq_ok_iff {rest : Binary} {n : Notif} :
    notifCtrlReq rest = .ok n ↔
      ∃ (tag : Atom) (field netId text : Binary),
        splitParts rest '-'.toUInt8 3 = [field, netId, text] ∧
          tag.name = lit "CTRL-REQ-" ++ field ∧ IsNumeral 10 netId ∧
          n = .numbered tag (numeralValue 10 netId) text := by
  constructor
  · intro h
    obtain ⟨field, netId, text, hsplit, hname, hnum⟩ :=
      (notifCtrlReq_returns_iff rest).mp ⟨n, h⟩
    refine ⟨⟨_, hname⟩, field, netId, text, hsplit, rfl, hnum, ?_⟩
    simp only [notifCtrlReq, hsplit, toAtom, dif_pos hname,
      toInteger_of_isNumeral hnum] at h
    exact (Except.ok.inj h).symm
  · rintro ⟨⟨name, hname⟩, field, netId, text, hsplit, rfl, hnum, rfl⟩
    simp only [notifCtrlReq, hsplit, toAtom, dif_pos hname, toInteger_of_isNumeral hnum]
    rfl

/-- What an event of the whole line decodes to. -/
theorem notifAtom_eq_ok_iff {event : Binary} {n : Notif} :
    notifAtom event = .ok n ↔ ∃ tag : Atom, tag.name = rstrip event ∧ n = .bare tag := by
  constructor
  · intro h
    have hname := (notifAtom_returns_iff event).mp ⟨n, h⟩
    refine ⟨⟨_, hname⟩, rfl, ?_⟩
    simp only [notifAtom, toAtom, dif_pos hname] at h
    exact (Except.ok.inj h).symm
  · rintro ⟨⟨name, hname⟩, rfl, rfl⟩
    simp only [notifAtom, toAtom, dif_pos hname]
    rfl

/-- Every text reaches one of the clauses. -/
theorem notif_cases (s : Binary) :
    (∃ rest, s = lit "CTRL-REQ-" ++ rest) ∨
      (∃ tag : Atom, tag.name ∈ bssEvents ∧ ∃ rest, s = tag.name ++ rest) ∨
      (∃ tag : Atom, tag.name ∈ connectionEvents ∧ ∃ rest, s = tag.name ++ rest) ∨
      IsAtomEvent s ∨
      (∃ tag : Atom, tag.name ∈ stationEvents ∧ ∃ mac, s = tag.name ++ lit " " ++ mac) ∨
      ∀ p ∈ eventFronts, ¬ p <+: s := by
  have htag (p : Binary) (hp : p ∈ bssEvents ++ connectionEvents ++ stationEvents) :
      ∃ tag : Atom, tag.name = p :=
    ⟨⟨p, isAtomName_of_mem p (List.mem_cons_of_mem _ hp)⟩, rfl⟩
  by_cases hnamed : ∃ p ∈ bssEvents ++ connectionEvents, p <+: s
  · obtain ⟨p, hp, rest, rfl⟩ := hnamed
    obtain ⟨tag, rfl⟩ := htag p (List.mem_append_left _ hp)
    rcases List.mem_append.mp hp with hbss | hconnection
    · exact .inr (.inl ⟨tag, hbss, rest, rfl⟩)
    · exact .inr (.inr (.inl ⟨tag, hconnection, rest, rfl⟩))
  push Not at hnamed
  by_cases hatom : ∃ p ∈ atomFronts, p <+: s
  · exact .inr (.inr (.inr (.inl ⟨hatom, hnamed⟩)))
  by_cases hreq : lit "CTRL-REQ-" <+: s
  · obtain ⟨rest, rfl⟩ := hreq
    exact .inl ⟨rest, rfl⟩
  by_cases hstation : ∃ p ∈ stationEvents, p ++ lit " " <+: s
  · obtain ⟨p, hp, mac, rfl⟩ := hstation
    obtain ⟨tag, rfl⟩ := htag p (List.mem_append_right _ hp)
    exact .inr (.inr (.inr (.inr (.inl ⟨tag, hp, mac, rfl⟩))))
  · push Not at hatom hstation
    refine .inr (.inr (.inr (.inr (.inr ?_))))
    intro p hp
    simp only [eventFronts, List.mem_cons, List.mem_append, List.mem_map] at hp
    rcases hp with rfl | ((hp | hp) | hp) | ⟨q, hq, rfl⟩
    · exact hreq
    · exact hnamed p (List.mem_append_left _ hp)
    · exact hnamed p (List.mem_append_right _ hp)
    · exact hatom p hp
    · exact hstation q hq

end Decode
end WpaSupplicant
