import WpaSupplicant.BridgeMachine
import WpaSupplicant.ServerHandlers

/-!
# The two classifiers of supplicant messages

`wpa_ctrl_request` tells replies from unsolicited messages by their first byte,
`handle_wpa` by a binary pattern.  They part company on the messages that start
with `<` and do not go on as the pattern wants.
-/

namespace WpaSupplicant

open WpaEx (unsolicited)

/--
What wpa_ex does not count as a reply is exactly what the server takes for a
notification, and it leaves the pending requests alone.
-/
structure ClassifiersAgree (d : Binary) : Prop where
  iff : unsolicited d = true ↔ (Server.notification? d).isSome
  requests_eq : unsolicited d = true →
    ∀ self state effects state',
      Server.handleWpa self d state = .ok (.continue effects state') →
      state'.requests = state.requests

/-- A single code point stands between `<` and `>`. -/
def HasPriority (d : Binary) : Prop :=
  ∃ (priority : Char) (text : Binary),
    d = '<'.toUInt8 :: (String.utf8EncodeChar priority ++ '>'.toUInt8 :: text)

theorem unsolicited_iff (d : Binary) :
    unsolicited d = true ↔ ∃ rest, d = '<'.toUInt8 :: rest := by
  cases d with
  | nil =>
      simp [unsolicited]
  | cons x rest =>
      simp [unsolicited]

theorem isSome_notification?_iff (d : Binary) :
    (Server.notification? d).isSome ↔ HasPriority d := by
  rw [Option.isSome_iff_exists]
  constructor
  · rintro ⟨text, h⟩
    obtain ⟨priority, hd⟩ := Server.notification?_eq_some_iff.mp h
    exact ⟨priority, text, hd⟩
  · rintro ⟨priority, text, hd⟩
    exact ⟨text, Server.notification?_eq_some_iff.mpr ⟨priority, hd⟩⟩

theorem HasPriority.unsolicited {d : Binary} (h : HasPriority d) :
    unsolicited d = true := by
  obtain ⟨priority, text, rfl⟩ := h
  exact (unsolicited_iff _).mpr ⟨_, rfl⟩

/-- The notification clause gives the event away and keeps the queue. -/
theorem requests_eq_of_notification
    {self : Pid} {message text : Binary} {state state' : ServerState}
    {effects : List Effect}
    (hmessage : Server.notification? message = some text)
    (h : Server.handleWpa self message state = .ok (.continue effects state')) :
    state'.requests = state.requests := by
  rw [Server.handleWpa, hmessage] at h
  cases hnotif : Decode.notif text with
  | error e =>
      simp only [hnotif] at h
      cases h
  | ok n =>
      simp only [hnotif] at h
      cases h
      rfl

/-- The classifiers agree unless a `<` is not followed by one code point and `>`. -/
theorem classifiersAgree_iff (d : Binary) :
    ClassifiersAgree d ↔ d.head? ≠ some '<'.toUInt8 ∨ HasPriority d := by
  have hhead : unsolicited d = true ↔ d.head? = some '<'.toUInt8 := by
    simp [unsolicited]
  constructor
  · intro h
    by_cases hd : d.head? = some '<'.toUInt8
    · right
      exact (isSome_notification?_iff d).mp (h.iff.mp (hhead.mpr hd))
    · exact .inl hd
  · intro h
    have hiff : unsolicited d = true ↔ (Server.notification? d).isSome := by
      rw [isSome_notification?_iff]
      constructor
      · intro hd
        exact h.resolve_left (fun hne => hne (hhead.mp hd))
      · exact HasPriority.unsolicited
    refine ⟨hiff, ?_⟩
    intro hd self state effects state' hhandle
    obtain ⟨text, htext⟩ := Option.isSome_iff_exists.mp (hiff.mp hd)
    exact requests_eq_of_notification htext hhandle

/-- A priority of two digits is no code point. -/
theorem not_classifiersAgree_two_digits :
    ¬ ClassifiersAgree (lit "<10>CTRL-EVENT-SCAN-RESULTS ") := by
  intro h
  exact absurd (h.iff.mp rfl) (by decide)

end WpaSupplicant
