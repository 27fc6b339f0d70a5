import WpaSupplicant.RequestEncoding

/-!
# MAC addresses among the strings

`encode_arg` leaves a string bare when it counts 17 characters and a MAC address
stands somewhere in it.  Characters that add no cluster do not count.

* `units_around_mac`: how a string with a MAC address in it is read;
* `isMacAddress_iff`: which strings are left bare;
* `onlyMacBare_iff`: which strings are quoted as they should be.
-/

namespace WpaSupplicant

open ElixirString Encode

/-- A visible ASCII character other than a double quote. -/
def Plain (c : Char) : Prop :=
  32 < c.toNat ∧ c.toNat < 127 ∧ c ≠ '"'

/-- The bytes of a MAC address. -/
def IsMacByte (x : UInt8) : Prop :=
  IsDigit 16 x ∨ x = ':'.toUInt8

theorem IsMacByte.toNat_bounds {x : UInt8} (h : IsMacByte x) :
    48 ≤ x.toNat ∧ x.toNat < 123 := by
  rcases h with ⟨d, hd, _⟩ | rfl
  · simp only [digitValue, UInt8.le_iff_toNat_le] at hd
    have h0 : '0'.toUInt8.toNat = 48 := rfl
    have h9 : '9'.toUInt8.toNat = 57 := rfl
    have ha : 'a'.toUInt8.toNat = 97 := rfl
    have hz : 'z'.toUInt8.toNat = 122 := rfl
    have hA : 'A'.toUInt8.toNat = 65 := rfl
    have hZ : 'Z'.toUInt8.toNat = 90 := rfl
    rw [h0, h9, ha, hz, hA, hZ] at hd
    split at hd
    · omega
    · split at hd
      · omega
      · split at hd
        · omega
        · simp at hd
  · decide

theorem IsMacByte.plain {x : UInt8} (h : IsMacByte x) :
    Plain (Char.ofNat x.toNat) ∧ String.utf8EncodeChar (Char.ofNat x.toNat) = [x] := by
  have hbounds := h.toNat_bounds
  have hvalid : x.toNat.isValidChar := Or.inl (by omega)
  have hchar : (Char.ofNat x.toNat).toNat = x.toNat := by
    rw [Char.ofNat, dif_pos hvalid]
    rfl
  refine ⟨⟨by omega, by omega, ?_⟩, ?_⟩
  · intro hquote
    rw [hquote] at hchar
    have : '"'.toNat = 34 := rfl
    omega
  · rw [Utf8.encodeChar_of_ascii (by omega), hchar, UInt8.ofNat_toNat]

/-- Six pairs of hexadecimal digits separated by colons, and nothing else. -/
def IsMac (s : Binary) : Prop :=
  isMacPrefix s = true ∧ s.length = 17

instance (s : Binary) : Decidable (IsMac s) :=
  inferInstanceAs (Decidable (_ ∧ _))

theorem IsMac.isMacByte {mac : Binary} (h : IsMac mac) : ∀ x ∈ mac, IsMacByte x := by
  obtain ⟨hfront, hlen⟩ := h
  unfold isMacPrefix at hfront
  split at hfront
  · next tail =>
      obtain rfl : tail = [] := by simpa using hlen
      simp only [List.all_cons, List.all_nil, Bool.and_true, Bool.and_eq_true,
        decide_eq_true_eq, beq_iff_eq] at hfront
      simp only [List.mem_cons, List.not_mem_nil, or_false, IsMacByte]
      rintro x hx
      rcases hx with rfl | rfl | rfl | rfl | rfl | rfl | rfl | rfl | rfl | rfl | rfl |
        rfl | rfl | rfl | rfl | rfl | rfl <;> simp [hfront]
  · cases hfront

theorem exists_of_isMacPrefix {v : Binary} (h : isMacPrefix v = true) :
    ∃ mac rest, v = mac ++ rest ∧ IsMac mac := by
  refine ⟨v.take 17, v.drop 17, (List.take_append_drop 17 v).symm, ?_⟩
  unfold isMacPrefix at h
  split at h
  · exact ⟨h, rfl⟩
  · cases h

theorem IsMac.isMacPrefix_append {mac : Binary} (h : IsMac mac) (rest : Binary) :
    isMacPrefix (mac ++ rest) = true := by
  have hfront := h.1
  unfold isMacPrefix at hfront
  split at hfront
  · exact hfront
  · cases hfront

/-- Visible ASCII bytes are read as themselves, and each is a plain character. -/
theorem units_mac_append
    {mac : Binary} (hmac : ∀ x ∈ mac, IsMacByte x) (rest : Binary) :
    ∃ ms, Utf8.units (mac ++ rest) = ms ++ Utf8.units rest ∧
      ms.length = mac.length ∧ ∀ m ∈ ms, ∃ c, m = .inl c ∧ Plain c := by
  induction mac with
  | nil =>
      exact ⟨[], by simp⟩
  | cons x mac ih =>
      obtain ⟨ms, hms, hlen, hplain⟩ := ih (fun y hy => hmac y (List.mem_cons_of_mem _ hy))
      obtain ⟨hx, hencode⟩ := (hmac x (by simp)).plain
      have hunit := Utf8.units_encode_append (Char.ofNat x.toNat) (mac ++ rest)
      rw [hencode] at hunit
      refine ⟨.inl (Char.ofNat x.toNat) :: ms, ?_, by simp [hlen], ?_⟩
      · rw [List.cons_append, ← List.singleton_append, hunit, hms, List.cons_append]
      · rintro m (_ | ⟨_, hm⟩)
        · exact ⟨_, rfl, hx⟩
        · exact hplain m hm

section Bare

variable {U : GraphemeTable}

/-- A MAC address is read as 17 plain characters, whatever stands around it. -/
theorem units_around_mac
    {mac : Binary} (hmac : IsMac mac) (front rest : Binary) :
    ∃ ms, Utf8.units (front ++ (mac ++ rest)) =
        Utf8.units front ++ (ms ++ Utf8.units rest) ∧
      ms.length = 17 ∧ ∀ m ∈ ms, ∃ c, m = .inl c ∧ Plain c := by
  obtain ⟨ms, hms, hlen, hplain⟩ := units_mac_append hmac.isMacByte rest
  have hboundary : Utf8.AtBoundary (mac ++ rest) := by
    intro x hx
    cases mac with
    | nil =>
        cases hmac.2
    | cons y mac =>
        obtain rfl : y = x := by simpa using hx
        have := (hmac.isMacByte y (by simp)).toNat_bounds
        simp only [Utf8.IsContinuation]
        omega
  exact ⟨ms, by rw [Utf8.units_append front hboundary, hms], by rw [hlen, hmac.2], hplain⟩

/-- What stands around a MAC address adds no cluster to it. -/
theorem length_around_mac_iff
    {mac : Binary} (hmac : IsMac mac) (front rest : Binary) :
    ElixirString.length U (front ++ (mac ++ rest)) = 17 ↔
      (∀ u ∈ Utf8.units front, unitClass U u = .prepend) ∧
        ∀ u ∈ Utf8.units rest, (unitClass U u).joinsBack = true := by
  obtain ⟨ms, hunits, hlen, hplain⟩ := units_around_mac hmac front rest
  have hclasses : ms.map (unitClass U) = List.replicate (16 + 1) .other := by
    rw [List.eq_replicate_iff]
    refine ⟨by simp [hlen], ?_⟩
    intro x hx
    obtain ⟨m, hm, rfl⟩ := List.mem_map.mp hx
    obtain ⟨c, rfl, hlow, hhigh, _⟩ := hplain m hm
    exact U.printable c hlow.le hhigh
  rw [ElixirString.length, hunits, List.map_append, List.map_append, hclasses,
    Grapheme.clusters_eq_run_iff, List.forall_mem_map, List.forall_mem_map]

/-- The strings left bare are a MAC address among characters that add no cluster to it. -/
theorem isMacAddress_iff {s : Binary} :
    isMacAddress U s = true ↔
      ∃ front mac rest, s = front ++ (mac ++ rest) ∧ IsMac mac ∧
        (∀ u ∈ Utf8.units front, unitClass U u = .prepend) ∧
          ∀ u ∈ Utf8.units rest, (unitClass U u).joinsBack = true := by
  simp only [isMacAddress, matchesMac, Bool.and_eq_true, beq_iff_eq, List.any_eq_true,
    List.mem_tails]
  constructor
  · rintro ⟨hlength, tail, ⟨front, rfl⟩, htail⟩
    obtain ⟨mac, rest, rfl, hmac⟩ := exists_of_isMacPrefix htail
    exact ⟨front, mac, rest, rfl, hmac, (length_around_mac_iff hmac front rest).mp hlength⟩
  · rintro ⟨front, mac, rest, rfl, hmac, haround⟩
    exact ⟨(length_around_mac_iff hmac front rest).mpr haround, mac ++ rest, ⟨front, rfl⟩,
      hmac.isMacPrefix_append rest⟩

end Bare

/-- The string is left bare exactly when it is a MAC address, and quoted otherwise. -/
def OnlyMacBare (U : GraphemeTable) (s : Binary) : Prop :=
  (encodeArg U (.binary s) = .ok s ↔ IsMac s) ∧
    (¬ IsMac s → encodeArg U (.binary s) = .ok (quote s))

/-- A MAC address with something around it that adds no cluster. -/
def ExtendsMac (U : GraphemeTable) (s : Binary) : Prop :=
  ∃ front mac rest, s = front ++ (mac ++ rest) ∧ IsMac mac ∧ (front ≠ [] ∨ rest ≠ []) ∧
    (∀ u ∈ Utf8.units front, unitClass U u = .prepend) ∧
      ∀ u ∈ Utf8.units rest, (unitClass U u).joinsBack = true

theorem quote_ne_self (s : Binary) : quote s ≠ s := by
  intro h
  have := congrArg List.length h
  have hquote : (lit "\"").length = 1 := rfl
  simp only [quote, List.length_append, hquote] at this
  omega

theorem not_isMac_of_extendsMac {U : GraphemeTable} {s : Binary} (h : ExtendsMac U s) :
    ¬ IsMac s := by
  obtain ⟨front, mac, rest, rfl, hmac, haround, _⟩ := h
  rintro ⟨_, hlen⟩
  have hmaclen := hmac.2
  rw [List.length_append, List.length_append] at hlen
  rcases haround with hne | hne
  · have := List.length_pos_iff.mpr hne
    omega
  · have := List.length_pos_iff.mpr hne
    omega

/-- A bare string is a MAC address or extends one. -/
theorem isMacAddress_iff_isMac_or_extendsMac (U : GraphemeTable) (s : Binary) :
    isMacAddress U s = true ↔ IsMac s ∨ ExtendsMac U s := by
  rw [isMacAddress_iff]
  constructor
  · rintro ⟨front, mac, rest, rfl, hmac, hclasses⟩
    by_cases haround : front = [] ∧ rest = []
    · obtain ⟨rfl, rfl⟩ := haround
      exact .inl (by simpa using hmac)
    · exact .inr ⟨front, mac, rest, rfl, hmac, not_and_or.mp haround, hclasses⟩
  · rintro (hmac | ⟨front, mac, rest, rfl, hmac, _, hclasses⟩)
    · exact ⟨[], s, [], by simp, hmac, by simp, by simp⟩
    · exact ⟨front, mac, rest, rfl, hmac, hclasses⟩

theorem encodeArg_binary_eq_self_iff (U : GraphemeTable) (s : Binary) :
    encodeArg U (.binary s) = .ok s ↔ IsMac s ∨ ExtendsMac U s := by
  rw [← isMacAddress_iff_isMac_or_extendsMac, encodeArg, encodeBinaryArg, Except.ok.injEq]
  split
  · next h =>
      simp [h]
  · next h =>
      simp [h, quote_ne_self]

/-- A string is quoted as it should be exactly when it does not extend a MAC address. -/
theorem onlyMacBare_iff (U : GraphemeTable) (s : Binary) :
    OnlyMacBare U s ↔ ¬ ExtendsMac U s := by
  constructor
  · rintro ⟨hbare, _⟩ hextends
    exact not_isMac_of_extendsMac hextends
      (hbare.mp ((encodeArg_binary_eq_self_iff U s).mpr (.inr hextends)))
  · intro hextends
    refine ⟨by rw [encodeArg_binary_eq_self_iff, or_iff_left hextends], fun hmac => ?_⟩
    have hnot : ¬ isMacAddress U s = true := by
      rw [isMacAddress_iff_isMac_or_extendsMac]
      tauto
    rw [encodeArg, encodeBinaryArg, if_neg hnot]

/-- The classes with those of the combining diacritical marks. -/
def GraphemeTable.diacritics : GraphemeTable where
  breakClass c :=
    if 0x300 ≤ c.toNat ∧ c.toNat < 0x370 then .extend else GraphemeTable.latin.breakClass c
  printable := by
    intro c hlow hhigh
    rw [if_neg (by omega)]
    exact GraphemeTable.latin.printable c hlow hhigh
  space := by
    intro c hc
    have hspace : ∀ d ∈ whitespaceChars, ¬ (0x300 ≤ d.toNat ∧ d.toNat < 0x370) := by
      simp [whitespaceChars]
    rw [if_neg (hspace c hc)]
    exact GraphemeTable.latin.space c hc

/-- An acute accent on the last digit leaves an address bare. -/
theorem not_onlyMacBare_accent :
    ¬ OnlyMacBare .diacritics (lit "00:11:22:33:44:55\u0301") := by
  rintro ⟨hbare, _⟩
  have hmac := hbare.mp (by decide +kernel)
  exact absurd hmac (by decide +kernel)

end WpaSupplicant
