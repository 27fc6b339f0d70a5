import WpaSupplicant.MacAddresses
import WpaSupplicant.MessageDecoding
import WpaSupplicant.SeparatedTokens

/-!
# Setting and reading back a string option

`encode` appends a string option quoted, or bare when it takes it for a MAC
address; `resp` takes the quotes off the reply to `GET_NETWORK`.

* `not_infix_of_isMacAddress`: the strings left bare hold no white space and no
  quote;
* `readsBack_iff`: an option is read back as it was set unless it ends in a
  quote.
-/

namespace WpaSupplicant

open ElixirString Encode Decode

/-- `{:SET_NETWORK, n, k, v}`. -/
def setNetwork (n : Int) (k : Atom) (v : Binary) : Term :=
  .tuple [.atom .setNetwork, .int n, .atom k, .binary v]

/-- `{:GET_NETWORK, n, k}`. -/
def getNetwork (n : Int) (k : Atom) : Term :=
  .tuple [.atom (.lit "GET_NETWORK"), .int n, .atom k]

/-- The text of `setNetwork n k v` in front of its last argument. -/
def settingText (n : Int) (k : Atom) : Binary :=
  lit "SET_NETWORK" ++ lit " " ++ decimal n ++ lit " " ++
    (if k = Atom.nil then [] else k.name) ++ lit " "

/--
The argument text that is appended for the option, with or without a newline,
is decoded as the option.
-/
def ReadsBack (U : GraphemeTable) (n : Int) (k : Atom) (v : Binary) : Prop :=
  ∃ t, encode U (setNetwork n k v) = .ok (settingText n k ++ t) ∧
    ∀ final ∈ [[], lit "\n"], resp (getNetwork n k) (t ++ final) = .ok (.text v)

/-- The last character is a double quote. -/
def EndsInQuote (v : Binary) : Prop :=
  ['"'.toUInt8] <:+ v

instance (v : Binary) : Decidable (EndsInQuote v) :=
  inferInstanceAs (Decidable (_ <:+ _))

theorem encode_setNetwork (U : GraphemeTable) (n : Int) (k : Atom) (v : Binary) :
    encode U (setNetwork n k v) = .ok (settingText n k ++ encodeBinaryArg U v) := by
  have hcmd : (if Atom.setNetwork = Atom.nil then ([] : Binary)
      else (Atom.setNetwork).name) = lit "SET_NETWORK" := by
    decide +kernel
  simp only [setNetwork, encode, encodeArg, Term.toString, hcmd]
  rfl

section Decoding

variable (n : Int) (k : Atom)

/-- The reply to `GET_NETWORK` reaches the last clauses of `tresp`. -/
theorem tresp_getNetwork (s : Binary) :
    tresp (getNetwork n k) s =
      if s = lit "OK" then .ok (.atom .ok)
      else if s = lit "FAIL" then .ok (.atom .fail)
      else if let some string := s.dropPrefix? (lit "\"") then
        .ok (.text (rstripChar string '"'))
      else
        .ok (.text s) := by
  rfl

theorem quotes_not_mem_whitespace : ∀ p ∈ whitespace.pats, '"'.toUInt8 ∉ p :=
  not_mem_whitespace (by decide) (by decide)

/-- Quotes protect the option from the stripping of the whole reply. -/
theorem strip_quote
    (v : Binary) {final : Binary} (hfinal : final ∈ [[], lit "\n"]) :
    strip (quote v ++ final) = quote v := by
  obtain ⟨ws, rfl, hws⟩ := newline_eq_flatten hfinal
  have hquote : quote v = '"'.toUInt8 :: (v ++ ['"'.toUInt8]) := rfl
  have hahead : whitespace.NoneAhead (quote v) := by
    rw [hquote]
    exact whitespace.noneAhead_cons quotes_not_mem_whitespace _
  have hbehind : whitespace.NoneBehind (quote v) := by
    have := whitespace.noneBehind_append_cons quotes_not_mem_whitespace
      ('"'.toUInt8 :: v) whitespace.noneBehind_nil
    rwa [List.cons_append] at this
  exact strip_append_flatten (by simp [hquote]) hahead hbehind hws

/-- The decoder takes off the opening quote and every quote at the end. -/
theorem resp_quote
    (v : Binary) {final : Binary} (hfinal : final ∈ [[], lit "\n"]) :
    resp (getNetwork n k) (quote v ++ final) =
      .ok (.text (rstripChar (v ++ lit "\"") '"')) := by
  have hok : quote v ≠ lit "OK" := by
    intro h
    cases h
  have hfail : quote v ≠ lit "FAIL" := by
    intro h
    cases h
  have hdrop : (quote v).dropPrefix? (lit "\"") = some (v ++ lit "\"") := by
    rw [quote, List.append_assoc, dropPrefix?_append]
  rw [resp, strip_quote v hfinal, tresp_getNetwork, if_neg hok, if_neg hfail, hdrop]

theorem rstripChar_quote_eq_self_iff (v : Binary) :
    rstripChar (v ++ lit "\"") '"' = v ↔ ¬ EndsInQuote v := by
  have hpats : (Utf8.charPatterns ['"']).pats = [['"'.toUInt8]] := by decide
  have hstrip : rstripChar (v ++ lit "\"") '"' = rstripChar v '"' := by
    have hws : ∀ w ∈ [lit "\""], w ∈ (Utf8.charPatterns ['"']).pats := by
      rw [hpats]
      decide
    simpa [rstripChar] using (Utf8.charPatterns ['"']).trimEnd_append_of_mem hws v
  rw [hstrip]
  constructor
  · intro h hquote
    have hbehind := (Utf8.charPatterns ['"']).noneBehind_trimEnd v
    rw [← rstripChar, h] at hbehind
    exact hbehind _ (by rw [hpats]; simp) hquote
  · intro h
    apply (Utf8.charPatterns ['"']).trimEnd_of_noneBehind
    intro p hp
    rw [hpats, List.mem_singleton] at hp
    rw [hp]
    exact h

end Decoding

section MacLike

variable {U : GraphemeTable} {v : Binary}

/-- White space and quotes, which the decoder takes off the ends of a reply. -/
def Stripped (c : Char) : Prop :=
  c ∈ whitespaceChars ∨ c = '"'

theorem Plain.not_stripped {c : Char} (h : Plain c) : ¬ Stripped c := by
  have hws : ∀ d ∈ whitespaceChars, d.toNat ≤ 32 ∨ 127 ≤ d.toNat := by
    simp [whitespaceChars]
  obtain ⟨hlow, hhigh, hquote⟩ := h
  rintro (hc | hc)
  · rcases hws c hc with h | h <;> omega
  · exact hquote hc

/-- What is stripped is neither joined to what precedes it nor joins what follows. -/
theorem Stripped.breakClass
    {c : Char} (h : Stripped c) :
    (U.breakClass c).breaksAround = true ∨ U.breakClass c = .other := by
  rcases h with h | rfl
  · exact U.space c h
  · exact .inr (U.printable _ (by decide) (by decide))

/-- Neither white space nor a quote is read in a string left bare. -/
theorem not_mem_units_of_isMacAddress
    (h : isMacAddress U v = true) {c : Char} (hc : Stripped c) :
    .inl c ∉ Utf8.units v := by
  obtain ⟨front, mac, rest, rfl, hmac, hfront, hrest⟩ := isMacAddress_iff.mp h
  obtain ⟨ms, hunits, _, hplain⟩ := units_around_mac hmac front rest
  have hclass := hc.breakClass (U := U)
  rw [hunits, List.mem_append, List.mem_append]
  rintro (hmem | hmem | hmem)
  · have hprepend := hfront _ hmem
    rw [unitClass] at hprepend
    simp [hprepend, Grapheme.Class.breaksAround] at hclass
  · obtain ⟨d, hd, hdplain⟩ := hplain _ hmem
    cases hd
    exact hdplain.not_stripped hc
  · have hjoins := hrest _ hmem
    rw [unitClass] at hjoins
    rcases hclass with hbreak | hother
    · cases hc' : U.breakClass c <;>
        simp [hc', Grapheme.Class.joinsBack, Grapheme.Class.breaksAround] at hjoins hbreak
    · simp [hother, Grapheme.Class.joinsBack] at hjoins

/-- Neither white space nor a quote stands in a string left bare. -/
theorem not_infix_of_isMacAddress
    (h : isMacAddress U v = true) {c : Char} (hc : Stripped c) :
    ¬ String.utf8EncodeChar c <:+: v := by
  rintro ⟨front, rest, rfl⟩
  apply not_mem_units_of_isMacAddress h hc
  rw [List.append_assoc, Utf8.units_append front (Utf8.atBoundary_encode_append c rest),
    Utf8.units_encode_append]
  simp

theorem length_of_isMacAddress (h : isMacAddress U v = true) : 17 ≤ v.length := by
  obtain ⟨front, mac, rest, rfl, hmac, _⟩ := isMacAddress_iff.mp h
  have hlen := hmac.2
  rw [List.length_append, List.length_append]
  omega

/-- A string left bare comes back as it is. -/
theorem resp_of_isMacAddress
    (n : Int) (k : Atom) (h : isMacAddress U v = true)
    {final : Binary} (hfinal : final ∈ [[], lit "\n"]) :
    resp (getNetwork n k) (v ++ final) = .ok (.text v) := by
  obtain ⟨ws, rfl, hws⟩ := newline_eq_flatten hfinal
  have hlen := length_of_isMacAddress h
  have hahead : whitespace.NoneAhead v := by
    rw [whitespace, Utf8.noneAhead_charPatterns_iff]
    exact fun c hc hpre => not_infix_of_isMacAddress h (.inl hc) hpre.isInfix
  have hbehind : whitespace.NoneBehind v := by
    rw [whitespace, Utf8.noneBehind_charPatterns_iff]
    exact fun c hc hsuf => not_infix_of_isMacAddress h (.inl hc) hsuf.isInfix
  have hne : v ≠ [] := by
    rintro rfl
    exact absurd hlen (by decide)
  have hok : v ≠ lit "OK" := by
    rintro rfl
    exact absurd hlen (by decide)
  have hfail : v ≠ lit "FAIL" := by
    rintro rfl
    exact absurd hlen (by decide)
  have hdrop : v.dropPrefix? (lit "\"") = none :=
    dropPrefix?_eq_none fun hpre => not_infix_of_isMacAddress h (.inr rfl) hpre.isInfix
  rw [resp, strip_append_flatten hne hahead hbehind hws, tresp_getNetwork, if_neg hok,
    if_neg hfail, hdrop]

end MacLike

/-- An option is read back as it was set unless it ends in a double quote. -/
theorem readsBack_iff (U : GraphemeTable) (n : Int) (k : Atom) (v : Binary) :
    ReadsBack U n k v ↔ ¬ EndsInQuote v := by
  have happended (t : Binary)
      (ht : encode U (setNetwork n k v) = .ok (settingText n k ++ t)) :
      t = encodeBinaryArg U v := by
    rw [encode_setNetwork, Except.ok.injEq, List.append_right_inj] at ht
    exact ht.symm
  by_cases hmac : isMacAddress U v = true
  · have hbare : encodeBinaryArg U v = v := if_pos hmac
    have hquote : ¬ EndsInQuote v := fun hsuf =>
      not_infix_of_isMacAddress hmac (c := '"') (.inr rfl) hsuf.isInfix
    simp only [hquote, not_false_eq_true, iff_true]
    refine ⟨v, by rw [encode_setNetwork, hbare], ?_⟩
    exact fun final hfinal => resp_of_isMacAddress n k hmac hfinal
  · have hquoted : encodeBinaryArg U v = quote v := if_neg hmac
    rw [← rstripChar_quote_eq_self_iff]
    constructor
    · rintro ⟨t, ht, hresp⟩
      have h := hresp [] (by simp)
      rw [happended t ht, hquoted, resp_quote n k v (by simp)] at h
      simpa using h
    · intro h
      refine ⟨quote v, by rw [encode_setNetwork, hquoted], ?_⟩
      intro final hfinal
      rw [resp_quote n k v hfinal, h]

/-- An identity that ends in a quote loses it. -/
theorem not_readsBack_trailing_quote :
    ¬ ReadsBack .latin 0 (.lit "identity") (lit "a\"") := by
  rintro ⟨t, ht, hresp⟩
  have hargument : t = lit "\"a\"\"" := by
    rw [encode_setNetwork, Except.ok.injEq, List.append_right_inj] at ht
    rw [← ht]
    decide +kernel
  have h := hresp [] (by simp)
  rw [hargument] at h
  exact absurd h (by decide +kernel)

end WpaSupplicant
