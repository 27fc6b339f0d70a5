import WpaSupplicant.NotificationClauses
import WpaSupplicant.SplitGrammar

/-!
# The language of the supplicant

What the supplicant may say, and what it means: a grammar of the replies to a command and
one of the notifications, in which a text is put together from its parts.  `resp` and
`notif` take texts apart.  They are the grammars: a text that is in one is decoded to its
meaning, and on any other text they raise.

* `kvResp_eq_ok_iff`: lines `key=value`, of which the last one for a key counts;
* `resp_eq_ok_iff`, `notif_eq_ok_iff`: the decoders are the grammars.
-/

namespace WpaSupplicant

namespace ElixirString

/-- What `String.strip` leaves stands between white space. -/
theorem strip_eq_iff {s t : Binary} :
    strip t = s ↔ whitespace.NoneAhead s ∧ whitespace.NoneBehind s ∧
      ∃ before after, IsBlank before ∧ IsBlank after ∧ t = before ++ s ++ after := by
  constructor
  · rintro rfl
    obtain ⟨hahead, before, hbefore, ht⟩ := whitespace.trimStart_eq_iff.mp (rfl : lstrip t = _)
    obtain ⟨hbehind, after, hafter, hl⟩ := whitespace.trimEnd_eq_iff.mp (rfl : strip t = _)
    refine ⟨fun p hp hpre => hahead p hp ?_, hbehind, before, after, hbefore, hafter, ?_⟩
    · rw [hl]
      exact hpre.trans (List.prefix_append _ _)
    · rw [List.append_assoc, ← hl]
      exact ht
  · rintro ⟨hahead, hbehind, _, _, ⟨ws, hws, rfl⟩, ⟨ws', hws', rfl⟩, rfl⟩
    by_cases hne : s = []
    · have hall : ∀ w ∈ ws ++ ws', w ∈ whitespace.pats := by
        intro w hw
        exact (List.mem_append.mp hw).elim (hws w) (hws' w)
      rw [hne, List.append_nil, ← List.flatten_append, strip_flatten hall]
    · exact strip_surrounded hne hahead hbehind hws hws'

/-- What `String.rstrip` leaves of a text with one character. -/
theorem rstripChar_quote_eq_iff {s t : Binary} :
    rstripChar t '"' = s ↔ ¬ lit "\"" <:+ s ∧ ∃ n, t = s ++ List.replicate n '"'.toUInt8 := by
  have hpats : (Utf8.charPatterns ['"']).pats = [lit "\""] := by decide +kernel
  have hbehind : (Utf8.charPatterns ['"']).NoneBehind s ↔ ¬ lit "\"" <:+ s := by
    rw [PatternSet.NoneBehind, hpats]
    simp
  have hflat (ws : List Binary) (hws : ∀ w ∈ ws, w ∈ [lit "\""]) :
      ws.flatten = List.replicate ws.length '"'.toUInt8 := by
    have hquote : lit "\"" = ['"'.toUInt8] := by decide
    induction ws with
    | nil =>
        rfl
    | cons w ws ih =>
        obtain rfl := List.mem_singleton.mp (hws w List.mem_cons_self)
        rw [List.flatten_cons, ih fun w hw => hws w (List.mem_cons_of_mem _ hw), hquote]
        rfl
  rw [rstripChar, PatternSet.trimEnd_eq_iff, hbehind]
  refine and_congr_right fun _ => ⟨?_, ?_⟩
  · rintro ⟨_, ⟨ws, hws, rfl⟩, rfl⟩
    rw [hpats] at hws
    exact ⟨ws.length, by rw [hflat ws hws]⟩
  · rintro ⟨n, rfl⟩
    have hws : ∀ w ∈ List.replicate n (lit "\""), w ∈ [lit "\""] := by
      intro w hw
      rw [List.eq_of_mem_replicate hw]
      exact List.mem_singleton_self _
    refine ⟨_, ⟨List.replicate n (lit "\""), ?_, rfl⟩, ?_⟩
    · rwa [hpats]
    · rw [hflat _ hws, List.length_replicate]

end ElixirString

namespace Decode

open ElixirString

section KeyValues

/-- The line `key=value`. -/
def pairText (p : Atom × Binary) : Binary :=
  p.1.name ++ '='.toUInt8 :: p.2

/-- The only `=` of the line is the one between key and value. -/
def IsPair (p : Atom × Binary) : Prop :=
  '='.toUInt8 ∉ p.1.name ∧ '='.toUInt8 ∉ p.2

/-- Lines `key=value`, and blank ones around and between them. -/
def KeyValues (s : Binary) (ps : List (Atom × Binary)) : Prop :=
  Spaced '\n'.toUInt8 s (ps.map pairText) ∧ ∀ p ∈ ps, IsPair p

/-- The last line for a key gives its value. -/
def Binds (ps : List (Atom × Binary)) (key : Atom) (v : KvValue) : Prop :=
  ∃ front value back, ps = front ++ (key, value) :: back ∧ key ∉ back.map Prod.fst ∧
    v = kvValue (rstrip value)

/-- The map of the lines, built up from the first line on. -/
def insertAll (ps : List (Atom × Binary)) (m : KvMap) : KvMap :=
  ps.foldl (fun m p => m.insert p.1 (kvValue (rstrip p.2))) m

theorem not_binds_nil (key : Atom) (v : KvValue) : ¬ Binds [] key v := by
  rintro ⟨front, value, back, h, _⟩
  simp at h

theorem binds_concat_self {ps : List (Atom × Binary)} {p : Atom × Binary} {v : KvValue} :
    Binds (ps ++ [p]) p.1 v ↔ v = kvValue (rstrip p.2) := by
  obtain ⟨key, value⟩ := p
  constructor
  · rintro ⟨front, value', back, h, hback, rfl⟩
    rcases List.eq_nil_or_concat back with rfl | ⟨back, q, rfl⟩
    · obtain ⟨_, hlast⟩ := List.append_inj' h rfl
      cases hlast
      rfl
    · rw [List.concat_eq_append, ← List.cons_append, ← List.append_assoc] at h
      obtain ⟨_, hlast⟩ := List.append_inj' h rfl
      cases hlast
      simp at hback
  · rintro rfl
    exact ⟨ps, value, [], rfl, List.not_mem_nil, rfl⟩

theorem binds_concat_of_ne
    {ps : List (Atom × Binary)} {p : Atom × Binary} {key : Atom} (hne : key ≠ p.1)
    {v : KvValue} :
    Binds (ps ++ [p]) key v ↔ Binds ps key v := by
  constructor
  · rintro ⟨front, value, back, h, hback, rfl⟩
    rcases List.eq_nil_or_concat back with rfl | ⟨back, q, rfl⟩
    · obtain ⟨_, hlast⟩ := List.append_inj' h rfl
      cases hlast
      exact absurd rfl hne
    · rw [List.concat_eq_append, ← List.cons_append, ← List.append_assoc] at h
      obtain ⟨rfl, _⟩ := List.append_inj' h rfl
      refine ⟨front, value, back, rfl, fun hmem => hback ?_, rfl⟩
      rw [List.concat_eq_append, List.map_append]
      exact List.mem_append_left _ hmem
  · rintro ⟨front, value, back, rfl, hback, rfl⟩
    refine ⟨front, value, back ++ [p], by simp, ?_, rfl⟩
    simp only [List.map_append, List.map_cons, List.map_nil, List.mem_append, not_or]
    exact ⟨hback, by simpa using hne⟩

theorem lookup_insertAll (ps : List (Atom × Binary)) (key : Atom) (v : KvValue) :
    (insertAll ps ∅).lookup key = some v ↔ Binds ps key v := by
  induction ps using List.reverseRecOn with
  | nil =>
      simp [insertAll, not_binds_nil]
  | append_singleton ps p ih =>
      rw [insertAll, List.foldl_append, List.foldl_cons, List.foldl_nil]
      by_cases hkey : key = p.1
      · subst hkey
        rw [Finmap.lookup_insert, binds_concat_self, Option.some.injEq, eq_comm]
      · rw [Finmap.lookup_insert_of_ne _ hkey, binds_concat_of_ne hkey]
        exact ih

theorem kvPair_eq_ok_iff {line : Binary} {kv : Atom × KvValue} :
    kvPair line = .ok kv ↔
      ∃ p, line = pairText p ∧ IsPair p ∧ kv = (p.1, kvValue (rstrip p.2)) := by
  constructor
  · intro h
    obtain ⟨key, value, hsplit, hname⟩ := (kvPair_returns_iff line).mp ⟨kv, h⟩
    simp only [kvPair, hsplit, toAtom, dif_pos hname] at h
    obtain ⟨hline, hkey, hvalue⟩ := splitOn_eq_pair_iff.mp hsplit
    exact ⟨(⟨key, hname⟩, value), hline, ⟨hkey, hvalue⟩, (Except.ok.inj h).symm⟩
  · rintro ⟨⟨⟨key, hname⟩, value⟩, rfl, ⟨hkey, hvalue⟩, rfl⟩
    have hsplit : split (pairText (⟨key, hname⟩, value)) '='.toUInt8 = [key, value] :=
      splitOn_eq_pair_iff.mpr ⟨rfl, hkey, hvalue⟩
    simp only [kvPair, hsplit, toAtom, dif_pos hname]
    rfl

/-- The loop goes through when every line is a pair. -/
theorem foldlM_kvPair_eq_ok_iff (lines : List Binary) (acc m : KvMap) :
    lines.foldlM
        (fun acc pair => do
          let kv ← kvPair pair
          return acc.insert kv.1 kv.2) acc = .ok m ↔
      ∃ ps, lines = ps.map pairText ∧ (∀ p ∈ ps, IsPair p) ∧ m = insertAll ps acc := by
  induction lines generalizing acc with
  | nil =>
      constructor
      · intro h
        exact ⟨[], rfl, fun _ hp => absurd hp List.not_mem_nil, (Except.ok.inj h).symm⟩
      · rintro ⟨ps, hlines, _, rfl⟩
        rw [List.map_eq_nil_iff.mp hlines.symm]
        rfl
  | cons line lines ih =>
      rw [List.foldlM_cons]
      constructor
      · intro h
        cases hpair : kvPair line with
        | error e =>
            rw [hpair] at h
            cases h
        | ok kv =>
            obtain ⟨p, rfl, hp, rfl⟩ := kvPair_eq_ok_iff.mp hpair
            rw [hpair] at h
            obtain ⟨ps, rfl, hps, rfl⟩ := (ih _).mp h
            exact ⟨p :: ps, rfl, List.forall_mem_cons.mpr ⟨hp, hps⟩, rfl⟩
      · rintro ⟨ps, hlines, hps, rfl⟩
        cases ps with
        | nil =>
            cases hlines
        | cons p ps =>
            obtain ⟨rfl, rfl⟩ := List.cons.inj hlines
            obtain ⟨hp, hps⟩ := List.forall_mem_cons.mp hps
            rw [kvPair_eq_ok_iff.mpr ⟨p, rfl, hp, rfl⟩]
            exact (ih _).mpr ⟨ps, rfl, hps, rfl⟩

/-- The map of a text has the last value of each of its keys. -/
theorem kvResp_eq_ok_iff {s : Binary} {m : KvMap} :
    kvResp s = .ok m ↔
      ∃ ps, KeyValues s ps ∧ ∀ key v, m.lookup key = some v ↔ Binds ps key v := by
  have hlines : splitTrim s '\n'.toUInt8 = tokens '\n'.toUInt8 s := rfl
  rw [kvResp, foldlM_kvPair_eq_ok_iff, hlines]
  constructor
  · rintro ⟨ps, htokens, hps, rfl⟩
    exact ⟨ps, ⟨tokens_eq_iff.mp htokens, hps⟩, lookup_insertAll ps⟩
  · rintro ⟨ps, ⟨hspaced, hps⟩, hm⟩
    refine ⟨ps, tokens_eq_iff.mpr hspaced, hps, Finmap.ext_lookup fun key => ?_⟩
    refine Option.ext fun v => ?_
    rw [lookup_insertAll]
    exact hm key v

end KeyValues

section Replies

/-- A command whose reply has no form of its own. -/
structure IsPlain (req : Term) : Prop where
  keyValues : isKvCommand req = false
  entry : isBss req = false
  interfaces : isAtom req "INTERFACES" = false
  addNetwork : isAtom req "ADD_NETWORK" = false

/-- The replies to a command, without white space around them, and their meaning. -/
inductive Answer (req : Term) : Binary → Reply → Prop
  | pong (hreq : isAtom req "PING" = true) :
      Answer req (lit "PONG") (.atom .pong)
  | keyValues
      {s : Binary} (ps : List (Atom × Binary)) {m : KvMap}
      (hreq : isKvCommand req = true ∨ isBss req = true ∧ s ≠ [])
      (hs : KeyValues s ps) (hm : ∀ key v, m.lookup key = some v ↔ Binds ps key v) :
      Answer req s (.map m)
  | noEntry (hreq : isBss req = true) :
      Answer req [] .nil
  | interfaces
      {ls : List Binary} (hreq : isAtom req "INTERFACES" = true)
      (hne : ls ≠ []) (hls : ∀ l ∈ ls, '\n'.toUInt8 ∉ l) :
      Answer req (['\n'.toUInt8].intercalate ls) (.lines ls)
  | network
      {s : Binary} (hreq : isAtom req "ADD_NETWORK" = true) (hs : IsNumeral 10 s) :
      Answer req s (.int (numeralValue 10 s))
  | ok (hreq : IsPlain req) :
      Answer req (lit "OK") (.atom .ok)
  | fail (hreq : IsPlain req) :
      Answer req (lit "FAIL") (.atom .fail)
  | quoted
      {s : Binary} (n : Nat) (hreq : IsPlain req) (hs : ¬ lit "\"" <:+ s) :
      Answer req (lit "\"" ++ (s ++ List.replicate n '"'.toUInt8)) (.text s)
  | text
      {s : Binary} (hreq : IsPlain req) (hpong : isAtom req "PING" = true → s ≠ lit "PONG")
      (hok : s ≠ lit "OK") (hfail : s ≠ lit "FAIL") (hquote : ¬ lit "\"" <+: s) :
      Answer req s (.text s)

variable {req : Term} {s t : Binary} {r : Reply}

theorem map_eq_ok_iff
    {α β : Type} {f : α → β} {x : Except Raise α} {b : β} :
    f <$> x = .ok b ↔ ∃ a, x = .ok a ∧ b = f a := by
  cases x with
  | error e =>
      simp [Functor.map, Except.map]
  | ok a =>
      simp [Functor.map, Except.map, eq_comm]

theorem toInteger_eq_ok_iff {base : Nat} {n : Int} :
    toInteger s base = .ok n ↔ IsNumeral base s ∧ n = numeralValue base s := by
  by_cases h : IsNumeral base s
  · simp [toInteger_of_isNumeral h, h, eq_comm]
  · simp [toInteger_of_not_isNumeral h, h]

/-- A command has at most one form of reply. -/
theorem isPlain_of_ping (h : isAtom req "PING" = true) : IsPlain req := by
  have hname (other : String) (hne : lit "PING" ≠ lit other) : isAtom req other = false :=
    isAtom_eq_false_of_isAtom h other hne
  refine ⟨?_, isBss_eq_false_of_isAtom h, hname _ (by decide), hname _ (by decide)⟩
  simp [isKvCommand, hname "MIB" (by decide), hname "STATUS" (by decide),
    hname "STATUS-VERBOSE" (by decide)]

theorem ping_eq_false (h : ¬ IsPlain req) : isAtom req "PING" = false := by
  by_contra hping
  exact h (isPlain_of_ping (by simpa using hping))

theorem isKvCommand_eq_false
    {name : String} (h : isAtom req name = true)
    (hne : lit name ∉ [lit "MIB", lit "STATUS", lit "STATUS-VERBOSE"]) :
    isKvCommand req = false := by
  simp only [List.mem_cons, List.not_mem_nil, or_false, not_or] at hne
  simp [isKvCommand, isAtom_eq_false_of_isAtom h "MIB" hne.1,
    isAtom_eq_false_of_isAtom h "STATUS" hne.2.1,
    isAtom_eq_false_of_isAtom h "STATUS-VERBOSE" hne.2.2]

theorem isKvCommand_eq_false_of_isBss (h : isBss req = true) : isKvCommand req = false := by
  cases req with
  | atom a =>
      cases h
  | _ =>
      rfl

theorem tresp_pong (h : isAtom req "PING" = true) :
    tresp req (lit "PONG") = .ok (.atom .pong) := by
  simp [tresp, h]

theorem tresp_keyValues (h : isKvCommand req = true ∨ isBss req = true ∧ s ≠ []) :
    tresp req s = Reply.map <$> kvResp s := by
  have hping : isAtom req "PING" = false := by
    refine ping_eq_false fun hplain => ?_
    simp [hplain.keyValues, hplain.entry] at h
  by_cases hkv : isKvCommand req = true
  · simp [tresp, hping, hkv]
  · obtain ⟨hbss, hne⟩ := h.resolve_left hkv
    simp [tresp, hping, hkv, hbss, hne]

theorem tresp_noEntry (h : isBss req = true) : tresp req [] = .ok .nil := by
  have hping : isAtom req "PING" = false := by
    refine ping_eq_false fun hplain => ?_
    simp [hplain.entry] at h
  simp [tresp, hping, isKvCommand_eq_false_of_isBss h, h]

theorem tresp_interfaces (h : isAtom req "INTERFACES" = true) :
    tresp req s = .ok (.lines (split s '\n'.toUInt8)) := by
  simp [tresp, isAtom_eq_false_of_isAtom h "PING" (by decide),
    isKvCommand_eq_false h (by decide), isBss_eq_false_of_isAtom h, h]

theorem tresp_addNetwork (h : isAtom req "ADD_NETWORK" = true) :
    tresp req s = Reply.int <$> toInteger s 10 := by
  simp [tresp, isAtom_eq_false_of_isAtom h "PING" (by decide),
    isKvCommand_eq_false h (by decide), isBss_eq_false_of_isAtom h,
    isAtom_eq_false_of_isAtom h "INTERFACES" (by decide), h]

theorem tresp_plain
    (h : IsPlain req) (hpong : isAtom req "PING" = true → s ≠ lit "PONG") :
    tresp req s =
      if s = lit "OK" then .ok (.atom .ok)
      else if s = lit "FAIL" then .ok (.atom .fail)
      else if let some string := s.dropPrefix? (lit "\"") then
        .ok (.text (rstripChar string '"'))
      else .ok (.text s) := by
  have hclause : ¬ (isAtom req "PING" = true ∧ s = lit "PONG") := fun hp => hpong hp.1 hp.2
  rw [tresp, if_neg hclause, h.keyValues, h.entry, h.interfaces, h.addNetwork]
  rfl

/-- Every command has one of the forms of reply. -/
theorem command_cases (req : Term) :
    isKvCommand req = true ∨ isBss req = true ∨ isAtom req "INTERFACES" = true ∨
      isAtom req "ADD_NETWORK" = true ∨ IsPlain req := by
  by_cases hkv : isKvCommand req = true
  · exact .inl hkv
  by_cases hbss : isBss req = true
  · exact .inr (.inl hbss)
  by_cases hinterfaces : isAtom req "INTERFACES" = true
  · exact .inr (.inr (.inl hinterfaces))
  by_cases hadd : isAtom req "ADD_NETWORK" = true
  · exact .inr (.inr (.inr (.inl hadd)))
  · simp only [Bool.not_eq_true] at hkv hbss hinterfaces hadd
    exact .inr (.inr (.inr (.inr ⟨hkv, hbss, hinterfaces, hadd⟩)))

theorem answer_of_plain (h : IsPlain req) (hs : tresp req s = .ok r) : Answer req s r := by
  by_cases hpong : isAtom req "PING" = true ∧ s = lit "PONG"
  · obtain ⟨hping, rfl⟩ := hpong
    rw [tresp_pong hping] at hs
    cases hs
    exact .pong hping
  have hpong' : isAtom req "PING" = true → s ≠ lit "PONG" := fun hping hs => hpong ⟨hping, hs⟩
  rw [tresp_plain h hpong'] at hs
  split at hs
  · next hok =>
      cases hs
      exact hok ▸ .ok h
  · next hok =>
      split at hs
      · next hfail =>
          cases hs
          exact hfail ▸ .fail h
      · next hfail =>
          split at hs
          · next string hstring =>
              cases hs
              obtain ⟨hend, n, hquotes⟩ := rstripChar_quote_eq_iff.mp
                (rfl : rstripChar string '"' = _)
              rw [dropPrefix?_eq_some_append.mp hstring]
              have hquoted := Answer.quoted n h hend
              rwa [← hquotes] at hquoted
          · next hnone =>
              cases hs
              refine .text h hpong' hok hfail fun ⟨rest, hrest⟩ => ?_
              rw [← hrest, dropPrefix?_append] at hnone
              exact hnone rest rfl

/-- The decoder of replies is the grammar. -/
theorem tresp_eq_ok_iff_answer : tresp req s = .ok r ↔ Answer req s r := by
  constructor
  · intro h
    rcases command_cases req with hkv | hbss | hinterfaces | hadd | hplain
    · rw [tresp_keyValues (.inl hkv)] at h
      obtain ⟨m, hm, rfl⟩ := map_eq_ok_iff.mp h
      obtain ⟨ps, hps, hbinds⟩ := kvResp_eq_ok_iff.mp hm
      exact .keyValues ps (.inl hkv) hps hbinds
    · by_cases hne : s = []
      · rw [hne, tresp_noEntry hbss] at h
        cases h
        exact hne ▸ .noEntry hbss
      · rw [tresp_keyValues (.inr ⟨hbss, hne⟩)] at h
        obtain ⟨m, hm, rfl⟩ := map_eq_ok_iff.mp h
        obtain ⟨ps, hps, hbinds⟩ := kvResp_eq_ok_iff.mp hm
        exact .keyValues ps (.inr ⟨hbss, hne⟩) hps hbinds
    · rw [tresp_interfaces hinterfaces] at h
      cases h
      obtain ⟨hne, hls, hjoined⟩ := splitOn_eq_iff.mp (rfl : split s '\n'.toUInt8 = _)
      have hanswer := Answer.interfaces hinterfaces hne hls
      rwa [← hjoined] at hanswer
    · rw [tresp_addNetwork hadd] at h
      obtain ⟨n, hn, rfl⟩ := map_eq_ok_iff.mp h
      obtain ⟨hs, rfl⟩ := toInteger_eq_ok_iff.mp hn
      exact .network hadd hs
    · exact answer_of_plain hplain h
  · intro h
    cases h with
    | pong hreq =>
        exact tresp_pong hreq
    | keyValues ps hreq hs hm =>
        rw [tresp_keyValues hreq, kvResp_eq_ok_iff.mpr ⟨ps, hs, hm⟩]
        rfl
    | noEntry hreq =>
        exact tresp_noEntry hreq
    | interfaces hreq hne hls =>
        rw [tresp_interfaces hreq, split, List.splitOn_intercalate _ hls hne]
    | network hreq hs =>
        rw [tresp_addNetwork hreq, toInteger_of_isNumeral hs]
        rfl
    | ok hreq =>
        rw [tresp_plain hreq fun _ => by decide]
        rfl
    | fail hreq =>
        rw [tresp_plain hreq fun _ => by decide]
        rfl
    | @quoted string n hreq hs =>
        have hfront : ∀ text ∈ [lit "PONG", lit "OK", lit "FAIL"],
            lit "\"" ++ (string ++ List.replicate n '"'.toUInt8) ≠ text := by
          have hquote : ∀ text ∈ [lit "PONG", lit "OK", lit "FAIL"], ¬ lit "\"" <+: text := by
            decide
          intro text htext heq
          exact hquote text htext (heq ▸ List.prefix_append _ _)
        rw [tresp_plain hreq fun _ => hfront _ (by simp), if_neg (hfront _ (by simp)),
          if_neg (hfront _ (by simp)), dropPrefix?_append]
        simp only [rstripChar_quote_eq_iff.mpr ⟨hs, n, rfl⟩]
    | text hreq hpong hok hfail hquote =>
        rw [tresp_plain hreq hpong, if_neg hok, if_neg hfail, dropPrefix?_eq_none hquote]

/--
A reply is decoded exactly if it is, between white space, one of the replies to the
command, and then to its meaning.
-/
theorem resp_eq_ok_iff :
    resp req t = .ok r ↔ ∃ before s after, t = before ++ s ++ after ∧
      IsBlank before ∧ IsBlank after ∧ whitespace.NoneAhead s ∧ whitespace.NoneBehind s ∧
        Answer req s r := by
  rw [resp, tresp_eq_ok_iff_answer]
  constructor
  · intro h
    obtain ⟨hahead, hbehind, before, after, hbefore, hafter, ht⟩ :=
      strip_eq_iff.mp (rfl : strip t = _)
    exact ⟨before, strip t, after, ht, hbefore, hafter, hahead, hbehind, h⟩
  · rintro ⟨before, s, after, ht, hbefore, hafter, hahead, hbehind, h⟩
    rwa [strip_eq_iff.mpr ⟨hahead, hbehind, before, after, hbefore, hafter, ht⟩]

/-- A list of no interfaces is read as one interface without a name. -/
example : resp (.atom (.lit "INTERFACES")) (lit "\n") = .ok (.lines [[]]) := by
  decide +kernel

end Replies

section Notifications

/-- The notifications, without their priority, and their meaning. -/
inductive Notified : Binary → Notif → Prop
  | request (tag : Atom)
      {field netId text dashes dashes' : Binary} (htag : tag.name = lit "CTRL-REQ-" ++ field)
      (hdashes : ∀ x ∈ dashes, x = '-'.toUInt8) (hdashes' : ∀ x ∈ dashes', x = '-'.toUInt8)
      (hfield : field ≠ [] ∧ '-'.toUInt8 ∉ field)
      (hnetId : IsNumeral 10 netId ∧ '-'.toUInt8 ∉ netId) (htext : text ≠ []) :
      Notified
        (lit "CTRL-REQ-" ++ (dashes ++ (field ++ '-'.toUInt8 ::
          (dashes' ++ (netId ++ '-'.toUInt8 :: text)))))
        (.numbered tag (numeralValue 10 netId) text)
  | entry (tag : Atom)
      {rest entryId bssid : Binary} (htag : tag.name ∈ bssEvents)
      (hrest : Spaced ' '.toUInt8 rest [entryId, bssid]) (hentryId : IsNumeral 10 entryId) :
      Notified (tag.name ++ rest) (.numbered tag (numeralValue 10 entryId) bssid)
  | connection (tag : Atom) (rest : Binary) (htag : tag.name ∈ connectionEvents) :
      Notified (tag.name ++ rest) (.bare tag)
  | event (tag : Atom)
      {blank : Binary} (hevent : IsAtomEvent (tag.name ++ blank))
      (hend : whitespace.NoneBehind tag.name) (hblank : IsBlank blank) :
      Notified (tag.name ++ blank) (.bare tag)
  | station (tag : Atom)
      {mac blank : Binary} (htag : tag.name ∈ stationEvents)
      (hend : whitespace.NoneBehind mac) (hblank : IsBlank blank) :
      Notified (tag.name ++ lit " " ++ (mac ++ blank)) (.tagged tag mac)
  | info (tag : Atom)
      {text blank : Binary} (htag : tag.name = lit "INFO")
      (hother : ∀ p ∈ eventFronts, ¬ p <+: text ++ blank)
      (hend : whitespace.NoneBehind text) (hblank : IsBlank blank) :
      Notified (text ++ blank) (.tagged tag text)

theorem rstrip_eq_iff {s t : Binary} :
    rstrip t = s ↔ whitespace.NoneBehind s ∧ ∃ blank, IsBlank blank ∧ t = s ++ blank :=
  whitespace.trimEnd_eq_iff

theorem notified_of_ctrlReq {rest : Binary} {n : Notif} (h : notifCtrlReq rest = .ok n) :
    Notified (lit "CTRL-REQ-" ++ rest) n := by
  obtain ⟨tag, field, netId, text, hsplit, htag, hnum, rfl⟩ := notifCtrlReq_eq_ok_iff.mp h
  obtain ⟨dashes, dashes', rfl, hdashes, hdashes', hfne, hf, _, hnet, htext⟩ :=
    splitParts_three_iff.mp hsplit
  exact .request tag htag hdashes hdashes' ⟨hfne, hf⟩ ⟨hnum, hnet⟩ htext

theorem notified_of_bss
    {tag : Atom} (htag : tag.name ∈ bssEvents) {rest : Binary} {n : Notif}
    (h : notifBss tag rest = .ok n) :
    Notified (tag.name ++ rest) n := by
  obtain ⟨entryId, bssid, hsplit, hnum, rfl⟩ := notifBss_eq_ok_iff.mp h
  exact .entry tag htag (tokens_eq_iff.mp hsplit) hnum

/-- The decoder of notifications is the grammar. -/
theorem notif_eq_ok_iff {t : Binary} {n : Notif} : notif t = .ok n ↔ Notified t n := by
  constructor
  · intro h
    rcases notif_cases t with
      ⟨rest, rfl⟩ | ⟨tag, htag, rest, rfl⟩ | ⟨tag, htag, rest, rfl⟩ | hatom |
        ⟨tag, htag, mac, rfl⟩ | hinfo
    · rw [notif_ctrlReq] at h
      exact notified_of_ctrlReq h
    · rw [notif_bss htag] at h
      exact notified_of_bss htag h
    · rw [notif_connection htag] at h
      cases h
      exact .connection tag rest htag
    · rw [notif_of_isAtomEvent hatom] at h
      obtain ⟨tag, htag, rfl⟩ := notifAtom_eq_ok_iff.mp h
      obtain ⟨hend, blank, hblank, rfl⟩ := rstrip_eq_iff.mp htag.symm
      exact .event tag hatom hend hblank
    · rw [notif_station htag] at h
      cases h
      obtain ⟨hend, blank, hblank, hmac⟩ := rstrip_eq_iff.mp (rfl : rstrip mac = _)
      have hstation := Notified.station tag htag hend hblank
      rwa [← hmac] at hstation
    · obtain ⟨tag, htag⟩ : ∃ tag : Atom, tag.name = lit "INFO" :=
        ⟨⟨_, isAtomName_of_mem _ (List.mem_cons_self ..)⟩, rfl⟩
      rw [notif_of_forall_not_isPrefix htag hinfo] at h
      cases h
      obtain ⟨hend, blank, hblank, htext⟩ := rstrip_eq_iff.mp (rfl : rstrip t = _)
      rw [htext] at hinfo
      have hnotified := Notified.info tag htag hinfo hend hblank
      rwa [← htext] at hnotified
  · intro h
    cases h with
    | request tag htag hdashes hdashes' hfield hnetId htext =>
        rw [notif_ctrlReq, notifCtrlReq_eq_ok_iff]
        refine ⟨tag, _, _, _, splitParts_three_iff.mpr ⟨_, _, rfl, hdashes, hdashes', ?_⟩,
          htag, hnetId.1, rfl⟩
        exact ⟨hfield.1, hfield.2, hnetId.1.ne_nil, hnetId.2, htext⟩
    | entry tag htag hrest hentryId =>
        rw [notif_bss htag, notifBss_eq_ok_iff]
        exact ⟨_, _, tokens_eq_iff.mpr hrest, hentryId, rfl⟩
    | connection tag rest htag =>
        exact notif_connection htag rest
    | event tag hevent hend hblank =>
        rw [notif_of_isAtomEvent hevent, notifAtom_eq_ok_iff]
        exact ⟨tag, (rstrip_eq_iff.mpr ⟨hend, _, hblank, rfl⟩).symm, rfl⟩
    | station tag htag hend hblank =>
        rw [notif_station htag, rstrip_eq_iff.mpr ⟨hend, _, hblank, rfl⟩]
    | info tag htag hother hend hblank =>
        rw [notif_of_forall_not_isPrefix htag hother,
          rstrip_eq_iff.mpr ⟨hend, _, hblank, rfl⟩]

end Notifications

end Decode
end WpaSupplicant
