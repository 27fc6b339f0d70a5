import WpaSupplicant.MessageDecoding
import Mathlib.Data.List.Perm.Basic

/-!
# Key/value responses

What `resp` makes of the lines `key=value` that answer `MIB`, `STATUS`,
`STATUS-VERBOSE` and `BSS`.

* `kvResp_kvText`: a response none of whose values contains `=` is folded into
  the map of its lines;
* `decodesAs_iff`: the response decodes as the map of its lines, in whatever
  order the lines come, exactly when no value contains `=`.
-/

namespace WpaSupplicant
namespace Decode

open ElixirString

/-- A key and the text that stands behind its `=`, as the supplicant writes them. -/
structure KvLine where
  key : Atom
  value : Binary
  key_ne_nil : key.name ≠ []
  key_newline : '\n'.toUInt8 ∉ key.name
  key_equals : '='.toUInt8 ∉ key.name
  key_space : whitespace.NoneAhead key.name
  value_newline : '\n'.toUInt8 ∉ value

namespace KvLine

/-- The line `key=value`. -/
def text (l : KvLine) : Binary :=
  l.key.name ++ '='.toUInt8 :: l.value

/-- The value that is bound to the key. -/
def decoded (l : KvLine) : KvValue :=
  kvValue (rstrip l.value)

/-- A line written out. -/
def lit
    (key value : String)
    (hkey : IsAtomName (WpaSupplicant.lit key) := by decide +kernel)
    (hne : WpaSupplicant.lit key ≠ [] := by decide +kernel)
    (hnewline : '\n'.toUInt8 ∉ WpaSupplicant.lit key := by decide +kernel)
    (hequals : '='.toUInt8 ∉ WpaSupplicant.lit key := by decide +kernel)
    (hspace : whitespace.NoneAhead (WpaSupplicant.lit key) := by decide +kernel)
    (hvalue : '\n'.toUInt8 ∉ WpaSupplicant.lit value := by decide +kernel) :
    KvLine :=
  ⟨⟨WpaSupplicant.lit key, hkey⟩, WpaSupplicant.lit value, hne, hnewline, hequals,
    hspace, hvalue⟩

/-- The line without white space at its end. -/
def rstripped (l : KvLine) : KvLine :=
  { l with
    value := rstrip l.value
    value_newline := by
      obtain ⟨ws, _, _, h⟩ := whitespace.exists_trimEnd l.value
      intro hmem
      apply l.value_newline
      rw [h]
      exact List.mem_append_left _ hmem }

@[simp] theorem key_rstripped (l : KvLine) : l.rstripped.key = l.key := rfl

@[simp] theorem value_rstripped (l : KvLine) :
    l.rstripped.value = rstrip l.value := rfl

@[simp] theorem decoded_rstripped (l : KvLine) :
    l.rstripped.decoded = l.decoded := by
  simp [decoded, rstrip]

theorem text_ne_nil (l : KvLine) : l.text ≠ [] := by
  simp [text]

theorem newline_not_mem_text (l : KvLine) : '\n'.toUInt8 ∉ l.text := by
  have h : '\n'.toUInt8 ≠ '='.toUInt8 := by decide
  simp [text, l.key_newline, l.value_newline, h]

end KvLine

/-- The lines of a response. -/
def kvText (ls : List KvLine) : Binary :=
  ['\n'.toUInt8].intercalate (ls.map KvLine.text)

@[simp] theorem kvText_singleton (l : KvLine) : kvText [l] = l.text := by
  simp [kvText]

@[simp] theorem kvText_cons_cons (l l' : KvLine) (ls : List KvLine) :
    kvText (l :: l' :: ls) = l.text ++ '\n'.toUInt8 :: kvText (l' :: ls) := by
  simp [kvText, List.intercalate_cons_cons]

theorem kvText_concat
    {ls : List KvLine} (hne : ls ≠ []) (l : KvLine) :
    kvText (ls ++ [l]) = kvText ls ++ '\n'.toUInt8 :: l.text := by
  induction ls with
  | nil =>
      exact absurd rfl hne
  | cons l₁ ls ih =>
      cases ls with
      | nil =>
          simp
      | cons l₂ ls =>
          have := ih (by simp)
          simp only [List.cons_append, kvText_cons_cons, List.append_assoc] at this ⊢
          rw [this]

/-- The map of the lines, a later line going over an earlier one. -/
def kvMap (ls : List KvLine) : KvMap :=
  ls.foldl (fun m l => m.insert l.key l.decoded) ∅

section Fold

/-- The binding of a line to what the lines behind it leave. -/
theorem lookup_foldl_insert
    (ls : List KvLine) (hkeys : (ls.map KvLine.key).Nodup) (m : KvMap)
    (a : Atom) (v : KvValue) :
    (ls.foldl (fun m l => m.insert l.key l.decoded) m).lookup a = some v ↔
      (∃ l ∈ ls, l.key = a ∧ v = l.decoded) ∨
        (a ∉ ls.map KvLine.key ∧ m.lookup a = some v) := by
  induction ls generalizing m with
  | nil =>
      simp
  | cons l ls ih =>
      rw [List.map_cons, List.nodup_cons] at hkeys
      rw [List.foldl_cons, ih hkeys.2]
      by_cases ha : a = l.key
      · subst ha
        have hrest : ∀ l' ∈ ls, l'.key ≠ l.key := by
          intro l' hl' hkey
          exact hkeys.1 (hkey ▸ List.mem_map_of_mem hl')
        simp only [Finmap.lookup_insert, Option.some.injEq]
        grind
      · rw [Finmap.lookup_insert_of_ne _ ha]
        have ha' : ¬ l.key = a := fun h => ha h.symm
        simp [ha, ha']

theorem lookup_kvMap
    {ls : List KvLine} (hkeys : (ls.map KvLine.key).Nodup)
    (a : Atom) (v : KvValue) :
    (kvMap ls).lookup a = some v ↔ ∃ l ∈ ls, l.key = a ∧ v = l.decoded := by
  rw [kvMap, lookup_foldl_insert ls hkeys]
  simp

/-- With distinct keys, the order of the lines does not matter. -/
theorem kvMap_perm
    {ls ls' : List KvLine} (hperm : ls'.Perm ls)
    (hkeys : (ls.map KvLine.key).Nodup) :
    kvMap ls' = kvMap ls := by
  have hkeys' : (ls'.map KvLine.key).Nodup :=
    (hperm.map KvLine.key).nodup_iff.mpr hkeys
  apply Finmap.ext_lookup
  intro a
  apply Option.ext
  intro v
  rw [lookup_kvMap hkeys', lookup_kvMap hkeys]
  simp only [hperm.mem_iff]

end Fold

section Lines

/-- A line is split at its first `=` and at every one in its value. -/
theorem split_text (l : KvLine) :
    split l.text '='.toUInt8 = l.key.name :: split l.value '='.toUInt8 := by
  unfold split KvLine.text
  rw [List.splitOn_append_cons_self_of_not_mem l.key_equals]

theorem kvPair_text
    {l : KvLine} (h : '='.toUInt8 ∉ l.value) :
    kvPair l.text = .ok (l.key, l.decoded) := by
  have hsplit : split l.value '='.toUInt8 = [l.value] :=
    List.splitOn_eq_singleton h
  unfold kvPair
  rw [split_text, hsplit]
  simp only [toAtom, l.key.valid]
  rfl

/-- A line with a second `=` matches no key and value. -/
theorem not_returns_kvPair_text
    {l : KvLine} (h : '='.toUInt8 ∈ l.value) :
    ¬ Returns (kvPair l.text) := by
  rw [kvPair_returns_iff, split_text]
  rintro ⟨key, value, hsplit⟩
  have hone : split l.value '='.toUInt8 = [value] :=
    (List.cons.inj hsplit.1).2
  obtain ⟨front, back, hvalue⟩ := List.append_of_mem h
  have hlen := congrArg List.length hone
  have hfront := List.length_pos_iff.mpr (List.splitOn_ne_nil '='.toUInt8 front)
  have hback := List.length_pos_iff.mpr (List.splitOn_ne_nil '='.toUInt8 back)
  rw [hvalue, split, List.splitOn_append_cons_self, List.length_append,
    List.length_singleton] at hlen
  omega

theorem splitTrim_kvText
    {ls : List KvLine} (hne : ls ≠ []) :
    splitTrim (kvText ls) '\n'.toUInt8 = ls.map KvLine.text := by
  have hsplit : split (kvText ls) '\n'.toUInt8 = ls.map KvLine.text := by
    apply List.splitOn_intercalate
    · intro t ht
      obtain ⟨l, _, rfl⟩ := List.mem_map.mp ht
      exact l.newline_not_mem_text
    · simpa using hne
  rw [splitTrim, hsplit, List.filter_eq_self]
  intro t ht
  obtain ⟨l, _, rfl⟩ := List.mem_map.mp ht
  simpa using l.text_ne_nil

theorem kvResp_kvText
    {ls : List KvLine} (hne : ls ≠ [])
    (heq : ∀ l ∈ ls, '='.toUInt8 ∉ l.value) :
    kvResp (kvText ls) = .ok (kvMap ls) := by
  unfold kvResp kvMap
  rw [splitTrim_kvText hne]
  generalize (∅ : KvMap) = m
  clear hne
  induction ls generalizing m with
  | nil =>
      rfl
  | cons l ls ih =>
      have hl := kvPair_text (heq l (by simp))
      rw [List.map_cons, List.foldlM_cons, hl, List.foldl_cons]
      exact ih (fun l' hl' => heq l' (List.mem_cons_of_mem _ hl')) _

/-- A response decodes only when every one of its lines does. -/
theorem returns_kvResp_kvText_iff
    {ls : List KvLine} (hne : ls ≠ []) :
    Returns (kvResp (kvText ls)) ↔ ∀ l ∈ ls, '='.toUInt8 ∉ l.value := by
  unfold kvResp
  rw [splitTrim_kvText hne, returns_foldlM_insert_iff, List.forall_mem_map]
  constructor
  · intro h l hl heq
    exact not_returns_kvPair_text heq (h l hl)
  · intro h l hl
    rw [kvPair_text (h l hl)]
    exact returns_ok _

end Lines

section Strip

theorem equals_not_mem_whitespace : ∀ p ∈ whitespace.pats, '='.toUInt8 ∉ p :=
  not_mem_whitespace (by decide) (by decide)

/-- A response starts with a key, so nothing is stripped in front of it. -/
theorem lstrip_kvText
    {ls : List KvLine} (hne : ls ≠ []) (final : Binary) :
    lstrip (kvText ls ++ final) = kvText ls ++ final := by
  apply whitespace.trimStart_of_noneAhead
  cases ls with
  | nil =>
      exact absurd rfl hne
  | cons l ls =>
      have htext : ∃ rest, kvText (l :: ls) ++ final =
          l.key.name ++ '='.toUInt8 :: rest := by
        cases ls with
        | nil =>
            exact ⟨l.value ++ final, by simp [KvLine.text]⟩
        | cons l' ls =>
            exact ⟨l.value ++ '\n'.toUInt8 :: (kvText (l' :: ls) ++ final),
              by simp [KvLine.text]⟩
      obtain ⟨rest, hrest⟩ := htext
      rw [hrest]
      exact whitespace.noneAhead_append_cons equals_not_mem_whitespace
        l.key_space rest

/-- The last line of a response loses the white space at its end. -/
theorem rstrip_kvText
    (ls : List KvLine) (l : KvLine)
    (ws : List Binary) (hws : ∀ w ∈ ws, w ∈ whitespace.pats) :
    rstrip (kvText (ls ++ [l]) ++ ws.flatten) = kvText (ls ++ [l.rstripped]) := by
  have hlast : ∃ front, ∀ l' : KvLine, l'.key = l.key →
      kvText (ls ++ [l']) = front ++ '='.toUInt8 :: l'.value := by
    by_cases hls : ls = []
    · exact ⟨l.key.name, fun l' hkey => by simp [hls, KvLine.text, hkey]⟩
    · refine ⟨kvText ls ++ '\n'.toUInt8 :: l.key.name, fun l' hkey => ?_⟩
      simp [kvText_concat hls, KvLine.text, hkey]
  obtain ⟨front, hfront⟩ := hlast
  rw [hfront l rfl, hfront l.rstripped rfl, List.append_assoc, List.cons_append,
    rstrip, whitespace.trimEnd_append_cons equals_not_mem_whitespace,
    whitespace.trimEnd_append_of_mem hws]
  rfl

theorem strip_kvText
    (ls : List KvLine) (l : KvLine)
    (ws : List Binary) (hws : ∀ w ∈ ws, w ∈ whitespace.pats) :
    strip (kvText (ls ++ [l]) ++ ws.flatten) = kvText (ls ++ [l.rstripped]) := by
  rw [strip, lstrip_kvText (by simp), rstrip_kvText ls l ws hws]

/-- Stripping a value keeps every `=` in it. -/
theorem equals_mem_rstrip_iff (v : Binary) :
    '='.toUInt8 ∈ rstrip v ↔ '='.toUInt8 ∈ v := by
  obtain ⟨ws, hws, _, hv⟩ := whitespace.exists_trimEnd v
  have hflat : '='.toUInt8 ∉ ws.flatten :=
    not_mem_flatten_whitespace (by decide) (by decide) hws
  have hmem : '='.toUInt8 ∈ v ↔ '='.toUInt8 ∈ whitespace.trimEnd v ++ ws.flatten := by
    rw [← hv]
  rw [hmem, List.mem_append, or_iff_left hflat, rstrip]

end Strip

section Responses

variable {req : Term} (hreq : isKvCommand req ∨ isBss req)
include hreq

/-- The commands answered by key/value lines reach `kv_resp`. -/
theorem tresp_kv {s : Binary} (hs : s ≠ []) :
    tresp req s = Reply.map <$> kvResp s := by
  have hping : isAtom req "PING" = false := by
    by_contra hping
    rw [Bool.not_eq_false] at hping
    have hkv : isKvCommand req = false := by
      simp [isKvCommand, isAtom_eq_false_of_isAtom hping "MIB" (by decide),
        isAtom_eq_false_of_isAtom hping "STATUS" (by decide),
        isAtom_eq_false_of_isAtom hping "STATUS-VERBOSE" (by decide)]
    simp [hkv, isBss_eq_false_of_isAtom hping] at hreq
  unfold tresp
  by_cases hkv : isKvCommand req
  · simp [hping, hkv]
  · simp [hping, hkv, hs, hreq.resolve_left hkv]

/-- What is left of a response once it is stripped reaches `kv_resp`. -/
theorem resp_kvText_concat
    (ls : List KvLine) (l : KvLine)
    (ws : List Binary) (hws : ∀ w ∈ ws, w ∈ whitespace.pats) :
    resp req (kvText (ls ++ [l]) ++ ws.flatten) =
      Reply.map <$> kvResp (kvText (ls ++ [l.rstripped])) := by
  have hne : kvText (ls ++ [l.rstripped]) ≠ [] := by
    by_cases hls : ls = []
    · simpa [hls] using l.rstripped.text_ne_nil
    · simp [kvText_concat hls]
  rw [resp, strip_kvText ls l ws hws, tresp_kv hreq hne]

/-- A response whose values avoid `=` decodes to the map of its lines. -/
theorem resp_kvText
    {ls : List KvLine} (hne : ls ≠ [])
    (heq : ∀ l ∈ ls, '='.toUInt8 ∉ l.value)
    (ws : List Binary) (hws : ∀ w ∈ ws, w ∈ whitespace.pats) :
    resp req (kvText ls ++ ws.flatten) = .ok (.map (kvMap ls)) := by
  rcases ls.eq_nil_or_concat' with rfl | ⟨front, l, rfl⟩
  · exact absurd rfl hne
  · have heq' : ∀ l' ∈ front ++ [l.rstripped], '='.toUInt8 ∉ l'.value := by
      intro l' hl'
      rcases List.mem_append.mp hl' with h | h
      · exact heq l' (List.mem_append_left _ h)
      · obtain rfl := List.mem_singleton.mp h
        rw [KvLine.value_rstripped, equals_mem_rstrip_iff]
        exact heq l (by simp)
    have hmap : kvMap (front ++ [l.rstripped]) = kvMap (front ++ [l]) := by
      simp [kvMap]
    rw [resp_kvText_concat hreq front l ws hws, kvResp_kvText (by simp) heq', hmap]
    rfl

/-- A value that contains `=` keeps the response from decoding. -/
theorem not_returns_resp_kvText
    {ls : List KvLine} {l : KvLine} (hl : l ∈ ls) (heq : '='.toUInt8 ∈ l.value)
    (ws : List Binary) (hws : ∀ w ∈ ws, w ∈ whitespace.pats) :
    ¬ Returns (resp req (kvText ls ++ ws.flatten)) := by
  rcases ls.eq_nil_or_concat' with rfl | ⟨front, last, rfl⟩
  · simp at hl
  · rw [resp_kvText_concat hreq front last ws hws, returns_map_iff,
      returns_kvResp_kvText_iff (by simp)]
    intro h
    rcases List.mem_append.mp hl with hl | hl
    · exact h l (List.mem_append_left _ hl) heq
    · obtain rfl := List.mem_singleton.mp hl
      refine h l.rstripped (by simp) ?_
      rwa [KvLine.value_rstripped, equals_mem_rstrip_iff]

/--
The response decodes to the map that binds exactly the keys of its lines, each
to its decoded value, in whatever order the lines come and with or without a
final newline.
-/
def DecodesAs (req : Term) (ls : List KvLine) : Prop :=
  ∃ m : KvMap,
    (∀ a v, m.lookup a = some v ↔
      ∃ l ∈ ls, l.key = a ∧ v = kvValue (rstrip l.value)) ∧
    ∀ ls', ls'.Perm ls → ∀ final ∈ [[], lit "\n"],
      resp req (kvText ls' ++ final) = .ok (.map m)

/-- A response decodes exactly when no value contains `=`. -/
theorem decodesAs_iff
    {ls : List KvLine} (hne : ls ≠ []) (hkeys : (ls.map KvLine.key).Nodup) :
    DecodesAs req ls ↔ ∀ l ∈ ls, '='.toUInt8 ∉ l.value := by
  constructor
  · rintro ⟨m, _, hresp⟩ l hl heq
    refine not_returns_resp_kvText hreq hl heq [] (by simp) ?_
    exact ⟨_, hresp ls (List.Perm.refl ls) [] (by simp)⟩
  · intro heq
    refine ⟨kvMap ls, lookup_kvMap hkeys, ?_⟩
    intro ls' hperm final hfinal
    have hne' : ls' ≠ [] := fun h => hne (List.nil_perm.mp (h ▸ hperm))
    have heq' : ∀ l ∈ ls', '='.toUInt8 ∉ l.value :=
      fun l hl => heq l (hperm.mem_iff.mp hl)
    obtain ⟨ws, rfl, hws⟩ := newline_eq_flatten hfinal
    rw [resp_kvText hreq hne' heq' ws hws, kvMap_perm hperm hkeys]

end Responses

/-- A status report of an access point whose name contains no `=`. -/
theorem decodesAs_plain_ssid :
    DecodesAs (.atom .status)
      [.lit "ssid" "Home ", .lit "freq" "2412", .lit "wpa_state" "COMPLETED"] :=
  (decodesAs_iff (.inl (by decide +kernel)) (by simp) (by decide +kernel)).mpr
    (by decide +kernel)

/-- A network name with `=` in it raises. -/
theorem not_decodesAs_ssid_with_equals :
    ¬ DecodesAs (.atom .status) [.lit "ssid" "a=b"] := by
  rintro ⟨m, _, hresp⟩
  have h := hresp _ (List.Perm.refl _) [] (by simp)
  have hreq : isKvCommand (.atom .status) ∨ isBss (.atom .status) :=
    .inl (by decide +kernel)
  exact not_returns_resp_kvText hreq (List.mem_singleton.mpr rfl) (by decide +kernel) []
    (by simp) ⟨_, h⟩

end Decode
end WpaSupplicant
