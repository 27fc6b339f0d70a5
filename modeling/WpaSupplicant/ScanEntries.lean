import WpaSupplicant.KeyValueResponses
import WpaSupplicant.ScanWaiting
import WpaSupplicant.ValueSpelling

/-!
# Scan entries

The reply to `{:BSS, n}` is a record of lines `key=value`.  Every value goes
through `kv_value`, whatever its key, so a name or an information element stays
text only when it is not spelled like anything else.

* `Record.resp_text`: a record decodes to the map of its lines;
* `textFields_iff`: which fields stay text, and which two are told apart.
-/

namespace WpaSupplicant
namespace Decode

open ElixirString

/-- The lines of a scan entry: some, with distinct keys, and no `=` in a value. -/
structure Record where
  lines : List KvLine
  ne_nil : lines ≠ []
  keys_nodup : (lines.map KvLine.key).Nodup
  equals : ∀ l ∈ lines, '='.toUInt8 ∉ l.value

/-- What the decoded reply binds to a key. -/
def binding (req : Term) (reply : Binary) (a : Atom) : Option KvValue :=
  match resp req reply with
  | .ok (.map m) => m.lookup a
  | _ => none

namespace Record

/-- The record as the supplicant writes it. -/
def text (r : Record) : Binary :=
  kvText r.lines

/-- What it decodes to. -/
def map (r : Record) : KvMap :=
  kvMap r.lines

theorem lookup_map {r : Record} {l : KvLine} (hl : l ∈ r.lines) :
    r.map.lookup l.key = some l.decoded := by
  rw [map, lookup_kvMap r.keys_nodup]
  exact ⟨l, hl, rfl, rfl⟩

section Reply

variable {req : Term} (hreq : isBss req = true)
include hreq

/-- White space behind the record does not matter. -/
theorem resp_text
    (r : Record) (ws : List Binary) (hws : ∀ w ∈ ws, w ∈ whitespace.pats) :
    resp req (r.text ++ ws.flatten) = .ok (.map r.map) :=
  resp_kvText (.inr hreq) r.ne_nil r.equals ws hws

theorem binding_text
    {r : Record} {l : KvLine} (hl : l ∈ r.lines)
    (ws : List Binary) (hws : ∀ w ∈ ws, w ∈ whitespace.pats) :
    binding req (r.text ++ ws.flatten) l.key = some l.decoded := by
  rw [binding, resp_text hreq r ws hws]
  exact lookup_map hl

end Reply

end Record

theorem KvLine.decoded_of_noneBehind
    {l : KvLine} (hend : whitespace.NoneBehind l.value) :
    l.decoded = kvValue l.value := by
  rw [KvLine.decoded, rstrip, whitespace.trimEnd_of_noneBehind hend]

/--
A field is bound to its text exactly when the text is free, and two fields that
differ are told apart exactly when they are not read alike.
-/
theorem textFields_iff
    {req : Term} (hreq : isBss req = true)
    {r : Record} {l : KvLine} (hl : l ∈ r.lines)
    (hend : whitespace.NoneBehind l.value)
    (ws : List Binary) (hws : ∀ w ∈ ws, w ∈ whitespace.pats) :
    (binding req (r.text ++ ws.flatten) l.key = some (.text l.value) ↔
        IsFreeText l.value) ∧
      ∀ (r' : Record) (l' : KvLine) (ws' : List Binary),
        l' ∈ r'.lines → l'.key = l.key → whitespace.NoneBehind l'.value →
        (∀ w ∈ ws', w ∈ whitespace.pats) →
        ((l.value ≠ l'.value →
            binding req (r.text ++ ws.flatten) l.key ≠
              binding req (r'.text ++ ws'.flatten) l.key) ↔
          (l.value ≠ l'.value → ¬ ReadAlike l.value l'.value)) := by
  have hbinding := Record.binding_text hreq hl ws hws
  rw [hbinding, KvLine.decoded_of_noneBehind hend]
  constructor
  · rw [Option.some.injEq, kvValue_eq_text_self_iff]
  · intro r' l' ws' hl' hkey hend' hws'
    have hbinding' := Record.binding_text hreq hl' ws' hws'
    rw [hkey, KvLine.decoded_of_noneBehind hend'] at hbinding'
    rw [hbinding', ne_eq (some _), Option.some.injEq, kvValue_eq_kvValue_iff, not_or]
    constructor
    · exact fun h hne => (h hne).2
    · exact fun h hne => ⟨hne, h hne⟩

/-- `:ssid`. -/
def ssid : Atom :=
  ⟨lit "ssid", by decide +kernel, by decide +kernel⟩

/-- The line that names the network. -/
def ssidLine (value : Binary) (hvalue : '\n'.toUInt8 ∉ value) : KvLine where
  key := ssid
  value := value
  key_ne_nil := by decide
  key_newline := by decide
  key_equals := by decide
  key_space := by decide +kernel
  value_newline := hvalue

/-- A record that only names the network. -/
def ssidRecord
    (value : Binary) (hnewline : '\n'.toUInt8 ∉ value) (hequals : '='.toUInt8 ∉ value) :
    Record where
  lines := [ssidLine value hnewline]
  ne_nil := by simp
  keys_nodup := by simp
  equals := by simpa [ssidLine] using hequals

/-- A network named with letters keeps its name. -/
theorem textFields_letters :
    ∃ req, Scan.request? (.enumerating 10 []) = some req ∧
      (binding req (lit "ssid=jkm private\n") ssid = some (.text (lit "jkm private")) ↔
        IsFreeText (lit "jkm private")) :=
  ⟨_, rfl, (textFields_iff (by decide)
    (r := ssidRecord (lit "jkm private") (by decide) (by decide))
    (List.mem_singleton.mpr rfl) (by decide +kernel) [lit "\n"] (by decide +kernel)).1⟩

/-- A network named with digits gets a number, the same one as with zeros in front. -/
theorem not_textFields_digits :
    ∃ req, Scan.request? (.enumerating 10 []) = some req ∧
      binding req (lit "ssid=123\n") ssid ≠ some (.text (lit "123")) ∧
      binding req (lit "ssid=7\n") ssid = binding req (lit "ssid=007\n") ssid :=
  ⟨_, rfl, by decide +kernel, by decide +kernel⟩

end Decode
end WpaSupplicant
