import WpaSupplicant.InteractiveRequests

/-!
# The addresses of the control connection

`os_strlcpy`, the name of wpa_ex's own socket file and the address that
`wpa_ctrl_open` connects to.

* `osStrlcpy_eq`: what `os_strlcpy` leaves in memory and returns;
* `clientPath_inj`: process and counter can be read back from the name of the file;
* `name_destAddress`: the address that a control path stands for;
* `sameAddress_iff`: the paths that lead to the same address.
-/

namespace WpaSupplicant

/-- A string of C without its terminator. -/
structure CString where
  bytes : Binary
  noNul : 0 ∉ bytes
deriving DecidableEq

namespace CString

/-- `s[i]`; behind the last byte stands the terminator. -/
def charAt (s : CString) (i : Nat) : UInt8 :=
  s.bytes.getD i 0

/-- `s + n`, if there are so many bytes. -/
def drop (s : CString) (n : Nat) : CString where
  bytes := s.bytes.drop n
  noNul := fun h => s.noNul (List.mem_of_mem_drop h)

theorem charAt_eq_zero_iff (s : CString) (i : Nat) :
    s.charAt i = 0 ↔ s.bytes.length ≤ i := by
  unfold charAt
  constructor
  · intro h
    by_contra hlt
    rw [List.getD_eq_getElem?_getD, List.getElem?_eq_getElem (Nat.not_le.mp hlt),
      Option.getD_some] at h
    exact s.noNul (h ▸ List.getElem_mem _)
  · intro h
    rw [List.getD_eq_getElem?_getD, List.getElem?_eq_none h, Option.getD_none]

end CString

/-- A string ends in front of its terminator. -/
theorem takeWhile_append_nul {s : Binary} (rest : Binary) (h : 0 ∉ s) :
    (s ++ 0 :: rest).takeWhile (· != 0) = s := by
  have hne : ∀ c ∈ s, (c != 0) = true := by
    intro c hc
    exact bne_iff_ne.mpr fun hzero => h (hzero ▸ hc)
  rw [List.takeWhile_append_of_pos hne, List.takeWhile_cons_of_neg (by simp), List.append_nil]

section Strlcpy

/-- The loop `while (--left != 0)`: what is left, how far it came, and the destination. -/
def copyLoop (src : CString) : Nat → Nat → Binary → Nat × Nat × Binary
  | 0, i, dest => (0, i, dest)
  | left + 1, i, dest =>
      if left = 0 then (0, i, dest)
      else if src.charAt i = 0 then (left, i + 1, dest.set i 0)
      else copyLoop src left (i + 1) (dest.set i (src.charAt i))

/-- The loop `while (*s++)`: how far `s` moves. -/
def pastNul : Binary → Nat
  | [] => 1
  | c :: cs => if c = 0 then 1 else pastNul cs + 1

/-- `os_strlcpy`: the memory from `dest` on, and the result. -/
def osStrlcpy (dest : Binary) (src : CString) (siz : Nat) : Binary × Nat :=
  let (left, i, copied) := if siz ≠ 0 then copyLoop src siz 0 dest else (0, 0, dest)
  if left = 0 then
    (if siz ≠ 0 then copied.set i 0 else copied, i + pastNul (src.bytes.drop i) - 1)
  else
    (copied, i - 1)

theorem pastNul_of_not_mem {s : Binary} (h : 0 ∉ s) : pastNul s = s.length + 1 := by
  induction s with
  | nil =>
      rfl
  | cons c cs ih =>
      rw [List.mem_cons, not_or] at h
      rw [pastNul, if_neg (Ne.symm h.1), ih h.2, List.length_cons]

/-- The destination after `n` bytes of the source have been copied. -/
def copied (src : CString) (dest : Binary) (n : Nat) : Binary :=
  src.bytes.take n ++ dest.drop n

theorem set_copied
    {src : CString} {dest : Binary} {i : Nat} (hsrc : i ≤ src.bytes.length)
    (hdest : i < dest.length) (c : UInt8) :
    (copied src dest i).set i c = src.bytes.take i ++ c :: dest.drop (i + 1) := by
  have hlength : (src.bytes.take i).length = i := List.length_take_of_le hsrc
  rw [copied, List.set_append_right _ _ hlength.le, hlength, Nat.sub_self,
    List.drop_eq_getElem_cons hdest, List.set_cons_zero]

theorem set_copied_charAt
    {src : CString} {dest : Binary} {i : Nat} (hsrc : i < src.bytes.length)
    (hdest : i < dest.length) :
    (copied src dest i).set i (src.charAt i) = copied src dest (i + 1) := by
  rw [set_copied hsrc.le hdest, copied, List.take_add_one, CString.charAt,
    List.getD_eq_getElem?_getD, List.getElem?_eq_getElem hsrc, Option.toList_some,
    List.append_assoc]
  rfl

/-- The loop stops behind the terminator, or where only the terminator fits. -/
theorem copyLoop_copied
    (src : CString) (dest : Binary) {left i : Nat} (hpos : 0 < left)
    (hdest : i + left ≤ dest.length) (hsrc : i ≤ src.bytes.length) :
    copyLoop src left i (copied src dest i) =
      if src.bytes.length + 1 < i + left then
        (i + left - (src.bytes.length + 1), src.bytes.length + 1,
          src.bytes ++ 0 :: dest.drop (src.bytes.length + 1))
      else
        (0, i + left - 1, copied src dest (i + left - 1)) := by
  induction left generalizing i with
  | zero =>
      omega
  | succ left ih =>
      rw [copyLoop]
      by_cases hleft : left = 0
      · subst hleft
        rw [if_pos rfl, if_neg (by omega)]
        rfl
      · rw [if_neg hleft]
        by_cases hend : src.charAt i = 0
        · obtain rfl : i = src.bytes.length :=
            Nat.le_antisymm hsrc ((src.charAt_eq_zero_iff i).mp hend)
          rw [if_pos hend, if_pos (by omega), set_copied hsrc (by omega), List.take_length]
          congr 1
          omega
        · have hlt : i < src.bytes.length :=
            Nat.not_le.mp fun h => hend ((src.charAt_eq_zero_iff i).mpr h)
          rw [if_neg hend, set_copied_charAt hlt (by omega),
            ih (by omega) (by omega) hlt]
          have hnext : i + 1 + left = i + (left + 1) := by omega
          rw [hnext]

/--
`os_strlcpy` copies what fits together with a terminator, leaves all other memory as it
is, and returns the length of the source.
-/
theorem osStrlcpy_eq
    (dest : Binary) (src : CString) {siz : Nat} (hpos : 0 < siz)
    (hdest : siz ≤ dest.length) :
    osStrlcpy dest src siz =
      (src.bytes.take (siz - 1) ++ 0 ::
        dest.drop (min src.bytes.length (siz - 1) + 1), src.bytes.length) := by
  have hloop := copyLoop_copied src dest (i := 0) hpos (by omega) (Nat.zero_le _)
  have hstart : copied src dest 0 = dest := by simp [copied]
  rw [hstart, Nat.zero_add] at hloop
  rw [osStrlcpy, if_pos hpos.ne', hloop]
  by_cases hfits : src.bytes.length + 1 < siz
  · have hleft : siz - (src.bytes.length + 1) ≠ 0 := by omega
    have hmin : min src.bytes.length (siz - 1) = src.bytes.length := by omega
    rw [if_pos hfits, hmin, List.take_of_length_le (by omega)]
    simp [hleft]
  · have hmin : min src.bytes.length (siz - 1) = siz - 1 := by omega
    have hrest : 0 ∉ src.bytes.drop (siz - 1) := fun h => src.noNul (List.mem_of_mem_drop h)
    have hlength : siz - 1 + ((src.bytes.drop (siz - 1)).length + 1) - 1 =
        src.bytes.length := by
      rw [List.length_drop]
      omega
    have hset : (copied src dest (siz - 1)).set (siz - 1) 0 = _ :=
      set_copied (by omega) (by omega) 0
    rw [if_neg hfits, hmin]
    simp only [if_true, if_pos hpos.ne']
    rw [pastNul_of_not_mem hrest, hlength, hset]

theorem length_copyLoop (src : CString) (left i : Nat) (dest : Binary) :
    (copyLoop src left i dest).2.2.length = dest.length := by
  fun_induction copyLoop src left i dest with
  | case1 | case2 =>
      rfl
  | case3 =>
      exact List.length_set
  | case4 left i dest _ _ ih =>
      rw [ih, List.length_set]

theorem length_osStrlcpy (dest : Binary) (src : CString) (siz : Nat) :
    (osStrlcpy dest src siz).1.length = dest.length := by
  unfold osStrlcpy
  by_cases hsiz : siz = 0
  · simp [hsiz]
  · rw [if_pos hsiz]
    have hloop := length_copyLoop src siz 0 dest
    dsimp only
    split
    · exact List.length_set.trans hloop
    · exact hloop

end Strlcpy

/-- `snprintf`: the memory from `dest` on, and the result. -/
def osSnprintf (dest : Binary) (size : Nat) (text : Binary) : Binary × Int :=
  if size = 0 then (dest, text.length)
  else
    (text.take (size - 1) ++ 0 :: dest.drop (min text.length (size - 1) + 1), text.length)

theorem length_osSnprintf
    {dest : Binary} {size : Nat} (text : Binary) (h : size ≤ dest.length) :
    (osSnprintf dest size text).1.length = dest.length := by
  unfold osSnprintf
  split
  · rfl
  · simp only [List.length_append, List.length_cons, List.length_take, List.length_drop]
    omega

namespace WpaCtrl

/-- `sizeof(sun_path)`. -/
def sunPathSize : Nat := 108

/-- The `sun_path` of a `struct sockaddr_un`. -/
structure SunPath where
  bytes : Binary
  size : bytes.length = sunPathSize
deriving DecidableEq

/-- What an address of full size names. -/
inductive SocketName
  | file (path : Binary)
  | abstract (name : Binary)
deriving DecidableEq

namespace SunPath

/-- After `os_memset`. -/
def zero : SunPath where
  bytes := List.replicate sunPathSize 0
  size := List.length_replicate

/-- The string that `sun_path` holds. -/
def path (a : SunPath) : Binary :=
  a.bytes.takeWhile (· != 0)

/-- A name in the file system ends at its terminator, an abstract one at the end of the address. -/
def name (a : SunPath) : SocketName :=
  if a.bytes.head? = some 0 then .abstract a.bytes.tail else .file a.path

end SunPath

section Local

/-- `CONFIG_CTRL_IFACE_CLIENT_DIR "/" CONFIG_CTRL_IFACE_CLIENT_PREFIX "%d-%d"`. -/
def clientPath (pid counter : Int32) : Binary :=
  lit "/tmp/wpa_ctrl_" ++ decimal pid.toInt ++ lit "-" ++ decimal counter.toInt

/-- The address of wpa_ex's own socket; `none` where `wpa_ctrl_open` gives up. -/
def localAddress (sunPath : SunPath) (pid counter : Int32) : Option SunPath :=
  let printed := osSnprintf sunPath.bytes sunPathSize (clientPath pid counter)
  if printed.2 < 0 ∨ (sunPathSize : Int) ≤ printed.2 then none
  else
    some
      { bytes := printed.1
        size := (length_osSnprintf _ sunPath.size.ge).trans sunPath.size }

theorem length_decimal_le (n : Int32) : (decimal n.toInt).length ≤ 11 := by
  have hlow := Int32.le_toInt n
  have hhigh := Int32.toInt_lt n
  cases hn : n.toInt with
  | ofNat m =>
      rw [hn, Int.ofNat_eq_natCast] at hhigh
      rw [Int.ofNat_eq_natCast, decimal_natCast, digits, List.length_map]
      exact ((Nat.length_toDigits_le_iff (by decide) (by decide)).mpr (by omega)).trans
        (show 10 ≤ 11 by decide)
  | negSucc m =>
      rw [hn] at hlow
      rw [decimal_negSucc, List.length_cons, digits, List.length_map]
      exact Nat.succ_le_succ
        ((Nat.length_toDigits_le_iff (by decide) (by decide)).mpr (by omega))

theorem length_clientPath_le (pid counter : Int32) :
    (clientPath pid counter).length ≤ 37 := by
  have hpid := length_decimal_le pid
  have hcounter := length_decimal_le counter
  have hfront : (lit "/tmp/wpa_ctrl_").length = 14 := by decide +kernel
  have hdash : (lit "-").length = 1 := by decide +kernel
  simp only [clientPath, List.length_append, hfront, hdash]
  omega

theorem zero_not_mem_decimal (n : Int) : 0 ∉ decimal n := by
  cases n with
  | ofNat n =>
      rw [Int.ofNat_eq_natCast, decimal_natCast]
      exact not_mem_digits (by decide) n
  | negSucc n =>
      rw [decimal_negSucc, List.mem_cons, not_or]
      exact ⟨by decide, not_mem_digits (by decide) _⟩

theorem zero_not_mem_clientPath (pid counter : Int32) : 0 ∉ clientPath pid counter := by
  have hfront : 0 ∉ lit "/tmp/wpa_ctrl_" := by decide +kernel
  have hdash : 0 ∉ lit "-" := by decide +kernel
  simp only [clientPath, List.mem_append, not_or]
  exact ⟨⟨⟨hfront, zero_not_mem_decimal _⟩, hdash⟩, zero_not_mem_decimal _⟩

/-- The path always fits, and the address holds it whatever `sun_path` held before. -/
theorem exists_localAddress (sunPath : SunPath) (pid counter : Int32) :
    ∃ a, localAddress sunPath pid counter = some a ∧ a.path = clientPath pid counter := by
  have hlength := length_clientPath_le pid counter
  have hfits : ¬ ((osSnprintf sunPath.bytes sunPathSize (clientPath pid counter)).2 < 0 ∨
      (sunPathSize : Int) ≤
        (osSnprintf sunPath.bytes sunPathSize (clientPath pid counter)).2) := by
    rw [osSnprintf, if_neg (by decide)]
    simp only [sunPathSize]
    omega
  refine ⟨_, if_neg hfits, ?_⟩
  have hprinted : (clientPath pid counter).take (sunPathSize - 1) = clientPath pid counter :=
    List.take_of_length_le (by simp only [sunPathSize]; omega)
  simp only [SunPath.path, osSnprintf, if_neg (show sunPathSize ≠ 0 by decide), hprinted]
  exact takeWhile_append_nul _ (zero_not_mem_clientPath pid counter)

theorem decimal_inj {m n : Int} (h : decimal m = decimal n) : m = n := by
  have hread := congrArg (ElixirString.toInteger · 10) h
  simpa only [toInteger_decimal, Except.ok.injEq] using hread

/-- Process and counter can be read back from the path. -/
theorem clientPath_inj
    {pid counter pid' counter' : Int32}
    (h : clientPath pid counter = clientPath pid' counter') :
    pid = pid' ∧ counter = counter' := by
  have hdash : lit "-" = ['-'.toUInt8] := rfl
  simp only [clientPath, hdash, List.append_assoc, List.singleton_append,
    List.append_cancel_left_eq] at h
  obtain ⟨hpid, hcounter⟩ := decimal_append_dash_inj h
  exact ⟨Int32.toInt_inj.mp hpid, Int32.toInt_inj.mp (decimal_inj hcounter)⟩

end Local

section Destination

/-- The `sun_path` that `wpa_ctrl_open` connects to; `none` where it gives up. -/
def destAddress (ctrlPath : CString) : Option SunPath :=
  if lit "@abstract:" <+: ctrlPath.bytes then
    some
      { bytes :=
          0 :: (osStrlcpy SunPath.zero.bytes.tail (ctrlPath.drop 10) (sunPathSize - 1)).1
        size := by
          rw [List.length_cons, length_osStrlcpy, List.length_tail, SunPath.zero.size]
          rfl }
  else
    let copied := osStrlcpy SunPath.zero.bytes ctrlPath sunPathSize
    if sunPathSize ≤ copied.2 then none
    else some ⟨copied.1, (length_osStrlcpy _ _ _).trans SunPath.zero.size⟩

/-- The text behind `@abstract:`.  No path at all names an abstract socket, too. -/
def abstractText (ctrlPath : Binary) : Option Binary :=
  if ctrlPath = [] then some [] else ctrlPath.dropPrefix? (lit "@abstract:")

/-- Text in the room that an abstract name has, a terminator and zeros behind it. -/
def padded (text : Binary) : Binary :=
  text.take (sunPathSize - 2) ++
    List.replicate (sunPathSize - 1 - min text.length (sunPathSize - 2)) 0


/-- The bytes of a zeroed `sun_path` into which a string has been copied. -/
theorem osStrlcpy_replicate
    (s : CString) {n siz : Nat} (hpos : 0 < siz) (hsiz : siz ≤ n) :
    (osStrlcpy (List.replicate n 0) s siz).1 =
      s.bytes.take (siz - 1) ++ List.replicate (n - min s.bytes.length (siz - 1)) 0 := by
  have hzeros : n - min s.bytes.length (siz - 1) =
      n - (min s.bytes.length (siz - 1) + 1) + 1 := by omega
  rw [osStrlcpy_eq _ s hpos (by simpa using hsiz), List.drop_replicate, hzeros,
    List.replicate_succ]

theorem osStrlcpy_zero_result (s : CString) :
    (osStrlcpy SunPath.zero.bytes s sunPathSize).2 = s.bytes.length := by
  rw [osStrlcpy_eq _ _ (by decide) SunPath.zero.size.ge]

/-- A copied path names its file; no path names the abstract socket of zeros only. -/
theorem name_copied
    {ctrlPath : CString} (hfits : ctrlPath.bytes.length < sunPathSize) {a : SunPath}
    (ha : a.bytes = (osStrlcpy SunPath.zero.bytes ctrlPath sunPathSize).1) :
    a.name = if ctrlPath.bytes = [] then .abstract (padded []) else .file ctrlPath.bytes := by
  have hmin : min ctrlPath.bytes.length (sunPathSize - 1) = ctrlPath.bytes.length := by omega
  have hbytes : a.bytes = ctrlPath.bytes ++
      0 :: List.replicate (sunPathSize - 1 - ctrlPath.bytes.length) 0 := by
    have hzeros : sunPathSize - ctrlPath.bytes.length =
        sunPathSize - 1 - ctrlPath.bytes.length + 1 := by omega
    rw [ha, SunPath.zero, osStrlcpy_replicate _ (by decide) le_rfl, hmin, hzeros,
      List.take_of_length_le (by omega), List.replicate_succ]
  rw [SunPath.name, SunPath.path, hbytes, takeWhile_append_nul _ ctrlPath.noNul]
  have hnul := ctrlPath.noNul
  cases hpath : ctrlPath.bytes with
  | nil =>
      rfl
  | cons c cs =>
      have hc : c ≠ 0 := by
        rintro rfl
        simp [hpath] at hnul
      simp [hc]

/-- The address that a control path stands for. -/
theorem name_destAddress (ctrlPath : CString) :
    (destAddress ctrlPath).map SunPath.name =
      match abstractText ctrlPath.bytes with
      | some text => some (.abstract (padded text))
      | none =>
          if ctrlPath.bytes.length < sunPathSize then some (.file ctrlPath.bytes)
          else none := by
  have hmarkLength : (lit "@abstract:").length = 10 := by decide +kernel
  unfold destAddress
  by_cases hmark : lit "@abstract:" <+: ctrlPath.bytes
  · obtain ⟨text, htext⟩ := hmark
    have hne : ctrlPath.bytes ≠ [] := by
      intro hnil
      have hlength := congrArg List.length htext
      rw [hnil, List.length_append, hmarkLength, List.length_nil] at hlength
      omega
    have hdrop : (ctrlPath.drop 10).bytes = text := calc
      (ctrlPath.drop 10).bytes = (lit "@abstract:" ++ text).drop 10 := by rw [htext]; rfl
      _ = text := by rw [← hmarkLength, List.drop_left]
    have htail : SunPath.zero.bytes.tail = List.replicate (sunPathSize - 1) 0 := rfl
    rw [if_pos ⟨text, htext⟩, abstractText, if_neg hne,
      dropPrefix?_eq_some_append.mpr htext.symm]
    simp only [Option.map_some, SunPath.name, List.head?_cons, if_true, List.tail_cons, htail]
    rw [osStrlcpy_replicate _ (by decide) le_rfl, hdrop]
    rfl
  · rw [if_neg hmark, abstractText, dropPrefix?_eq_none hmark]
    dsimp only
    rw [osStrlcpy_zero_result]
    by_cases hfits : ctrlPath.bytes.length < sunPathSize
    · rw [if_neg (Nat.not_le.mpr hfits), if_pos hfits, Option.map_some, name_copied hfits rfl]
      split <;> rfl
    · have hne : ctrlPath.bytes ≠ [] := by
        rintro hnil
        simp [hnil, sunPathSize] at hfits
      rw [if_pos (Nat.not_lt.mp hfits), if_neg hfits, if_neg hne]
      rfl

theorem destAddress_eq_none_iff (ctrlPath : CString) :
    destAddress ctrlPath = none ↔
      ¬ lit "@abstract:" <+: ctrlPath.bytes ∧ sunPathSize ≤ ctrlPath.bytes.length := by
  unfold destAddress
  dsimp only
  rw [osStrlcpy_zero_result]
  split
  · next hmark =>
      simp [hmark]
  · next hmark =>
      simp [hmark]

/-- Padding hides the text behind the room it has, and nothing else. -/
theorem padded_eq_iff {s t : Binary} (hs : 0 ∉ s) (ht : 0 ∉ t) :
    padded s = padded t ↔ s.take (sunPathSize - 2) = t.take (sunPathSize - 2) := by
  have hread {s : Binary} (hs : 0 ∉ s) :
      (padded s).takeWhile (· != 0) = s.take (sunPathSize - 2) := by
    have hzeros : sunPathSize - 1 - min s.length (sunPathSize - 2) =
        sunPathSize - 2 - min s.length (sunPathSize - 2) + 1 := by
      simp only [sunPathSize]
      omega
    rw [padded, hzeros, List.replicate_succ]
    exact takeWhile_append_nul _ fun h => hs (List.mem_of_mem_take h)
  have hlength {s t : Binary} (h : s.take (sunPathSize - 2) = t.take (sunPathSize - 2)) :
      min s.length (sunPathSize - 2) = min t.length (sunPathSize - 2) := by
    simpa [Nat.min_comm] using congrArg List.length h
  constructor
  · intro h
    rw [← hread hs, ← hread ht, h]
  · intro h
    rw [padded, padded, h, hlength h]

theorem zero_not_mem_of_abstractText
    {ctrlPath : CString} {text : Binary} (h : abstractText ctrlPath.bytes = some text) :
    0 ∉ text := by
  unfold abstractText at h
  split at h
  · cases h
    exact List.not_mem_nil
  · rw [dropPrefix?_eq_some_append] at h
    have hnul := ctrlPath.noNul
    rw [h, List.mem_append, not_or] at hnul
    exact hnul.2

/-- `@abstract:`, with no name behind it. -/
def noName : CString where
  bytes := lit "@abstract:"
  noNul := by decide +kernel

end Destination

end WpaCtrl

end WpaSupplicant
