import WpaSupplicant.InteractiveRequests
import WpaSupplicant.OptionRoundTrip
import WpaSupplicant.QuotedLines

/-!
# Requests told apart by their text

The documented requests are the interactive responses, and the commands with up
to three arguments, only the last of which may be a string.  No string is
escaped, yet the text that `encode` gives determines the request, up to the text
of its integers, atoms and bare strings.

* `encode_requestTerm`: a command is encoded as a line of words with a quoted end;
* `encode_response_ne`: no response is encoded as a command;
* `encode_unambiguous`: requests with the same text are the same.
-/

namespace WpaSupplicant

open ElixirString Encode

/-- The text that `to_string` gives for a term, if it gives one. -/
def Term.chars (t : Term) : Binary :=
  t.toString.toOption.getD []

/-- Neither a space nor a double quote is in it. -/
def IsPlainText (b : Binary) : Prop :=
  Piece.IsWord ' '.toUInt8 '"'.toUInt8 b

instance (b : Binary) : Decidable (IsPlainText b) :=
  inferInstanceAs (Decidable (_ ∧ _))

/-- An integer, or an atom with a plain text (which may be empty). -/
def IsPlainArg : Term → Prop
  | .int _ => True
  | .atom a => IsPlainText (Term.atom a).chars
  | _ => False

/-- A command atom: its text is plain and not that of an interactive response. -/
def IsCommand (cmd : Atom) : Prop :=
  IsPlainText (Term.atom cmd).chars ∧ ¬ lit "CTRL-RSP-" <+: (Term.atom cmd).chars

/-- The documented shapes of a request: its command and its arguments. -/
inductive Documented : Atom → List Term → Prop
  | response
      {rsp : Atom} (hrsp : rsp.name ∈ ctrlRspCommands) (n : Int) (string : Binary) :
      Documented rsp [.int n, .binary string]
  | alone
      {cmd : Atom} (hcmd : IsCommand cmd) :
      Documented cmd []
  | withArgs
      {cmd : Atom} {args : List Term} {last : Term}
      (hcmd : IsCommand cmd)
      (hargs : ∀ arg ∈ args, IsPlainArg arg)
      (hlen : args.length ≤ 2)
      (hlast : IsPlainArg last ∨ ∃ string, last = .binary string) :
      Documented cmd (args ++ [last])

/-- The term of a command with arguments. -/
def requestTerm (cmd : Atom) : List Term → Term
  | [] => .atom cmd
  | args => .tuple (.atom cmd :: args)

/-- A request of a documented shape. -/
structure DocumentedRequest where
  cmd : Atom
  args : List Term
  documented : Documented cmd args

/-- The term that is passed to `encode`. -/
def DocumentedRequest.term (r : DocumentedRequest) : Term :=
  requestTerm r.cmd r.args

/--
What an argument is told by: a string that `encode_arg` does not leave bare by
itself, everything else by its text.
-/
def piece (U : GraphemeTable) : Term → Piece UInt8
  | .binary s => if isMacAddress U s then .word s else .quoted s
  | arg => .word arg.chars

/-- The arguments are equal up to the text of integers, atoms and bare strings. -/
def SameArg (U : GraphemeTable) (arg arg' : Term) : Prop :=
  piece U arg = piece U arg'

section Texts

theorem toString_eq_chars {t : Term} (h : t.HasString) : t.toString = .ok t.chars := by
  obtain ⟨b, hb⟩ := (Term.toString_returns_iff t).mpr h
  rw [Term.chars, hb]
  rfl

/-- Strings are told by themselves. -/
theorem sameArg_binary_iff (U : GraphemeTable) (s s' : Binary) :
    SameArg U (.binary s) (.binary s') ↔ s = s' := by
  constructor
  · intro h
    simp only [SameArg, piece] at h
    split at h <;> split at h <;> cases h <;> rfl
  · rintro rfl
    rfl

theorem chars_atom (a : Atom) :
    (Term.atom a).chars = if a = Atom.nil then [] else a.name :=
  rfl

/-- Atoms with the same text are the same unless the text is empty. -/
theorem atom_eq_of_chars_eq
    {a a' : Atom} (h : (Term.atom a).chars = (Term.atom a').chars)
    (hne : (Term.atom a).chars ≠ []) :
    a = a' := by
  have ha : a ≠ Atom.nil := fun ha => hne (by rw [chars_atom, if_pos ha])
  have ha' : a' ≠ Atom.nil := fun ha' => hne (by rw [h, chars_atom, if_pos ha'])
  rw [chars_atom, chars_atom, if_neg ha, if_neg ha'] at h
  exact Atom.eq_of_name_eq h

theorem isPlainText_digits (n : Nat) : IsPlainText (digits n) :=
  ⟨not_mem_digits (by decide) n, not_mem_digits (by decide) n⟩

theorem isPlainText_decimal (n : Int) : IsPlainText (decimal n) := by
  cases n with
  | ofNat n =>
      rw [Int.ofNat_eq_natCast, decimal_natCast]
      exact isPlainText_digits n
  | negSucc n =>
      obtain ⟨hspace, hquote⟩ := isPlainText_digits (n + 1)
      have hdash : ' '.toUInt8 ≠ '-'.toUInt8 ∧ '"'.toUInt8 ≠ '-'.toUInt8 := by decide
      rw [decimal_negSucc]
      exact ⟨by simp [hspace, hdash.1], by simp [hquote, hdash.2]⟩

/-- A string left bare is a word. -/
theorem isPlainText_of_isMacAddress
    {U : GraphemeTable} {s : Binary} (h : isMacAddress U s = true) :
    IsPlainText s := by
  have hspace : Stripped ' ' := .inl (by simp [whitespaceChars])
  have hnot {c : Char} {x : UInt8} (hc : Stripped c) (hx : String.utf8EncodeChar c = [x]) :
      x ∉ s := by
    intro hmem
    obtain ⟨front, rest, rfl⟩ := List.append_of_mem hmem
    exact not_infix_of_isMacAddress h hc ⟨front, rest, by rw [hx]; simp⟩
  exact ⟨hnot hspace (by decide), hnot (.inr rfl) (by decide)⟩

end Texts

section Pieces

variable (U : GraphemeTable)

theorem IsPlainArg.hasString {arg : Term} (h : IsPlainArg arg) : arg.HasString := by
  cases arg with
  | int | atom =>
      trivial
  | _ =>
      exact h.elim

/-- The piece of a plain argument is a word. -/
theorem IsPlainArg.readable_cons
    {arg : Term} (h : IsPlainArg arg) {ps : List (Piece UInt8)}
    (hps : Piece.Readable ' '.toUInt8 '"'.toUInt8 ps) :
    Piece.Readable ' '.toUInt8 '"'.toUInt8 (piece U arg :: ps) := by
  cases arg with
  | int n =>
      exact .word (isPlainText_decimal n) hps
  | atom a =>
      exact .word h hps
  | _ =>
      exact h.elim

theorem readable_string (s : Binary) :
    Piece.Readable ' '.toUInt8 '"'.toUInt8 [piece U (.binary s)] := by
  rw [piece]
  split
  · next h =>
      exact .word (isPlainText_of_isMacAddress h) .nil
  · exact .quoted s

/-- Plain arguments and then a plain argument or a string can be read back. -/
theorem readable_args
    {args : List Term} {last : Term} (hargs : ∀ arg ∈ args, IsPlainArg arg)
    (hlast : IsPlainArg last ∨ ∃ string, last = .binary string) :
    Piece.Readable ' '.toUInt8 '"'.toUInt8 ((args ++ [last]).map (piece U)) := by
  induction args with
  | nil =>
      rcases hlast with h | ⟨s, rfl⟩
      · exact h.readable_cons U .nil
      · exact readable_string U s
  | cons arg args ih =>
      exact (hargs arg (by simp)).readable_cons U
        (ih fun a ha => hargs a (List.mem_cons_of_mem _ ha))

/-- `encode_arg` writes the piece of an argument. -/
theorem encodeArg_eq_piece {arg : Term} (h : arg.HasString) :
    encodeArg U arg = .ok ((piece U arg).text '"'.toUInt8) := by
  cases arg with
  | binary s =>
      rw [encodeArg, encodeBinaryArg, piece]
      split <;> rfl
  | _ =>
      exact toString_eq_chars h

end Pieces

section Commands

variable (U : GraphemeTable)

/-- The text of a command: its name and the pieces of its arguments. -/
def commandText (cmd : Atom) (args : List Term) : Binary :=
  (Term.atom cmd).chars ++ Piece.behind ' '.toUInt8 '"'.toUInt8 (args.map (piece U))

/-- A command is none of the interactive responses. -/
theorem IsCommand.not_mem {cmd : Atom} (h : IsCommand cmd) :
    cmd.name ∉ ctrlRspCommands := by
  intro hmem
  have hnil : cmd ≠ Atom.nil := by
    rintro rfl
    exact absurd hmem (by decide +kernel)
  obtain ⟨field, hname, _⟩ := exists_field_of_mem hmem
  apply h.2
  rw [chars_atom, if_neg hnil, hname]
  exact List.prefix_append _ _

theorem commandText_eq_foldl (cmd : Atom) (args : List Term) :
    commandText U cmd args =
      args.foldl (fun line arg => line ++ lit " " ++ (piece U arg).text '"'.toUInt8)
        (Term.atom cmd).chars := by
  rw [commandText, Piece.append_behind_eq_foldl, List.foldl_map]
  rfl

/-- A command with up to three arguments is encoded as a line. -/
theorem encode_requestTerm
    {cmd : Atom} {args : List Term} (hcmd : IsCommand cmd)
    (hargs : ∀ arg ∈ args, arg.HasString) (hlen : args.length ≤ 3) :
    encode U (requestTerm cmd args) = .ok (commandText U cmd args) := by
  have hname : (Term.atom cmd).toString = .ok (Term.atom cmd).chars :=
    toString_eq_chars trivial
  have harg (arg : Term) (h : arg ∈ args) :=
    encodeArg_eq_piece U (hargs arg h)
  rw [commandText_eq_foldl]
  match args with
  | [] =>
      exact hname
  | [a] =>
      simp only [requestTerm, encode, hname, harg a (by simp)]
      rfl
  | [a, b] =>
      simp only [requestTerm, encode, if_neg hcmd.not_mem, hname, harg a (by simp),
        harg b (by simp)]
      rfl
  | [a, b, c] =>
      simp only [requestTerm, encode, hname, harg a (by simp), harg b (by simp),
        harg c (by simp)]
      rfl

end Commands

section Requests

variable (U : GraphemeTable)

/-- A documented request is a line that can be read back, or an interactive response. -/
theorem Documented.command_or_response
    {cmd : Atom} {args : List Term} (h : Documented cmd args) :
    (IsCommand cmd ∧ Piece.Readable ' '.toUInt8 '"'.toUInt8 (args.map (piece U)) ∧
        encode U (requestTerm cmd args) = .ok (commandText U cmd args)) ∨
      cmd.name ∈ ctrlRspCommands ∧ ∃ n string, args = [.int n, .binary string] := by
  cases h with
  | response hrsp n string =>
      exact .inr ⟨hrsp, n, string, rfl⟩
  | alone hcmd =>
      exact .inl ⟨hcmd, .nil, encode_requestTerm U hcmd (by simp) (by simp)⟩
  | @withArgs args last hcmd hargs hlen hlast =>
      refine .inl ⟨hcmd, readable_args U hargs hlast, encode_requestTerm U hcmd ?_ ?_⟩
      · intro arg harg
        rcases List.mem_append.mp harg with harg | harg
        · exact (hargs arg harg).hasString
        · obtain rfl := List.mem_singleton.mp harg
          rcases hlast with h | ⟨string, rfl⟩
          · exact h.hasString
          · trivial
      · rw [List.length_append, List.length_singleton]
        omega

/-- A response is not encoded as a command is. -/
theorem encode_response_ne
    {rsp cmd : Atom} (hrsp : rsp.name ∈ ctrlRspCommands) (hcmd : IsCommand cmd)
    (n : Int) (answer : Binary) (args : List Term) :
    encode U (response rsp n answer) ≠ .ok (commandText U cmd args) := by
  intro h
  have hspace : ' '.toUInt8 ∉ lit "CTRL-RSP-" := by decide
  obtain ⟨field, hname, _⟩ := exists_field_of_mem hrsp
  rw [encode_response U n answer hrsp, Except.ok.injEq, hname] at h
  apply hcmd.2
  apply Piece.isPrefix_of_append_behind hspace
  rw [← commandText, ← h]
  simp only [List.append_assoc]
  exact List.prefix_append _ _

/--
Two documented requests that are encoded as the same text have the same command,
the same number of arguments and the same arguments.  Only the atoms `nil` and
`:""` have the same text without being the same command.
-/
theorem encode_unambiguous
    (r r' : DocumentedRequest) {text : Binary}
    (h : encode U r.term = .ok text) (h' : encode U r'.term = .ok text) :
    (Term.atom r.cmd).chars = (Term.atom r'.cmd).chars ∧
      ((Term.atom r.cmd).chars ≠ [] → r.cmd = r'.cmd) ∧
      r.args.length = r'.args.length ∧
      List.Forall₂ (SameArg U) r.args r'.args := by
  obtain ⟨cmd, args, hdoc⟩ := r
  obtain ⟨cmd', args', hdoc'⟩ := r'
  simp only [DocumentedRequest.term] at h h'
  rcases hdoc.command_or_response U with ⟨hcmd, hread, henc⟩ | ⟨hrsp, n, s, rfl⟩ <;>
    rcases hdoc'.command_or_response U with ⟨hcmd', hread', henc'⟩ | ⟨hrsp', n', s', rfl⟩
  · rw [henc, Except.ok.injEq] at h
    rw [henc', Except.ok.injEq, ← h] at h'
    obtain ⟨hchars, hpieces⟩ :=
      Piece.append_behind_inj (by decide) hread hread' hcmd.1.1 hcmd'.1.1 h'.symm
    have hsame : List.Forall₂ (SameArg U) args args' := by
      rw [← List.forall₂_eq_eq_eq, List.forall₂_map_left_iff,
        List.forall₂_map_right_iff] at hpieces
      exact hpieces
    exact ⟨hchars, atom_eq_of_chars_eq hchars, hsame.length_eq, hsame⟩
  · exact absurd (h'.trans (h.symm.trans henc)) (encode_response_ne U hrsp' hcmd n' s' args)
  · exact absurd (h.trans (h'.symm.trans henc')) (encode_response_ne U hrsp hcmd' n s args')
  · obtain ⟨rfl, rfl, rfl⟩ := response_inj U hrsp hrsp' (h.trans h'.symm)
    exact ⟨rfl, fun _ => rfl, rfl, List.forall₂_same.mpr fun _ _ => rfl⟩

/-- `:PREAUTH`. -/
def preauth : Atom :=
  ⟨lit "PREAUTH", by decide +kernel, by decide +kernel⟩

theorem isCommand_preauth : IsCommand preauth :=
  ⟨by decide +kernel, by decide +kernel⟩

/-- `{:PREAUTH, bssid}` with the address as a string. -/
def preauthString (bssid : Binary) : DocumentedRequest where
  cmd := preauth
  args := [.binary bssid]
  documented := @Documented.withArgs preauth [] (.binary bssid) isCommand_preauth
    (by simp) (by simp) (.inr ⟨bssid, rfl⟩)

/-- `{:PREAUTH, bssid}` with the address as an atom. -/
def preauthAtom (bssid : Atom) (h : IsPlainText (Term.atom bssid).chars) :
    DocumentedRequest where
  cmd := preauth
  args := [.atom bssid]
  documented := @Documented.withArgs preauth [] (.atom bssid) isCommand_preauth
    (by simp) (by simp) (.inl h)

/-- A bare address and an atom are encoded as the same text and count as the same. -/
theorem encode_unambiguous_preauth :
    encode .latin (preauthString (lit "00:09:5b:95:e0:4e")).term =
        .ok (lit "PREAUTH 00:09:5b:95:e0:4e") ∧
      SameArg .latin (.binary (lit "00:09:5b:95:e0:4e"))
        (.atom ⟨lit "00:09:5b:95:e0:4e", by decide +kernel, by decide +kernel⟩) := by
  have h : encode .latin (preauthString (lit "00:09:5b:95:e0:4e")).term =
      .ok (lit "PREAUTH 00:09:5b:95:e0:4e") := by
    decide +kernel
  have h' : encode .latin (preauthAtom
      ⟨lit "00:09:5b:95:e0:4e", by decide +kernel, by decide +kernel⟩
      (by decide +kernel)).term = .ok (lit "PREAUTH 00:09:5b:95:e0:4e") := by
    decide +kernel
  obtain ⟨_, _, _, hargs⟩ := encode_unambiguous .latin _ _ h h'
  exact ⟨h, (List.forall₂_cons.mp hargs).1⟩

end Requests

end WpaSupplicant
