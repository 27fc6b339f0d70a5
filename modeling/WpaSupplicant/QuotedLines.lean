import WpaSupplicant.SeparatedTokens

/-!
# Lines of words with a quoted end

A line is a first word and the pieces behind it, each after a separator.  A
piece is a word or a text between quotes.  The quoted text is not escaped, so
only the last piece may be one.

* `append_behind_inj`: the first word and the pieces can be read back;
* `isPrefix_of_append_behind`: a front without separators is one of the first
  word.
-/

namespace WpaSupplicant

universe u

/-- A piece of a line. -/
inductive Piece (α : Type u)
  | word (w : List α)
  | quoted (s : List α)

namespace Piece

variable {α : Type u}

/-- A piece as it stands in the line. -/
def text (quote : α) : Piece α → List α
  | word w => w
  | quoted s => quote :: (s ++ [quote])

section Lines

variable (sep quote : α)

/-- Neither a separator nor a quote is in it. -/
def IsWord (w : List α) : Prop :=
  sep ∉ w ∧ quote ∉ w

/-- Words, the last of which may be a quoted text instead. -/
inductive Readable : List (Piece α) → Prop
  | nil : Readable []
  | quoted (s : List α) : Readable [.quoted s]
  | word
      {w : List α} {ps : List (Piece α)}
      (hw : IsWord sep quote w)
      (hps : Readable ps) :
      Readable (.word w :: ps)

/-- The pieces of a line, each after a separator. -/
def behind : List (Piece α) → List α
  | [] => []
  | p :: ps => sep :: (p.text quote ++ behind ps)

variable {sep quote : α}

/-- A line is built up piece by piece. -/
theorem append_behind_eq_foldl (w : List α) (ps : List (Piece α)) :
    w ++ behind sep quote ps =
      ps.foldl (fun line p => line ++ [sep] ++ p.text quote) w := by
  induction ps generalizing w with
  | nil =>
      simp [behind]
  | cons p ps ih =>
      rw [List.foldl_cons, ← ih, behind]
      simp

/-- A word and what follows it do not start with a quote. -/
theorem append_behind_ne_quote_cons
    (hne : sep ≠ quote) {w : List α} (hw : IsWord sep quote w)
    (ps : List (Piece α)) (t : List α) :
    w ++ behind sep quote ps ≠ quote :: t := by
  intro h
  cases w with
  | nil =>
      cases ps with
      | nil =>
          cases h
      | cons p ps =>
          exact hne (List.cons.inj h).1
  | cons x w =>
      exact List.ne_of_not_mem_cons hw.2 (List.cons.inj h).1.symm

/-- A text without separators is no longer line. -/
theorem ne_append_behind_cons
    {w : List α} (hw : sep ∉ w) (w' : List α) (p : Piece α) (ps : List (Piece α)) :
    w ≠ w' ++ behind sep quote (p :: ps) := by
  rintro rfl
  simp [behind] at hw

/-- The first word and the pieces of a line are determined by its text. -/
theorem append_behind_inj
    (hne : sep ≠ quote) {w w' : List α} {ps ps' : List (Piece α)}
    (hps : Readable sep quote ps) (hps' : Readable sep quote ps')
    (hw : sep ∉ w) (hw' : sep ∉ w')
    (h : w ++ behind sep quote ps = w' ++ behind sep quote ps') :
    w = w' ∧ ps = ps' := by
  induction hps generalizing w w' ps' with
  | nil =>
      rw [behind, List.append_nil] at h
      cases ps' with
      | nil =>
          exact ⟨by simpa [behind] using h, rfl⟩
      | cons p ps' =>
          exact absurd h (ne_append_behind_cons hw w' p ps')
  | quoted s =>
      cases hps' with
      | nil =>
          rw [behind, List.append_nil] at h
          exact absurd h.symm (ne_append_behind_cons hw' w _ _)
      | quoted s' =>
          obtain ⟨hfirst, hrest⟩ := append_cons_inj_of_not_mem hw hw' h
          simp only [text, behind, List.append_nil, List.cons.injEq, true_and,
            List.append_left_inj] at hrest
          exact ⟨hfirst, by rw [hrest]⟩
      | word hv' hps' =>
          obtain ⟨_, hrest⟩ := append_cons_inj_of_not_mem hw hw' h
          exact absurd hrest.symm (append_behind_ne_quote_cons hne hv' _ _)
  | @word v ps hv hps ih =>
      cases hps' with
      | nil =>
          rw [behind, List.append_nil] at h
          exact absurd h.symm (ne_append_behind_cons hw' w _ _)
      | quoted s' =>
          obtain ⟨_, hrest⟩ := append_cons_inj_of_not_mem hw hw' h
          exact absurd hrest (append_behind_ne_quote_cons hne hv _ _)
      | @word v' ps' hv' hps' =>
          obtain ⟨hfirst, hrest⟩ := append_cons_inj_of_not_mem hw hw' h
          obtain ⟨hv, hpieces⟩ := ih hps' hv.1 hv'.1 hrest
          exact ⟨hfirst, by rw [hv, hpieces]⟩

/-- A front without separators lies in the first word. -/
theorem isPrefix_of_append_behind
    {p w : List α} {ps : List (Piece α)} (hp : sep ∉ p)
    (h : p <+: w ++ behind sep quote ps) :
    p <+: w := by
  cases ps with
  | nil =>
      simpa [behind] using h
  | cons q ps =>
      exact isPrefix_of_isPrefix_append_cons hp h

end Lines

end Piece
end WpaSupplicant
