import Mathlib.Data.List.Basic
import SelectionLadder.Proofs.Containment
import SelectionLadder.Text.Basic

/-!
# Offsets and positions

A place in a text is a position or an offset, and the two say the same.

* `offsetAt_lt_offsetAt`: on the positions of a text the offset grows with the position.
* `inside_positionAt` and `offsetAt_positionAt`: the position at an offset is a position of the
  text, and its offset is the one that it was asked for, or the length of the text if that is
  smaller.
* `positionAt_offsetAt`: the position at the offset of a position is that position, moved into the
  text.
* `positionAt_mono`: the position grows with the offset.

The first two are inductions on the lines, the others follow from them.
-/

namespace SelectionLadder.Text

variable {t : Text} {p q : Position}

theorem lastLine_lt_length (t : Text) : t.lastLine < t.lines.length := by
  have := List.length_pos_iff.2 t.lines_ne_nil
  unfold lastLine
  omega

/-- There is no line after the last one. -/
theorem line?_eq_none {n : Nat} (h : t.lastLine < n) : t.line? n = none := by
  have := t.lastLine_lt_length
  rw [line?, List.getElem?_eq_none_iff]
  unfold lastLine at h this
  omega

/-! ## Clamping -/

theorem clamp_of_inside (h : t.Inside p) : t.clamp p = p := by
  obtain ⟨hline, hcolumn⟩ := h
  simp only [clamp, Nat.min_eq_left hline, Nat.min_eq_left hcolumn]

theorem inside_stop (t : Text) : t.Inside t.stop :=
  ⟨Nat.le_refl _, Nat.le_refl _⟩

theorem le_stop (h : t.Inside p) : p ≤ t.stop := by
  obtain ⟨hline, hcolumn⟩ := h
  rw [Position.le_def]
  simp only [stop]
  rcases Nat.lt_or_eq_of_le hline with hlt | heq
  · exact Or.inl hlt
  · rw [heq] at hcolumn
    exact Or.inr ⟨heq, hcolumn⟩

/-! ## Offsets of lines -/

theorem charCount_nil : charCount [] = 0 := rfl

theorem charCount_cons (line : Line) (lines : List Line) :
    charCount (line :: lines) = line.length + 1 + charCount lines := rfl

theorem charCount_append (before after : List Line) :
    charCount (before ++ after) = charCount before + charCount after := by
  induction before with
  | nil => rw [List.nil_append, charCount_nil, Nat.zero_add]
  | cons line lines ih =>
    rw [List.cons_append, charCount_cons, charCount_cons, ih]
    omega

/-- How many characters stand before a line. -/
def lineOffset (t : Text) (n : Nat) : Nat := charCount (t.lines.take n)

theorem lineOffset_succ {n : Nat} (h : n < t.lines.length) :
    t.lineOffset (n + 1) = t.lineOffset n + t.lineLength n + 1 := by
  simp only [lineOffset, lineLength, line?, List.take_add_one, List.getElem?_eq_getElem h,
    Option.toList_some, charCount_append, charCount_cons, charCount_nil, Option.map_some,
    Option.getD_some]
  omega

theorem lineOffset_le_of_le {m n : Nat} (h : m ≤ n) : t.lineOffset m ≤ t.lineOffset n := by
  obtain ⟨d, rfl⟩ := Nat.exists_eq_add_of_le h
  simp only [lineOffset, List.take_add, charCount_append]
  omega

theorem offsetAt_eq (h : t.Inside p) : t.offsetAt p = t.lineOffset p.line + p.column := by
  obtain ⟨hline, hcolumn⟩ := h
  simp only [offsetAt, lineOffset, Nat.min_eq_left hline, Nat.min_eq_left hcolumn]

theorem offsetAt_clamp (t : Text) (p : Position) : t.offsetAt (t.clamp p) = t.offsetAt p := by
  rw [offsetAt_eq (t.inside_clamp p)]
  rfl

/-- On the positions of a text the offset grows with the position. -/
theorem offsetAt_lt_offsetAt (hp : t.Inside p) (hq : t.Inside q) (h : p < q) :
    t.offsetAt p < t.offsetAt q := by
  rw [offsetAt_eq hp, offsetAt_eq hq]
  rw [Position.lt_def] at h
  rcases h with hline | ⟨hline, hcolumn⟩
  · have hlast := t.lastLine_lt_length
    have hshort : p.line < t.lines.length := by
      have := hp.1
      omega
    have hstart := lineOffset_succ hshort
    have hmono : t.lineOffset (p.line + 1) ≤ t.lineOffset q.line := lineOffset_le_of_le hline
    have hcolumn := hp.2
    omega
  · rw [hline]
    omega

theorem offsetAt_lt_offsetAt_iff (hp : t.Inside p) (hq : t.Inside q) :
    t.offsetAt p < t.offsetAt q ↔ p < q := by
  constructor
  · intro h
    by_contra hle
    rcases lt_or_eq_of_le (not_lt.1 hle) with hlt | heq
    · have := offsetAt_lt_offsetAt hq hp hlt
      omega
    · rw [heq] at h
      omega
  · exact offsetAt_lt_offsetAt hp hq

theorem offsetAt_le_offsetAt_iff (hp : t.Inside p) (hq : t.Inside q) :
    t.offsetAt p ≤ t.offsetAt q ↔ p ≤ q := by
  rw [← not_lt, ← not_lt, offsetAt_lt_offsetAt_iff hq hp]

theorem offsetAt_inj (hp : t.Inside p) (hq : t.Inside q) (h : t.offsetAt p = t.offsetAt q) :
    p = q :=
  le_antisymm ((offsetAt_le_offsetAt_iff hp hq).1 (Nat.le_of_eq h))
    ((offsetAt_le_offsetAt_iff hq hp).1 (Nat.le_of_eq h.symm))

theorem offsetAt_le_length (t : Text) (p : Position) : t.offsetAt p ≤ t.length := by
  rw [← offsetAt_clamp]
  exact (offsetAt_le_offsetAt_iff (t.inside_clamp p) t.inside_stop).2 (le_stop (t.inside_clamp p))

/-! ## Positions of offsets -/

/-- The position at an offset into lines of which the first has number `n` is on one of the lines
and not past its end, and as many characters stand before it as were asked for, as far as the
lines have them.  The induction is on the lines, where each step leaves one line behind. -/
theorem positionIn_spec (lines : List Line) (hne : lines ≠ []) (n offset : Nat) :
    ∃ k column, positionIn lines n offset = ⟨n + k, column⟩ ∧ k < lines.length ∧
      column ≤ (lines[k]?.map List.length).getD 0 ∧
      charCount (lines.take k) + column = min offset (charCount lines - 1) := by
  induction lines generalizing n offset with
  | nil => exact absurd rfl hne
  | cons line rest ih =>
    cases rest with
    | nil =>
      refine ⟨0, min offset line.length, rfl, by simp, ?_, ?_⟩
      · simp
      · simp [charCount_cons, charCount_nil]
    | cons next others =>
      have hpos : 1 ≤ charCount (next :: others) := by
        rw [charCount_cons]
        omega
      rw [positionIn]
      by_cases h : offset ≤ line.length
      · refine ⟨0, offset, ?_, by simp, ?_, ?_⟩
        · rw [if_pos h, Nat.add_zero]
        · simpa using h
        · rw [charCount_cons, List.take_zero, charCount_nil]
          omega
      · obtain ⟨k, column, hposition, hk, hcolumn, hsum⟩ :=
          ih (by simp) (n + 1) (offset - (line.length + 1))
        refine ⟨k + 1, column, ?_, by simpa using hk, by simpa using hcolumn, ?_⟩
        · rw [if_neg h, hposition, Nat.add_assoc, Nat.add_comm 1 k]
        · rw [List.take_succ_cons, charCount_cons, charCount_cons]
          omega

/-- All lines together have the characters of the text and one line break each. -/
theorem lineOffset_length (t : Text) : t.lineOffset t.lines.length = t.length + 1 := by
  have hlast := t.lastLine_lt_length
  have hstart := lineOffset_succ hlast
  have hlines : t.lastLine + 1 = t.lines.length := by
    unfold lastLine at hlast ⊢
    omega
  rw [← hlines, hstart, length, offsetAt_eq t.inside_stop, stop]

/-- Lines are joined by one character each. -/
theorem length_chars (t : Text) : t.chars.length = t.length := by
  have hjoined : ∀ lines : List Line, lines ≠ [] →
      (List.intercalate ['\n'] lines).length + 1 = charCount lines := by
    intro lines
    induction lines with
    | nil => exact fun hne => absurd rfl hne
    | cons line lines ih =>
      intro _
      cases lines with
      | nil => simp [List.intercalate, charCount]
      | cons next rest =>
        have hrest := ih (by simp)
        rw [charCount_cons, ← hrest]
        simp [List.intercalate, List.intersperse]
        omega
  have hall := hjoined t.lines t.lines_ne_nil
  have hlength := t.lineOffset_length
  rw [lineOffset, List.take_length] at hlength
  unfold chars
  omega

theorem positionAt_spec (t : Text) (offset : Nat) :
    t.Inside (t.positionAt offset) ∧
      t.offsetAt (t.positionAt offset) = min offset t.length := by
  obtain ⟨k, column, hposition, hk, hcolumn, hsum⟩ :=
    positionIn_spec t.lines t.lines_ne_nil 0 offset
  have hinside : t.Inside (t.positionAt offset) := by
    rw [positionAt, hposition, Nat.zero_add]
    refine ⟨?_, hcolumn⟩
    simp only [lastLine]
    omega
  refine ⟨hinside, ?_⟩
  have hlength := t.lineOffset_length
  rw [lineOffset, List.take_length] at hlength
  rw [offsetAt_eq hinside, positionAt, hposition, Nat.zero_add]
  simp only [lineOffset]
  omega

/-- The position at an offset is a position of the text. -/
theorem inside_positionAt (t : Text) (offset : Nat) : t.Inside (t.positionAt offset) :=
  (t.positionAt_spec offset).1

theorem offsetAt_positionAt (t : Text) (offset : Nat) :
    t.offsetAt (t.positionAt offset) = min offset t.length :=
  (t.positionAt_spec offset).2

theorem offsetAt_positionAt_of_le {offset : Nat} (h : offset ≤ t.length) :
    t.offsetAt (t.positionAt offset) = offset := by
  rw [offsetAt_positionAt, Nat.min_eq_left h]

theorem positionAt_offsetAt (t : Text) (p : Position) :
    t.positionAt (t.offsetAt p) = t.clamp p := by
  apply offsetAt_inj (t.inside_positionAt _) (t.inside_clamp p)
  rw [offsetAt_positionAt_of_le (t.offsetAt_le_length p), offsetAt_clamp]

/-- A position of the text is the position at its offset. -/
theorem positionAt_offsetAt_of_inside (h : t.Inside p) : t.positionAt (t.offsetAt p) = p := by
  rw [positionAt_offsetAt, clamp_of_inside h]

theorem positionAt_mono (t : Text) {m n : Nat} (h : m ≤ n) : t.positionAt m ≤ t.positionAt n := by
  rw [← offsetAt_le_offsetAt_iff (t.inside_positionAt m) (t.inside_positionAt n),
    offsetAt_positionAt, offsetAt_positionAt]
  omega

end SelectionLadder.Text
