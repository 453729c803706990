import SelectionLadder.Proofs.Text.Offsets
import SelectionLadder.Proofs.Word.Placement
import SelectionLadder.Text.Tiers

/-!
# How the units of a text lie

Word, line, paragraph and document around a position lie inside each other, and paragraphs are
closed: the paragraphs at the ends of a stretch of whole paragraphs are inside it.

* `Text.Has` says that both ends of a range are positions of the text.  The units that commands
  select have it.
* `IsWordAt` is what is known of the word at a place when words lie inside their line: it is a caret
  there, or a range of the line that holds the place.
* `blockStart_eq` and `blockLast_eq` characterise the two scans for the lines of a paragraph: they
  stop at the first blank line.
* `paragraphsOver_paragraphsOver`: the paragraphs over the ends of the paragraphs over a range are
  these paragraphs again.
-/

namespace SelectionLadder

namespace Text

variable {t : Text} {p q : Position} {r s : Range} {m : Matcher}

/-! ## Ranges of a text -/

/-- Both ends of the range are positions of the text. -/
def Has (t : Text) (r : Range) : Prop := t.Inside r.start ∧ t.Inside r.stop

theorem has_caret (h : t.Inside p) : t.Has (.caret p) := ⟨h, h⟩

theorem Has.line_le (h : t.Has r) (hp : r.Holds p) : p.line ≤ t.lastLine := by
  have hstop := h.2.1
  have hle := hp.2
  rw [Position.le_def] at hle
  omega

/-- A range of the text holds a position also after it was moved into the text. -/
theorem Has.holds_clamp (h : t.Has r) (hp : r.Holds p) : r.Holds (t.clamp p) := by
  have hline : min p.line t.lastLine = p.line := Nat.min_eq_left (h.line_le hp)
  obtain ⟨hstart, hstop⟩ := hp
  have hcolumn := h.1.2
  rw [Position.le_def] at hstart hstop
  simp only [Range.Holds, Position.le_def, clamp, hline]
  constructor
  · rcases hstart with hlt | ⟨heq, hle⟩
    · exact Or.inl hlt
    · rw [heq] at hcolumn
      exact Or.inr ⟨heq, Nat.le_min.2 ⟨hle, hcolumn⟩⟩
  · omega

theorem inside_min (hp : t.Inside p) (hq : t.Inside q) : t.Inside (min p q) := by
  rcases le_total p q with hle | hle
  · rwa [min_eq_left hle]
  · rwa [min_eq_right hle]

theorem inside_max (hp : t.Inside p) (hq : t.Inside q) : t.Inside (max p q) := by
  rcases le_total p q with hle | hle
  · rwa [max_eq_right hle]
  · rwa [max_eq_left hle]

theorem Has.union (hr : t.Has r) (hs : t.Has s) : t.Has (r.union s) :=
  ⟨inside_min hr.1 hs.1, inside_max hr.2 hs.2⟩

theorem Has.intersection {u : Range} (hr : t.Has r) (hs : t.Has s)
    (h : r.intersection s = some u) : t.Has u := by
  unfold Range.intersection at h
  split at h
  · obtain rfl := Option.some.inj h
    exact ⟨inside_max hr.1 hs.1, inside_min hr.2 hs.2⟩
  · exact absurd h (by simp)

theorem length_slice (h : t.Has r) :
    (t.slice r).length = t.offsetAt r.stop - t.offsetAt r.start := by
  have hle := (offsetAt_le_offsetAt_iff h.1 h.2).2 r.start_le_stop
  have hlength := t.offsetAt_le_length r.stop
  rw [slice, List.length_take, List.length_drop, length_chars]
  omega

theorem documentRange_contains (h : t.Has r) : t.documentRange.Contains r :=
  ⟨Position.zero_le _, le_stop h.2⟩

theorem has_documentRange (t : Text) : t.Has t.documentRange :=
  ⟨t.inside_zero, t.inside_stop⟩

/-! ## Lines -/

theorem has_lineRange (hp : p.line ≤ t.lastLine) : t.Has (t.lineRange p) :=
  ⟨⟨hp, Nat.zero_le _⟩, ⟨hp, Nat.le_refl _⟩⟩

theorem lineRange_holds (h : t.Inside p) : (t.lineRange p).Holds p :=
  ⟨Position.lineStart_le p, Position.le_of_column_le h.2⟩

theorem isSingleLine_lineRange (t : Text) (p : Position) : (t.lineRange p).IsSingleLine := rfl

/-- A range on one line lies in the line of every position that it holds. -/
theorem lineRange_contains (h : t.Has r) (hline : r.IsSingleLine) (hp : r.Holds p) :
    (t.lineRange p).Contains r := by
  obtain ⟨⟨hstartLine, hstartColumn⟩, ⟨hstopLine, hstopColumn⟩⟩ := h
  obtain ⟨hle, hge⟩ := hp
  have hsame : r.start.line = r.stop.line := hline
  rw [Position.le_def] at hle hge
  have hstart : p.line = r.start.line := by omega
  have hstop : p.line = r.stop.line := by omega
  constructor
  · rw [Position.le_def]
    simp only [lineRange, Position.lineStart]
    omega
  · show r.stop ≤ ⟨p.line, t.lineLength p.line⟩
    rw [hstop]
    exact Position.le_of_column_le hstopColumn

/-- A range of the text on one line holds positions of the text only. -/
theorem Has.inside_of_holds (h : t.Has r) (hline : r.IsSingleLine) (hp : r.Holds p) :
    t.Inside p := by
  have hstop := ((lineRange_contains h hline hp).holds hp).2
  refine ⟨h.line_le hp, ?_⟩
  rw [Position.le_def] at hstop
  simp only [lineRange] at hstop
  omega

/-- What lies in a line of the text has its ends in the text. -/
theorem has_of_lineRange_contains (hp : p.line ≤ t.lastLine) (h : (t.lineRange p).Contains r) :
    t.Has r := by
  obtain ⟨hstart, hstop⟩ := h
  have hle := r.start_le_stop
  rw [Position.le_def] at hstart hstop hle
  simp only [lineRange, Position.lineStart] at hstart hstop
  have hstartLine : r.start.line = p.line := by omega
  have hstopLine : r.stop.line = p.line := by omega
  refine ⟨⟨by omega, ?_⟩, ⟨by omega, ?_⟩⟩
  · rw [hstartLine]
    omega
  · rw [hstopLine]
    omega

/-! ## Words -/

/-- The range is a word at the position, or a caret there: it holds the position, and lies in its
line unless it is a caret. -/
structure IsWordAt (t : Text) (p : Position) (w : Range) : Prop where
  holds : w.Holds p
  in_line : ¬ w.IsEmpty → (t.lineRange p).Contains w

theorem isWordAt_caret (t : Text) (p : Position) : t.IsWordAt p (.caret p) where
  holds := ⟨le_refl p, le_refl p⟩
  in_line := fun h => absurd (Range.isEmpty_caret p) h

/-- The word range at a position is a word there or a caret. -/
theorem isWordAt_wordRange (hm : m.StaysInside) (t : Text) (p : Position) :
    t.IsWordAt p (t.wordRange m p) := by
  unfold wordRange
  split
  · rename_i w hw
    obtain ⟨line, hline, hfind⟩ := Option.bind_eq_some_iff.1 hw
    have htouches : w.Touches p.column := by
      simpa using List.find?_some hfind
    have hstop : w.stop ≤ line.length := hm line w (List.mem_of_find?_eq_some hfind)
    refine ⟨⟨Position.le_of_column_le htouches.1, Position.le_of_column_le htouches.2⟩, ?_⟩
    intro _
    refine ⟨Position.le_of_column_le (Nat.zero_le _), Position.le_of_column_le ?_⟩
    simp only [lineLength, hline, Option.map_some, Option.getD_some]
    exact hstop
  · exact t.isWordAt_caret p

namespace IsWordAt

variable {w : Range}

theorem eq_caret (h : t.IsWordAt p w) (hw : w.IsEmpty) : w = .caret p :=
  hw.eq_caret_of_holds h.holds

/-- Only a line of the text has words. -/
theorem line_le (h : t.IsWordAt p w) (hw : ¬ w.IsEmpty) : p.line ≤ t.lastLine := by
  by_contra hline
  have hnone : t.line? p.line = none := line?_eq_none (Nat.lt_of_not_le hline)
  have hempty : (t.lineRange p).IsEmpty := by
    simp only [lineRange, Range.IsEmpty, Position.lineStart, lineLength, hnone, Option.map_none,
      Option.getD_none]
  exact hw (hempty.of_contains (h.in_line hw))

theorem has (h : t.IsWordAt p w) (hw : ¬ w.IsEmpty) : t.Has w :=
  has_of_lineRange_contains (h.line_le hw) (h.in_line hw)

theorem isSingleLine (h : t.IsWordAt p w) : w.IsSingleLine := by
  by_cases hw : w.IsEmpty
  · rw [h.eq_caret hw]
    rfl
  · exact (h.in_line hw).isSingleLine (t.isSingleLine_lineRange p)

/-- At a position of the text the word lies in its line, also where it is a caret. -/
theorem lineRange_contains (h : t.IsWordAt p w) (hp : t.Inside p) : (t.lineRange p).Contains w := by
  by_cases hw : w.IsEmpty
  · rw [h.eq_caret hw]
    exact lineRange_holds hp
  · exact h.in_line hw

end IsWordAt

/-! ## Blocks of lines -/

/-- The last line of the block of lines that starts at line `n`. -/
def blockLast (t : Text) (n : Nat) : Nat := t.blockStop n (t.lastLine - n)

/-- The line where the scan backwards ends: no line on the way is blank, and there is none before
it or that one is blank. -/
theorem blockStart_eq {n s : Nat} (hs : s ≤ n) (hfull : ∀ k, s ≤ k → k < n → ¬ t.IsBlank k)
    (hend : s = 0 ∨ t.IsBlank (s - 1)) : t.blockStart n = s := by
  induction n with
  | zero =>
    rw [blockStart]
    omega
  | succ n ih =>
    rw [blockStart]
    by_cases h : s = n + 1
    · rw [h, Nat.add_sub_cancel] at hend
      rcases hend with hzero | hblank
      · omega
      · rw [if_pos hblank, h]
    · have hlast : ¬ t.IsBlank n := hfull n (by omega) (by omega)
      rw [if_neg hlast]
      apply ih (by omega)
      intro k hk hkn
      exact hfull k hk (by omega)

theorem not_isBlank_of_blockStart_le {n k : Nat} (hk : t.blockStart n ≤ k) (hkn : k < n) :
    ¬ t.IsBlank k := by
  induction n with
  | zero => omega
  | succ n ih =>
    rw [blockStart] at hk
    split at hk
    · omega
    · rename_i hblank
      by_cases h : k = n
      · exact h ▸ hblank
      · exact ih hk (by omega)

theorem blockStart_eq_zero_or (t : Text) (n : Nat) :
    t.blockStart n = 0 ∨ t.IsBlank (t.blockStart n - 1) := by
  induction n with
  | zero => exact Or.inl rfl
  | succ n ih =>
    rw [blockStart]
    split
    · rename_i hblank
      exact Or.inr hblank
    · exact ih

/-- The scan backwards ends at the same line from every line on its way. -/
theorem blockStart_eq_of_mem {n k : Nat} (hk : t.blockStart n ≤ k) (hkn : k ≤ n) :
    t.blockStart k = t.blockStart n := by
  apply blockStart_eq hk _ (t.blockStart_eq_zero_or n)
  intro j hj hjk
  exact not_isBlank_of_blockStart_le hj (by omega)

theorem blockStart_blockStart (t : Text) (n : Nat) :
    t.blockStart (t.blockStart n) = t.blockStart n :=
  blockStart_eq_of_mem (Nat.le_refl _) (t.blockStart_le n)

theorem blockStart_mono (t : Text) {k n : Nat} (h : k ≤ n) : t.blockStart k ≤ t.blockStart n := by
  by_cases hk : t.blockStart n ≤ k
  · exact Nat.le_of_eq (blockStart_eq_of_mem hk h)
  · have := t.blockStart_le k
    omega

/-- The line where the scan forwards ends: no line on the way is blank, and there is none after
it or that one is blank. -/
theorem blockStop_eq {n after s : Nat} (hn : n ≤ s) (hs : s ≤ n + after)
    (hfull : ∀ k, n < k → k ≤ s → ¬ t.IsBlank k) (hend : s = n + after ∨ t.IsBlank (s + 1)) :
    t.blockStop n after = s := by
  induction after generalizing n with
  | zero =>
    rw [blockStop]
    omega
  | succ after ih =>
    rw [blockStop]
    by_cases h : s = n
    · rw [h] at hend
      rcases hend with hall | hblank
      · omega
      · rw [if_pos hblank, h]
    · have hnext : ¬ t.IsBlank (n + 1) := hfull (n + 1) (by omega) (by omega)
      rw [if_neg hnext]
      apply ih (by omega) (by omega)
      · intro k hk hks
        exact hfull k (by omega) hks
      · rcases hend with hall | hblank
        · exact Or.inl (by omega)
        · exact Or.inr hblank

theorem not_isBlank_of_le_blockStop {n after k : Nat} (hnk : n < k)
    (hk : k ≤ t.blockStop n after) : ¬ t.IsBlank k := by
  induction after generalizing n with
  | zero =>
    rw [blockStop] at hk
    omega
  | succ after ih =>
    rw [blockStop] at hk
    split at hk
    · omega
    · rename_i hblank
      by_cases h : k = n + 1
      · exact h ▸ hblank
      · exact ih (by omega) hk

theorem blockStop_le (t : Text) (n after : Nat) : t.blockStop n after ≤ n + after := by
  induction after generalizing n with
  | zero => exact Nat.le_refl n
  | succ after ih =>
    rw [blockStop]
    split
    · omega
    · have := ih (n + 1)
      omega

theorem blockStop_eq_or (t : Text) (n after : Nat) :
    t.blockStop n after = n + after ∨ t.IsBlank (t.blockStop n after + 1) := by
  induction after generalizing n with
  | zero => exact Or.inl rfl
  | succ after ih =>
    rw [blockStop]
    split
    · rename_i hblank
      exact Or.inr hblank
    · rcases ih (n + 1) with hall | hblank
      · exact Or.inl (by omega)
      · exact Or.inr hblank

theorem le_blockLast (t : Text) (n : Nat) : n ≤ t.blockLast n :=
  t.le_blockStop n _

theorem blockLast_le {n : Nat} (h : n ≤ t.lastLine) : t.blockLast n ≤ t.lastLine := by
  have := t.blockStop_le n (t.lastLine - n)
  unfold blockLast
  omega

/-- The scan forwards ends at the same line from every line on its way. -/
theorem blockLast_eq_of_mem {n k : Nat} (hn : n ≤ t.lastLine) (hnk : n ≤ k)
    (hk : k ≤ t.blockLast n) : t.blockLast k = t.blockLast n := by
  have hlast := blockLast_le hn
  apply blockStop_eq hk (by omega)
  · intro j hj hjs
    exact not_isBlank_of_le_blockStop (by omega) hjs
  · rcases t.blockStop_eq_or n (t.lastLine - n) with hall | hblank
    · left
      unfold blockLast at hk hlast ⊢
      omega
    · exact Or.inr hblank

theorem blockLast_blockLast {n : Nat} (hn : n ≤ t.lastLine) :
    t.blockLast (t.blockLast n) = t.blockLast n :=
  blockLast_eq_of_mem hn (t.le_blockLast n) (Nat.le_refl _)

theorem blockLast_mono {k n : Nat} (hn : n ≤ t.lastLine) (h : k ≤ n) :
    t.blockLast k ≤ t.blockLast n := by
  by_cases hk : n ≤ t.blockLast k
  · exact Nat.le_of_eq (blockLast_eq_of_mem (by omega) h hk).symm
  · have := t.le_blockLast n
    omega

/-! ## Paragraphs -/

theorem lineStart_mono {k n : Nat} (h : k ≤ n) : Position.lineStart k ≤ Position.lineStart n := by
  rw [Position.le_def]
  simp only [Position.lineStart]
  omega

/-- Of two lines the later one stops later. -/
theorem lineStop_mono (t : Text) {k n : Nat} (h : k ≤ n) :
    (⟨k, t.lineLength k⟩ : Position) ≤ ⟨n, t.lineLength n⟩ := by
  rcases Nat.lt_or_eq_of_le h with hlt | rfl
  · exact Or.inl hlt
  · exact le_refl _

/-- The range from the start of one line to the stop of another one. -/
def linesRange (t : Text) (first last : Nat) (h : first ≤ last) : Range where
  start := .lineStart first
  stop := ⟨last, t.lineLength last⟩
  start_le_stop := (lineStart_mono h).trans (Position.le_of_column_le (Nat.zero_le _))

theorem has_linesRange {first last : Nat} (h : first ≤ last) (hlast : last ≤ t.lastLine) :
    t.Has (t.linesRange first last h) :=
  ⟨⟨Nat.le_trans h hlast, Nat.zero_le _⟩, ⟨hlast, Nat.le_refl _⟩⟩

/-- A range of the text lies in all of its lines. -/
theorem linesRange_contains (h : t.Has r) {first last : Nat} (hle : first ≤ last)
    (hfirst : first ≤ r.start.line) (hlast : r.stop.line ≤ last) :
    (t.linesRange first last hle).Contains r := by
  constructor
  · exact (lineStart_mono hfirst).trans (Position.lineStart_le _)
  · exact (Position.le_of_column_le h.2.2).trans (t.lineStop_mono hlast)

/-- The smallest range of lines over two of them. -/
theorem linesRange_union {first last first' last' : Nat} (h : first ≤ last)
    (h' : first' ≤ last') :
    (t.linesRange first last h).union (t.linesRange first' last' h') =
      t.linesRange (min first first') (max last last') (by omega) := by
  apply Range.ext
  · show min (Position.lineStart first) (.lineStart first') = .lineStart (min first first')
    rcases Nat.le_total first first' with hle | hle
    · rw [min_eq_left hle, min_eq_left (lineStart_mono hle)]
    · rw [min_eq_right hle, min_eq_right (lineStart_mono hle)]
  · show max (⟨last, t.lineLength last⟩ : Position) ⟨last', t.lineLength last'⟩ =
      ⟨max last last', t.lineLength (max last last')⟩
    rcases Nat.le_total last last' with hle | hle
    · rw [max_eq_right hle, max_eq_right (t.lineStop_mono hle)]
    · rw [max_eq_left hle, max_eq_left (t.lineStop_mono hle)]

theorem blockStart_le_blockLast (t : Text) {k n : Nat} (h : k ≤ n) :
    t.blockStart k ≤ t.blockLast n :=
  (t.blockStart_le k).trans (h.trans (t.le_blockLast n))

/-- The paragraph of a position whose line the text has. -/
theorem paragraphRange_eq (hp : p.line ≤ t.lastLine) :
    t.paragraphRange p =
      t.linesRange (t.blockStart p.line) (t.blockLast p.line)
        (t.blockStart_le_blockLast (Nat.le_refl _)) := by
  simp only [paragraphRange, Nat.min_eq_left hp, linesRange, blockLast]

/-- From the paragraph at the start of a range to the one at its stop. -/
def paragraphsOver (t : Text) (r : Range) : Range :=
  (t.paragraphRange r.start).union (t.paragraphRange r.stop)

theorem start_line_le_stop_line (r : Range) : r.start.line ≤ r.stop.line := by
  have h := r.start_le_stop
  rw [Position.le_def] at h
  omega

theorem paragraphsOver_eq (h : t.Has r) :
    t.paragraphsOver r =
      t.linesRange (t.blockStart r.start.line) (t.blockLast r.stop.line)
        (t.blockStart_le_blockLast (start_line_le_stop_line r)) := by
  have hlines := start_line_le_stop_line r
  rw [paragraphsOver, paragraphRange_eq h.1.1, paragraphRange_eq h.2.1, linesRange_union]
  simp only [min_eq_left (t.blockStart_mono hlines), max_eq_right (blockLast_mono h.2.1 hlines)]

theorem paragraphsOver_caret (t : Text) (p : Position) :
    t.paragraphsOver (.caret p) = t.paragraphRange p :=
  Range.union_self _

theorem has_paragraphsOver (h : t.Has r) : t.Has (t.paragraphsOver r) := by
  rw [paragraphsOver_eq h]
  exact has_linesRange _ (blockLast_le h.2.1)

theorem paragraphsOver_contains (h : t.Has r) : (t.paragraphsOver r).Contains r := by
  rw [paragraphsOver_eq h]
  exact linesRange_contains h _ (t.blockStart_le _) (t.le_blockLast _)

/-- Whole paragraphs are the paragraphs over their own ends.  An end of the range may be on a
blank line, whose neighbours belong to it; the scans from the outermost lines find the same
lines. -/
theorem paragraphsOver_paragraphsOver (h : t.Has r) :
    t.paragraphsOver (t.paragraphsOver r) = t.paragraphsOver r := by
  have hhas := has_paragraphsOver h
  rw [paragraphsOver_eq hhas]
  simp only [paragraphsOver_eq h]
  simp only [linesRange, Position.lineStart, blockStart_blockStart, blockLast_blockLast h.2.1]

/-- So is a paragraph, also one around a position past the end of its line. -/
theorem paragraphsOver_paragraphRange (hp : p.line ≤ t.lastLine) :
    t.paragraphsOver (t.paragraphRange p) = t.paragraphRange p := by
  have hinside : t.Inside (.lineStart p.line) := ⟨hp, Nat.zero_le _⟩
  have hcaret : t.paragraphRange p = t.paragraphsOver (.caret (.lineStart p.line)) :=
    (t.paragraphsOver_caret _).symm
  rw [hcaret, paragraphsOver_paragraphsOver (has_caret hinside)]

theorem has_paragraphRange (hp : p.line ≤ t.lastLine) : t.Has (t.paragraphRange p) := by
  rw [paragraphRange_eq hp]
  exact has_linesRange _ (blockLast_le hp)

theorem paragraphRange_contains_lineRange (hp : p.line ≤ t.lastLine) :
    (t.paragraphRange p).Contains (t.lineRange p) := by
  rw [paragraphRange_eq hp]
  exact linesRange_contains (has_lineRange hp) _ (t.blockStart_le _) (t.le_blockLast _)

end Text

end SelectionLadder
