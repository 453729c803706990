import SelectionLadder.Proofs.Text.Tiers

/-!
# Paragraphs and blank lines

The lines of a text that are not blank lie in one paragraph each, and blank lines stand between the
paragraphs.  A blank line has a paragraph too, which joins the ones next to it.

* `le_lastLine_of_not_isBlank`: a line that is not blank is a line of the text.
* `blockStart_le_of_full` and `le_blockLast_of_full`: the scans pass every line that is not blank;
  `lt_blockStart_of_isBlank` and `blockLast_lt_of_isBlank`: they pass no blank one.
* `paragraphRange_congr_of_full` and `isBlank_outside`: lines that are not blank have one paragraph,
  and a blank line between two of them is outside the paragraphs of both.
* `paragraphRange_of_isBlank` and `paragraphRange_holds_iff_of_isBlank`: the paragraph of a blank
  line is that line with the paragraphs next to it, as a union of ranges and position by position.
* `paragraphs_between_blanks` puts them together, with the order of the units at a position.
-/

namespace SelectionLadder

namespace Text

variable {t : Text} {p q x : Position} {m : Matcher} {k n first last : Nat}

/-! ## Lines that are not blank -/

theorem isBlank_of_lastLine_lt (h : t.lastLine < n) : t.IsBlank n := by
  rw [IsBlank, line?_eq_none h, Option.all_none]

theorem le_lastLine_of_not_isBlank (h : ¬ t.IsBlank n) : n ≤ t.lastLine :=
  Nat.not_lt.1 fun hn => h (isBlank_of_lastLine_lt hn)

/-! ## Where the scans stop -/

theorem blockStart_le_of_full (hfull : ∀ j, k ≤ j → j < n → ¬ t.IsBlank j) :
    t.blockStart n ≤ k := by
  by_contra hlt
  have hle := t.blockStart_le n
  rcases t.blockStart_eq_zero_or n with hzero | hblank
  · omega
  · exact hfull _ (by omega) (by omega) hblank

theorem le_blockLast_of_full (hkn : k ≤ n) (hn : n ≤ t.lastLine)
    (hfull : ∀ j, k < j → j ≤ n → ¬ t.IsBlank j) : n ≤ t.blockLast k := by
  by_contra hlt
  have hle := t.le_blockLast k
  -- The scan stops at the last line or before a blank one; neither is before line `n`.
  rcases t.blockStop_eq_or k (t.lastLine - k) with hall | hblank
  · unfold blockLast at hlt
    omega
  · change t.IsBlank (t.blockLast k + 1) at hblank
    exact hfull _ (by omega) (by omega) hblank

theorem lt_blockStart_of_isBlank (hkn : k < n) (hk : t.IsBlank k) : k < t.blockStart n := by
  by_contra hle
  exact not_isBlank_of_blockStart_le (Nat.not_lt.1 hle) hkn hk

theorem blockLast_lt_of_isBlank (hkn : n < k) (hk : t.IsBlank k) : t.blockLast n < k := by
  by_contra hle
  exact not_isBlank_of_le_blockStop hkn (Nat.not_lt.1 hle) hk

/-- The scan forwards goes on from the next line unless that one is blank, as it is past the end of
the text. -/
theorem blockLast_eq_ite (hn : n ≤ t.lastLine) :
    t.blockLast n = if t.IsBlank (n + 1) then n else t.blockLast (n + 1) := by
  rcases Nat.lt_or_eq_of_le hn with hlt | rfl
  · have hafter : t.lastLine - n = (t.lastLine - (n + 1)) + 1 := by omega
    rw [blockLast, hafter, blockStop]
    rfl
  · rw [if_pos (isBlank_of_lastLine_lt (Nat.lt_succ_self _)), blockLast, Nat.sub_self, blockStop]

/-! ## Whole lines -/

theorem lineRange_eq_linesRange (t : Text) (p : Position) :
    t.lineRange p = t.linesRange p.line p.line (Nat.le_refl _) := rfl

/-- A position of the text lies in whole lines if its line is one of them. -/
theorem linesRange_holds_iff (hx : t.Inside x) (h : first ≤ last) :
    (t.linesRange first last h).Holds x ↔ first ≤ x.line ∧ x.line ≤ last := by
  have hcolumn := hx.2
  simp only [Range.Holds, linesRange, Position.le_def, Position.lineStart]
  constructor
  · omega
  · rintro ⟨hfirst, hlast⟩
    refine ⟨by omega, ?_⟩
    rcases Nat.lt_or_eq_of_le hlast with hlt | rfl
    · exact Or.inl hlt
    · exact Or.inr ⟨rfl, hcolumn⟩

theorem paragraphRange_holds_iff (hp : p.line ≤ t.lastLine) (hx : t.Inside x) :
    (t.paragraphRange p).Holds x ↔
      t.blockStart p.line ≤ x.line ∧ x.line ≤ t.blockLast p.line := by
  rw [paragraphRange_eq hp, linesRange_holds_iff hx]

/-! ## Two lines that are not blank -/

/-- Lines with no blank one from the first to the last of them have one paragraph. -/
theorem paragraphRange_congr_of_full (hpq : p.line ≤ q.line)
    (hfull : ∀ j, p.line ≤ j → j ≤ q.line → ¬ t.IsBlank j) :
    t.paragraphRange p = t.paragraphRange q := by
  have hq : q.line ≤ t.lastLine := le_lastLine_of_not_isBlank (hfull _ hpq (Nat.le_refl _))
  have hp : p.line ≤ t.lastLine := hpq.trans hq
  have hstart : t.blockStart p.line = t.blockStart q.line := by
    apply blockStart_eq_of_mem _ hpq
    exact blockStart_le_of_full fun j hj hjq => hfull j hj (Nat.le_of_lt hjq)
  have hlast : t.blockLast q.line = t.blockLast p.line := by
    apply blockLast_eq_of_mem hp hpq
    exact le_blockLast_of_full hpq hq fun j hj hjq => hfull j (Nat.le_of_lt hj) hjq
  rw [paragraphRange_eq hp, paragraphRange_eq hq]
  simp only [hstart, hlast]

/-- A blank line between two lines is outside the paragraphs of both. -/
theorem isBlank_outside (hp : p.line ≤ t.lastLine) (hq : q.line ≤ t.lastLine)
    (hk : t.IsBlank k) (hpk : p.line < k) (hkq : k < q.line) :
    (t.paragraphRange p).stop.line < k ∧ k < (t.paragraphRange q).start.line := by
  rw [paragraphRange_eq hp, paragraphRange_eq hq]
  exact ⟨blockLast_lt_of_isBlank hpk hk, lt_blockStart_of_isBlank hkq hk⟩

/-- Ranges with a line between them have no position in common. -/
theorem not_holds_of_line_lt {r s : Range} (hr : r.stop.line < k) (hs : k < s.start.line)
    (hx : r.Holds x) : ¬ s.Holds x := by
  intro hx'
  have hle := hx.2
  have hge := hx'.1
  rw [Position.le_def] at hle hge
  omega

/-! ## A blank line -/

/-- The numbers of the lines before and after a line. -/
def nextTo : Nat → List Nat
  | 0 => [1]
  | n + 1 => [n, n + 2]

/-- The range with the paragraph at a line, unless that line is blank or the text does not have
it. -/
def joined (t : Text) (r : Range) (n : Nat) : Range :=
  if t.IsBlank n then r else r.union (t.paragraphRange (.lineStart n))

theorem joined_before (hn : n + 1 ≤ t.lastLine) (hblank : t.IsBlank (n + 1)) :
    t.joined (t.linesRange (n + 1) (n + 1) (Nat.le_refl _)) n =
      t.linesRange (t.blockStart (n + 1)) (n + 1) (t.blockStart_le _) := by
  by_cases h : t.IsBlank n
  · simp only [joined, if_pos h, blockStart]
  · have hstart := t.blockStart_le n
    have hlast : t.blockLast n = n := by
      rw [blockLast_eq_ite (Nat.le_of_succ_le hn), if_pos hblank]
    have hline : (Position.lineStart n).line ≤ t.lastLine := Nat.le_of_succ_le hn
    rw [joined, if_neg h, paragraphRange_eq hline, linesRange_union]
    simp only [Position.lineStart, hlast, blockStart, if_neg h,
      min_eq_right (Nat.le_succ_of_le hstart), max_eq_left (Nat.le_succ n)]

theorem joined_after (hfirst : first ≤ n) (hn : n ≤ t.lastLine) (hblank : t.IsBlank n) :
    t.joined (t.linesRange first n hfirst) (n + 1) =
      t.linesRange first (t.blockLast n) (hfirst.trans (t.le_blockLast n)) := by
  by_cases h : t.IsBlank (n + 1)
  · simp only [joined, if_pos h, blockLast_eq_ite hn]
  · have hstart : t.blockStart (n + 1) = n + 1 := by
      rw [blockStart, if_pos hblank]
    have hlast := t.le_blockLast (n + 1)
    have hline : (Position.lineStart (n + 1)).line ≤ t.lastLine := le_lastLine_of_not_isBlank h
    rw [joined, if_neg h, paragraphRange_eq hline, linesRange_union]
    simp only [Position.lineStart, hstart, blockLast_eq_ite hn, if_neg h,
      min_eq_left (Nat.le_succ_of_le hfirst), max_eq_right (Nat.le_of_succ_le hlast)]

theorem paragraphRange_of_isBlank (hp : p.line ≤ t.lastLine) (hblank : t.IsBlank p.line) :
    t.paragraphRange p = (nextTo p.line).foldl t.joined (t.lineRange p) := by
  rw [paragraphRange_eq hp, lineRange_eq_linesRange]
  generalize p.line = n at hp hblank ⊢
  cases n with
  | zero => exact (joined_after (Nat.le_refl 0) hp hblank).symm
  | succ n =>
    -- The line before is joined first, so the range that the line after joins starts there.
    rw [nextTo, List.foldl_cons, List.foldl_cons, List.foldl_nil, joined_before hp hblank,
      joined_after (t.blockStart_le _) hp hblank]

/-- The lines after a blank one in its paragraph are those of the paragraph at the next line. -/
theorem le_blockLast_iff (hn : n ≤ t.lastLine) (hblank : t.IsBlank n) :
    n < k ∧ k ≤ t.blockLast n ↔
      ¬ t.IsBlank (n + 1) ∧ t.blockStart (n + 1) ≤ k ∧ k ≤ t.blockLast (n + 1) := by
  rw [blockLast_eq_ite hn, blockStart, if_pos hblank]
  by_cases h : t.IsBlank (n + 1)
  · rw [if_pos h]
    simp only [h, not_true, false_and, iff_false]
    omega
  · rw [if_neg h]
    simp only [h, not_false_iff, true_and, Nat.lt_iff_add_one_le]

/-- The lines before a blank one in its paragraph are those of the paragraph at the line before. -/
theorem blockStart_le_iff (hn : n + 1 ≤ t.lastLine) (hblank : t.IsBlank (n + 1)) :
    t.blockStart (n + 1) ≤ k ∧ k ≤ n ↔
      ¬ t.IsBlank n ∧ t.blockStart n ≤ k ∧ k ≤ t.blockLast n := by
  rw [blockLast_eq_ite (Nat.le_of_succ_le hn), if_pos hblank, blockStart]
  by_cases h : t.IsBlank n
  · rw [if_pos h]
    simp only [h, not_true, false_and, iff_false]
    omega
  · rw [if_neg h]
    simp only [h, not_false_iff, true_and]

/-- What the paragraph of a blank line holds is in that line or in a paragraph next to it. -/
theorem paragraphRange_holds_iff_of_isBlank (hp : p.line ≤ t.lastLine) (hblank : t.IsBlank p.line)
    (hx : t.Inside x) :
    (t.paragraphRange p).Holds x ↔
      (t.lineRange p).Holds x ∨
        ∃ k ∈ nextTo p.line, ¬ t.IsBlank k ∧ (t.paragraphRange (.lineStart k)).Holds x := by
  have hparagraph : ∀ k, ¬ t.IsBlank k ∧ (t.paragraphRange (.lineStart k)).Holds x ↔
      ¬ t.IsBlank k ∧ t.blockStart k ≤ x.line ∧ x.line ≤ t.blockLast k := by
    intro k
    refine and_congr_right fun hk => ?_
    exact paragraphRange_holds_iff (p := .lineStart k) (le_lastLine_of_not_isBlank hk) hx
  have hafter := le_blockLast_iff (k := x.line) hp hblank
  have hstart := t.blockStart_le p.line
  have hlast := t.le_blockLast p.line
  rw [paragraphRange_holds_iff hp hx, lineRange_eq_linesRange, linesRange_holds_iff hx]
  simp only [hparagraph]
  generalize p.line = n at *
  cases n with
  | zero =>
    simp only [nextTo, List.mem_singleton, exists_eq_left, ← hafter]
    omega
  | succ n =>
    have hbefore := blockStart_le_iff (k := x.line) hp hblank
    simp only [nextTo, List.mem_cons, List.not_mem_nil, or_false, exists_eq_or_imp, exists_eq_left,
      ← hbefore, ← hafter]
    omega

end Text

/-- At a position of the text, word, line, paragraph and document lie in each other and hold it.
Two lines that are not blank have one paragraph if no line between them is blank, and otherwise
every blank line between them lies between their paragraphs, which have no position in common.  The
paragraph of a blank line is the line and the paragraphs at the lines next to it, where these are
not blank. -/
theorem paragraphs_between_blanks (t : Text) (m : Matcher) (hm : m.StaysInside) :
    (∀ p, t.Inside p →
      (t.wordRange m p).Holds p ∧ (t.lineRange p).Contains (t.wordRange m p) ∧
        (t.paragraphRange p).Contains (t.lineRange p) ∧
        t.documentRange.Contains (t.paragraphRange p)) ∧
      (∀ p q, p.line ≤ q.line → ¬ t.IsBlank p.line → ¬ t.IsBlank q.line →
        ((∀ k, p.line < k → k < q.line → ¬ t.IsBlank k) →
          t.paragraphRange p = t.paragraphRange q) ∧
        ∀ k, p.line < k → k < q.line → t.IsBlank k →
          ((t.paragraphRange p).stop.line < k ∧ k < (t.paragraphRange q).start.line) ∧
            ∀ x, (t.paragraphRange p).Holds x → ¬ (t.paragraphRange q).Holds x) ∧
      ∀ p, p.line ≤ t.lastLine → t.IsBlank p.line →
        t.paragraphRange p = (Text.nextTo p.line).foldl t.joined (t.lineRange p) ∧
          ∀ x, t.Inside x →
            ((t.paragraphRange p).Holds x ↔
              (t.lineRange p).Holds x ∨ ∃ k ∈ Text.nextTo p.line,
                ¬ t.IsBlank k ∧ (t.paragraphRange (.lineStart k)).Holds x) := by
  refine ⟨?_, ?_, ?_⟩
  · intro p hp
    have hword := Text.isWordAt_wordRange hm t p
    exact ⟨hword.holds, hword.lineRange_contains hp, Text.paragraphRange_contains_lineRange hp.1,
      Text.documentRange_contains (Text.has_paragraphRange hp.1)⟩
  · intro p q hpq hp hq
    constructor
    · intro hbetween
      apply Text.paragraphRange_congr_of_full hpq
      intro k hpk hkq
      rcases Nat.lt_or_eq_of_le hpk with hlt | rfl
      · rcases Nat.lt_or_eq_of_le hkq with hlt' | rfl
        · exact hbetween k hlt hlt'
        · exact hq
      · exact hp
    · intro k hpk hkq hk
      obtain ⟨hstop, hstart⟩ := Text.isBlank_outside (Text.le_lastLine_of_not_isBlank hp)
        (Text.le_lastLine_of_not_isBlank hq) hk hpk hkq
      exact ⟨⟨hstop, hstart⟩, fun x => Text.not_holds_of_line_lt hstop hstart⟩
  · intro p hp hblank
    exact ⟨Text.paragraphRange_of_isBlank hp hblank,
      fun x => Text.paragraphRange_holds_iff_of_isBlank hp hblank⟩

/-- Two paragraphs, and a line of one blank between them. -/
def spacedText : Text := .ofChars ['a', '\n', 'b', '\n', ' ', '\n', 'c', 'd']

theorem paragraphs_between_blanks_spacedText :
    spacedText.documentRange.Contains (spacedText.paragraphRange ⟨3, 1⟩) ∧
      spacedText.paragraphRange ⟨0, 1⟩ = spacedText.paragraphRange ⟨1, 0⟩ ∧
      (spacedText.paragraphRange ⟨1, 0⟩).stop.line < 2 ∧
      2 < (spacedText.paragraphRange ⟨3, 1⟩).start.line ∧
      spacedText.paragraphRange ⟨2, 1⟩ =
        (Text.nextTo 2).foldl spacedText.joined (spacedText.lineRange ⟨2, 1⟩) := by
  obtain ⟨hnested, hfull, hblank⟩ :=
    paragraphs_between_blanks spacedText Matcher.ascii Matcher.staysInside_ascii
  obtain ⟨hone, -⟩ := hfull ⟨0, 1⟩ ⟨1, 0⟩ (by decide) (by decide) (by decide)
  obtain ⟨-, htwo⟩ := hfull ⟨1, 0⟩ ⟨3, 1⟩ (by decide) (by decide) (by decide)
  have hbetween := htwo 2 (by decide) (by decide) (by decide)
  refine ⟨(hnested ⟨3, 1⟩ (by decide)).2.2.2, ?_, hbetween.1.1, hbetween.1.2, ?_⟩
  · exact hone fun k hlow hhigh => absurd hhigh (Nat.not_lt.2 hlow)
  · exact (hblank ⟨2, 1⟩ (by decide) (by decide)).1

end SelectionLadder
