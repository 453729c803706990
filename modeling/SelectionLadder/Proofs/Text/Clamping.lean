import SelectionLadder.Proofs.Text.Offsets
import SelectionLadder.Text.Buffer

/-!
# Moving positions into a text

`Text.clamp` leaves the positions of a text where they are and brings all others into it.  It limits
the line first and then the column.  A position past the last line keeps its column on the last
line; it does not become the end of the text.

* Up to the last line this keeps the order: of two positions on different lines the lines decide,
  and of two on one line the columns do, which are limited alike.
* From the last line on all positions end up on one line, where the columns alone count.  A position
  then comes to stand before an earlier one if its column is the smaller one (`Text.Swaps`).
* `Text.clamp_le_clamp_iff`: this is the only case in which the order is lost.

A selection that goes forward goes backward afterwards in this case and in no other, whether its
ends are moved into the text because they are selected or because the text has changed
(`Buffer.isForward_after_clamp`).
-/

namespace SelectionLadder

namespace Text

variable {t : Text} {p q : Position}

/-- From the last line on a position keeps its column only. -/
theorem clamp_of_lastLine_le (h : t.lastLine ≤ p.line) :
    t.clamp p = ⟨t.lastLine, min p.column (t.lineLength t.lastLine)⟩ := by
  simp only [clamp, Nat.min_eq_right h]

/-- Up to the last line a position keeps its line. -/
theorem clamp_of_le_lastLine (h : p.line ≤ t.lastLine) :
    t.clamp p = ⟨p.line, min p.column (t.lineLength p.line)⟩ := by
  simp only [clamp, Nat.min_eq_left h]

/-- The text has no line that tells the positions apart, and the second one, which is on a later
line, has the smaller column.  Moved into the text it stands before the first one. -/
def Swaps (t : Text) (p q : Position) : Prop :=
  t.lastLine ≤ p.line ∧ p.line < q.line ∧ q.column < min p.column (t.lineLength t.lastLine)

instance (t : Text) (p q : Position) : Decidable (t.Swaps p q) :=
  inferInstanceAs (Decidable (_ ∧ _))

/-- The order is kept where a line of the text tells the positions apart. -/
theorem clamp_le_clamp_of_lt_lastLine (hpq : p ≤ q) (hp : p.line < t.lastLine) :
    t.clamp p ≤ t.clamp q := by
  have hclamp : t.clamp p = ⟨p.line, min p.column (t.lineLength p.line)⟩ :=
    clamp_of_le_lastLine (Nat.le_of_lt hp)
  rw [Position.le_def] at hpq
  rcases hpq with hlt | ⟨heq, hcolumn⟩
  · left
    rw [hclamp]
    exact Nat.lt_min.2 ⟨hlt, hp⟩
  · have hclamp' : t.clamp q = ⟨q.line, min q.column (t.lineLength q.line)⟩ :=
      clamp_of_le_lastLine (Nat.le_of_lt (heq ▸ hp))
    rw [hclamp, hclamp', heq]
    exact Position.le_of_column_le (Nat.le_min.2 ⟨(Nat.min_le_left _ _).trans hcolumn,
      Nat.min_le_right _ _⟩)

/-- From the last line on only the columns are compared. -/
theorem clamp_le_clamp_iff_of_lastLine_le (hp : t.lastLine ≤ p.line) (hq : t.lastLine ≤ q.line) :
    t.clamp p ≤ t.clamp q ↔ ¬ q.column < min p.column (t.lineLength t.lastLine) := by
  rw [clamp_of_lastLine_le hp, clamp_of_lastLine_le hq, Position.le_def]
  simp only [Nat.lt_irrefl, false_or, true_and]
  omega

/-- Clamping keeps the order of two positions unless it swaps them. -/
theorem clamp_le_clamp_iff (hpq : p ≤ q) : t.clamp p ≤ t.clamp q ↔ ¬ t.Swaps p q := by
  rcases Nat.lt_or_ge p.line t.lastLine with hlt | hle
  · have hkeeps : ¬ t.Swaps p q := fun h => Nat.not_le.2 hlt h.1
    exact iff_of_true (clamp_le_clamp_of_lt_lastLine hpq hlt) hkeeps
  · rw [Position.le_def] at hpq
    have hq : t.lastLine ≤ q.line := by omega
    rw [clamp_le_clamp_iff_of_lastLine_le hle hq, Swaps]
    omega

end Text

namespace Buffer

/-- The selection goes forward, from its anchor to a head that is not before it. -/
def IsForward (b : Buffer) : Prop := b.anchor ≤ b.head

instance (b : Buffer) : Decidable b.IsForward := inferInstanceAs (Decidable (b.anchor ≤ b.head))

/-- Clamping leads into the text and leaves the positions of the text where they are.  It keeps the
order of two positions unless it swaps them.  So a selection that goes forward goes on doing so,
unless the text swaps its ends: when they are selected, and when a new text replaces the old one. -/
theorem isForward_after_clamp (b : Buffer) :
    (∀ p, b.text.Inside (b.text.clamp p)) ∧
      (∀ p, b.text.Inside p → b.text.clamp p = p) ∧
      (∀ p q, p ≤ q → (b.text.clamp p ≤ b.text.clamp q ↔ ¬ b.text.Swaps p q)) ∧
      (∀ anchor head, anchor ≤ head →
        ((b.setSelection anchor head).IsForward ↔ ¬ b.text.Swaps anchor head)) ∧
      ∀ text, b.IsForward → ((b.setText text).IsForward ↔ ¬ text.Swaps b.anchor b.head) := by
  refine ⟨b.text.inside_clamp, ?_, ?_, ?_, ?_⟩
  · intro p hp
    exact Text.clamp_of_inside hp
  · intro p q hpq
    exact Text.clamp_le_clamp_iff hpq
  · intro anchor head hforward
    exact Text.clamp_le_clamp_iff hforward
  · intro text hforward
    exact Text.clamp_le_clamp_iff hforward

/-! ## Positions past the last line -/

/-- A text of two lines, with the caret at its start. -/
def twoLineBuffer : Buffer := .ofText (.ofChars ['a', 'b', 'c', '\n', 'd', 'e'])

/-- A text of four lines in which the selection goes from the end of one line to the start of the
next one. -/
def fourLineBuffer : Buffer :=
  (ofText (.ofChars ['a', '\n', 'b', 'c', '\n', 'd', '\n', 'e'])).setSelection ⟨1, 2⟩ ⟨2, 0⟩

theorem isForward_after_clamp_twoLineBuffer :
    twoLineBuffer.text.clamp ⟨1, 2⟩ = ⟨1, 2⟩ ∧
      twoLineBuffer.text.clamp ⟨0, 9⟩ ≤ twoLineBuffer.text.clamp ⟨7, 1⟩ ∧
      (twoLineBuffer.setSelection ⟨1, 1⟩ ⟨7, 1⟩).IsForward ∧
      ¬ (fourLineBuffer.setText twoLineBuffer.text).IsForward := by
  obtain ⟨-, hfixed, horder, hselected, -⟩ := isForward_after_clamp twoLineBuffer
  obtain ⟨-, -, -, -, hreplaced⟩ := isForward_after_clamp fourLineBuffer
  refine ⟨hfixed ⟨1, 2⟩ (by decide), (horder ⟨0, 9⟩ ⟨7, 1⟩ (by decide)).2 (by decide),
    (hselected ⟨1, 1⟩ ⟨7, 1⟩ (by decide)).2 (by decide), ?_⟩
  rw [hreplaced twoLineBuffer.text (by decide), not_not]
  decide

/-- The end of the text stays where it is, and a later position is moved before it.  So a selection
that goes forward between the two goes backward, and so does the one of the longer text when this
text replaces it. -/
theorem not_isForward_after_clamp :
    ((⟨1, 2⟩ : Position) ≤ ⟨7, 1⟩ ∧ twoLineBuffer.text.Inside ⟨1, 2⟩ ∧
        ¬ twoLineBuffer.text.clamp ⟨1, 2⟩ ≤ twoLineBuffer.text.clamp ⟨7, 1⟩) ∧
      ¬ (twoLineBuffer.setSelection ⟨1, 2⟩ ⟨7, 1⟩).IsForward ∧
      fourLineBuffer.IsForward ∧ ¬ (fourLineBuffer.setText twoLineBuffer.text).IsForward := by
  decide

end Buffer

end SelectionLadder
