/-!
# Positions

A position is a place between two characters of a text, given by line and column.  Lines and
columns count from zero, and columns count characters.  Positions are ordered line first.
-/

namespace SelectionLadder

/-- A place in a text: before the `column`-th character of the `line`-th line. -/
structure Position where
  line : Nat
  column : Nat
deriving DecidableEq, Repr, Inhabited

namespace Position

/-- The start of the text. -/
def zero : Position := ⟨0, 0⟩

/-- The start of a line. -/
def lineStart (line : Nat) : Position := ⟨line, 0⟩

/-- An earlier line comes first; on one line the smaller column does. -/
instance : LE Position where
  le a b := a.line < b.line ∨ (a.line = b.line ∧ a.column ≤ b.column)

instance : LT Position where
  lt a b := a.line < b.line ∨ (a.line = b.line ∧ a.column < b.column)

theorem le_def {a b : Position} :
    a ≤ b ↔ a.line < b.line ∨ (a.line = b.line ∧ a.column ≤ b.column) := Iff.rfl

theorem lt_def {a b : Position} :
    a < b ↔ a.line < b.line ∨ (a.line = b.line ∧ a.column < b.column) := Iff.rfl

instance : DecidableLE Position := fun a b =>
  inferInstanceAs (Decidable (a.line < b.line ∨ (a.line = b.line ∧ a.column ≤ b.column)))

instance : DecidableLT Position := fun a b =>
  inferInstanceAs (Decidable (a.line < b.line ∨ (a.line = b.line ∧ a.column < b.column)))

instance : Min Position := minOfLe
instance : Max Position := maxOfLe

protected theorem le_refl (a : Position) : a ≤ a := by
  simp [le_def]

protected theorem le_trans {a b c : Position} (hab : a ≤ b) (hbc : b ≤ c) : a ≤ c := by
  rw [le_def] at *
  omega

protected theorem le_antisymm {a b : Position} (hab : a ≤ b) (hba : b ≤ a) : a = b := by
  rw [le_def] at hab hba
  cases a; cases b
  simp only [mk.injEq]
  simp only at hab hba
  omega

protected theorem le_total (a b : Position) : a ≤ b ∨ b ≤ a := by
  simp only [le_def]
  omega

protected theorem lt_iff_not_le {a b : Position} : a < b ↔ ¬ b ≤ a := by
  simp only [le_def, lt_def]
  omega

protected theorem le_of_lt {a b : Position} (h : a < b) : a ≤ b := by
  rw [lt_def] at h
  rw [le_def]
  omega

/-- Positions on one line are ordered by column. -/
theorem le_of_column_le {line a b : Nat} (h : a ≤ b) : (⟨line, a⟩ : Position) ≤ ⟨line, b⟩ :=
  Or.inr ⟨rfl, h⟩

/-- A line starts no later than any position on it. -/
theorem lineStart_le (p : Position) : lineStart p.line ≤ p :=
  Or.inr ⟨rfl, Nat.zero_le _⟩

protected theorem zero_le (p : Position) : zero ≤ p := by
  rw [le_def]
  simp only [zero]
  omega

protected theorem min_le_left (a b : Position) : min a b ≤ a := by
  show (if a ≤ b then a else b) ≤ a
  split
  · exact Position.le_refl a
  · exact (Position.le_total a b).resolve_left ‹_›

protected theorem le_max_left (a b : Position) : a ≤ max a b := by
  show a ≤ (if a ≤ b then b else a)
  split
  · assumption
  · exact Position.le_refl a

/-- Line and column, as in `3:7`. -/
def display (p : Position) : String := s!"{p.line}:{p.column}"

end Position

end SelectionLadder
