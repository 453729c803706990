import SelectionLadder.Position

/-!
# Ranges

A range runs from a start to a stop that is no earlier.  A range whose ends are equal is a caret.
That the ends are in order is part of the type, so every operation proves it.
-/

namespace SelectionLadder

/-- A stretch of text between two positions. -/
@[ext] structure Range where
  start : Position
  stop : Position
  start_le_stop : start ≤ stop
deriving DecidableEq

/-- Two ends that are not in order. -/
structure ReversedRange where
  start : Position
  stop : Position
deriving DecidableEq

/-- What the error says. -/
def ReversedRange.message (e : ReversedRange) : String :=
  s!"Invalid range: {e.start.display} is after {e.stop.display}"

namespace Range

/-- The range with these ends, unless they are reversed. -/
def ofEnds (start stop : Position) : Except ReversedRange Range :=
  if h : start ≤ stop then .ok ⟨start, stop, h⟩ else .error ⟨start, stop⟩

/-- The zero-width range at a position. -/
def caret (p : Position) : Range := ⟨p, p, Position.le_refl p⟩

instance : Inhabited Range := ⟨caret .zero⟩

/-- The range between two positions in either order. -/
def spanning (a b : Position) : Range :=
  if h : a ≤ b then ⟨a, b, h⟩ else ⟨b, a, (Position.le_total a b).resolve_left h⟩

/-! ## Tests -/

/-- The range is a caret. -/
def IsEmpty (r : Range) : Prop := r.start = r.stop

instance (r : Range) : Decidable r.IsEmpty :=
  inferInstanceAs (Decidable (r.start = r.stop))

/-- Both ends are on one line. -/
def IsSingleLine (r : Range) : Prop := r.start.line = r.stop.line

instance (r : Range) : Decidable r.IsSingleLine :=
  inferInstanceAs (Decidable (r.start.line = r.stop.line))

/-- The other range lies inside this one, where sharing an end is allowed. -/
def Contains (r other : Range) : Prop := r.start ≤ other.start ∧ other.stop ≤ r.stop

instance (r other : Range) : Decidable (r.Contains other) :=
  inferInstanceAs (Decidable (_ ∧ _))

/-- The other range lies inside this one and is another range. -/
def StrictlyContains (r other : Range) : Prop := r.Contains other ∧ r ≠ other

instance (r other : Range) : Decidable (r.StrictlyContains other) :=
  inferInstanceAs (Decidable (_ ∧ _))

/-- The position lies inside the range or at one of its ends. -/
def Holds (r : Range) (p : Position) : Prop := r.start ≤ p ∧ p ≤ r.stop

instance (r : Range) (p : Position) : Decidable (r.Holds p) :=
  inferInstanceAs (Decidable (_ ∧ _))

/-- Each range starts before the other stops. -/
def Intersects (a b : Range) : Prop := a.start < b.stop ∧ b.start < a.stop

instance (a b : Range) : Decidable (a.Intersects b) :=
  inferInstanceAs (Decidable (_ ∧ _))

/-- The ranges overlap and neither contains the other. -/
def Crosses (a b : Range) : Prop := a.Intersects b ∧ ¬ a.Contains b ∧ ¬ b.Contains a

instance (a b : Range) : Decidable (a.Crosses b) :=
  inferInstanceAs (Decidable (_ ∧ _))

/-! ## Meet and join -/

/-- The common part of two ranges, if it is more than a caret. -/
def intersection (a b : Range) : Option Range :=
  if h : max a.start b.start < min a.stop b.stop then
    some ⟨max a.start b.start, min a.stop b.stop, Position.le_of_lt h⟩
  else none

/-- The smallest range that contains both. -/
def union (a b : Range) : Range where
  start := min a.start b.start
  stop := max a.stop b.stop
  start_le_stop :=
    Position.le_trans (Position.min_le_left _ _)
      (Position.le_trans a.start_le_stop (Position.le_max_left _ _))

/-- Both ends in brackets, as in `[0:0, 2:5]`. -/
def display (r : Range) : String := s!"[{r.start.display}, {r.stop.display}]"

end Range

end SelectionLadder
