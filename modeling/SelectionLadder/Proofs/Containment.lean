import Mathlib.Order.Lattice
import Mathlib.Tactic.Order
import SelectionLadder.Range

/-!
# Containment of ranges

The laws of the order of positions and of containment that the other proofs use.

* Positions are a linear order (`Position.instLinearOrder`), so the lemmas and the tactics for
  linear orders apply to the ends of ranges.
* `Range.Contains` is a partial order, and `Range.StrictlyContains` is its strict part.
* A range that strictly contains another is no caret (`StrictlyContains.not_isEmpty`), and a range
  that is no caret strictly contains the carets at the positions it holds
  (`strictlyContains_caret`).
* The meet of two ranges is the largest range that lies in both (`contains_of_intersection`).  If
  one of them contains the other it is the smaller one (`intersection_eq_left`,
  `intersection_eq_right`).
-/

namespace SelectionLadder

/-- The order of positions, line first.  It has the relations and the operations that positions
are defined with. -/
instance Position.instLinearOrder : LinearOrder Position where
  le := (· ≤ ·)
  lt := (· < ·)
  le_refl := Position.le_refl
  le_trans := by
    intro a b c hab hbc
    exact Position.le_trans hab hbc
  le_antisymm := by
    intro a b hab hba
    exact Position.le_antisymm hab hba
  lt_iff_le_not_ge := by
    intro a b
    simp only [Position.le_def, Position.lt_def]
    omega
  le_total := Position.le_total
  toDecidableLE := inferInstance
  toDecidableEq := inferInstance
  toDecidableLT := inferInstance

namespace Range

/-! ## Containment as an order -/

theorem contains_refl (r : Range) : r.Contains r :=
  ⟨le_refl r.start, le_refl r.stop⟩

theorem Contains.trans {a b c : Range} (hab : a.Contains b) (hbc : b.Contains c) :
    a.Contains c :=
  ⟨hab.1.trans hbc.1, hbc.2.trans hab.2⟩

theorem Contains.antisymm {a b : Range} (hab : a.Contains b) (hba : b.Contains a) : a = b :=
  Range.ext (le_antisymm hab.1 hba.1) (le_antisymm hba.2 hab.2)

theorem StrictlyContains.trans_contains {a b c : Range} (hab : a.StrictlyContains b)
    (hbc : b.Contains c) : a.StrictlyContains c := by
  refine ⟨hab.1.trans hbc, ?_⟩
  intro hac
  subst hac
  exact hab.2 (hab.1.antisymm hbc)

theorem StrictlyContains.trans {a b c : Range} (hab : a.StrictlyContains b)
    (hbc : b.StrictlyContains c) : a.StrictlyContains c :=
  hab.trans_contains hbc.1

theorem not_strictlyContains_self (r : Range) : ¬ r.StrictlyContains r := by
  intro h
  exact h.2 rfl

/-- What is contained is not strictly larger. -/
theorem Contains.not_strictlyContains {a b : Range} (hab : a.Contains b) :
    ¬ b.StrictlyContains a := by
  intro hba
  exact hba.2 (hba.1.antisymm hab)

/-- A range is equal to a range that it contains, or is strictly larger. -/
theorem Contains.eq_or_strictlyContains {a b : Range} (hab : a.Contains b) :
    a = b ∨ a.StrictlyContains b := by
  by_cases h : a = b
  · exact Or.inl h
  · exact Or.inr ⟨hab, h⟩

theorem Contains.eq_of_not_strictlyContains {a b : Range} (hab : a.Contains b)
    (h : ¬ a.StrictlyContains b) : a = b :=
  hab.eq_or_strictlyContains.resolve_right h

/-- What lies in a range lies in every range that contains it. -/
theorem Contains.holds {a b : Range} {p : Position} (hab : a.Contains b) (hp : b.Holds p) :
    a.Holds p :=
  ⟨hab.1.trans hp.1, hp.2.trans hab.2⟩

/-- What lies in a range on one line is on one line. -/
theorem Contains.isSingleLine {a b : Range} (hab : a.Contains b) (h : a.IsSingleLine) :
    b.IsSingleLine := by
  obtain ⟨hstart, hstop⟩ := hab
  have hle := b.start_le_stop
  rw [Position.le_def] at hstart hstop hle
  unfold IsSingleLine at h ⊢
  omega

theorem holds_start (r : Range) : r.Holds r.start :=
  ⟨le_refl _, r.start_le_stop⟩

theorem holds_stop (r : Range) : r.Holds r.stop :=
  ⟨r.start_le_stop, le_refl _⟩

/-! ## Carets -/

@[simp] theorem caret_start (p : Position) : (caret p).start = p := rfl

@[simp] theorem isEmpty_caret (p : Position) : (caret p).IsEmpty := rfl

theorem IsEmpty.eq_caret {r : Range} (h : r.IsEmpty) : r = caret r.start :=
  Range.ext rfl h.symm

/-- A caret that holds a position is the caret there. -/
theorem IsEmpty.eq_caret_of_holds {r : Range} {p : Position} (h : r.IsEmpty) (hp : r.Holds p) :
    r = caret p := by
  have hstop : r.stop = r.start := h.symm
  have hle : p ≤ r.start := hstop ▸ hp.2
  have hstart : r.start = p := le_antisymm hp.1 hle
  exact Range.ext hstart (hstop.trans hstart)

theorem contains_caret {r : Range} {p : Position} : r.Contains (caret p) ↔ r.Holds p := Iff.rfl

/-- Inside a caret there is nothing but the caret. -/
theorem IsEmpty.of_contains {a b : Range} (ha : a.IsEmpty) (hab : a.Contains b) : b.IsEmpty := by
  have hstart : a.start = a.stop := ha
  have hle : b.stop ≤ b.start := hab.2.trans (hstart ▸ hab.1)
  exact le_antisymm b.start_le_stop hle

theorem StrictlyContains.not_isEmpty {a b : Range} (hab : a.StrictlyContains b) : ¬ a.IsEmpty := by
  intro ha
  have hb : b.IsEmpty := ha.of_contains hab.1
  have hcaret : a = caret b.start := ha.eq_caret_of_holds (hab.1.holds (holds_start b))
  exact hab.2 (hcaret.trans hb.eq_caret.symm)

theorem strictlyContains_caret {r : Range} {p : Position} (hr : ¬ r.IsEmpty) (hp : r.Holds p) :
    r.StrictlyContains (caret p) := by
  refine ⟨hp, ?_⟩
  intro h
  exact hr (h ▸ isEmpty_caret p)

theorem strictlyContains_caret_iff {r : Range} {p : Position} (hp : r.Holds p) :
    r.StrictlyContains (caret p) ↔ ¬ r.IsEmpty :=
  ⟨StrictlyContains.not_isEmpty, fun h => strictlyContains_caret h hp⟩

theorem start_lt_stop {r : Range} (h : ¬ r.IsEmpty) : r.start < r.stop :=
  lt_of_le_of_ne r.start_le_stop h

/-! ## Meet and join -/

/-- A range inside another one that is no caret is their meet. -/
theorem intersection_eq_left {a b : Range} (ha : ¬ a.IsEmpty) (hba : b.Contains a) :
    a.intersection b = some a := by
  have hstart : max a.start b.start = a.start := max_eq_left hba.1
  have hstop : min a.stop b.stop = a.stop := min_eq_left hba.2
  simp only [intersection, hstart, hstop, start_lt_stop ha, dif_pos]

theorem intersection_eq_right {a b : Range} (hb : ¬ b.IsEmpty) (hab : a.Contains b) :
    a.intersection b = some b := by
  have hstart : max a.start b.start = b.start := max_eq_right hab.1
  have hstop : min a.stop b.stop = b.stop := min_eq_right hab.2
  simp only [intersection, hstart, hstop, start_lt_stop hb, dif_pos]

theorem intersection_eq_none_of_isEmpty {a : Range} (ha : a.IsEmpty) (b : Range) :
    a.intersection b = none := by
  have hstart : a.start = a.stop := ha
  have hle : min a.stop b.stop ≤ max a.start b.start :=
    (min_le_left _ _).trans (hstart ▸ le_max_left _ _)
  simp only [intersection, not_lt.2 hle, dif_neg, not_false_iff]

/-- A meet is no caret and lies in both ranges. -/
theorem intersection_spec {a b c : Range} (h : a.intersection b = some c) :
    ¬ c.IsEmpty ∧ a.Contains c ∧ b.Contains c := by
  unfold intersection at h
  split at h
  · rename_i hlt
    obtain rfl := Option.some.inj h
    exact ⟨ne_of_lt hlt, ⟨le_max_left _ _, min_le_left _ _⟩, ⟨le_max_right _ _, min_le_right _ _⟩⟩
  · exact absurd h (by simp)

/-- Everything that lies in both ranges lies in their meet. -/
theorem contains_of_intersection {a b c d : Range} (h : a.intersection b = some c)
    (ha : a.Contains d) (hb : b.Contains d) : c.Contains d := by
  unfold intersection at h
  split at h
  · obtain rfl := Option.some.inj h
    exact ⟨max_le ha.1 hb.1, le_min ha.2 hb.2⟩
  · exact absurd h (by simp)

/-- The common part of two ranges holds what both of them hold. -/
theorem holds_of_intersection {a b part : Range} {p : Position}
    (h : a.intersection b = some part) (ha : a.Holds p) (hb : b.Holds p) : part.Holds p :=
  contains_of_intersection h (contains_caret.2 ha) (contains_caret.2 hb)

/-- Ranges that have more than a caret in common have a meet. -/
theorem exists_intersection {a b d : Range} (hd : ¬ d.IsEmpty) (ha : a.Contains d)
    (hb : b.Contains d) : ∃ c, a.intersection b = some c := by
  have hlt : max a.start b.start < min a.stop b.stop :=
    lt_of_le_of_lt (max_le ha.1 hb.1) (lt_of_lt_of_le (start_lt_stop hd) (le_min ha.2 hb.2))
  exact ⟨_, dif_pos hlt⟩

/-- A range that goes on after the start of another one, and does not cross it, contains it or lies
in it. -/
theorem contains_or_of_not_crosses {u w : Range} (hholds : u.Holds w.start)
    (hstop : ¬ w.IsEmpty → w.start < u.stop) (hcrosses : ¬ u.Crosses w) :
    u.Contains w ∨ w.Contains u := by
  by_contra hnot
  rw [not_or] at hnot
  have hne : ¬ w.IsEmpty := by
    intro hempty
    apply hnot.1
    rw [hempty.eq_caret]
    exact hholds
  have hstart : u.start < w.stop := lt_of_le_of_lt hholds.1 (start_lt_stop hne)
  exact hcrosses ⟨⟨hstart, hstop hne⟩, hnot.1, hnot.2⟩

theorem union_self (r : Range) : r.union r = r :=
  Range.ext (min_self _) (max_self _)

theorem spanning_of_le {a b : Position} (h : a ≤ b) : spanning a b = ⟨a, b, h⟩ := by
  rw [spanning, dif_pos h]

/-- Whichever end comes first, both ends are held. -/
theorem spanning_holds_left (a b : Position) : (spanning a b).Holds a := by
  unfold spanning
  split
  · exact holds_start _
  · exact holds_stop _

theorem spanning_self (p : Position) : spanning p p = caret p :=
  spanning_of_le (le_refl p)

end Range

end SelectionLadder
