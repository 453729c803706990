import Mathlib.Order.Bounds.Basic
import Mathlib.Order.MinMax
import SelectionLadder.Proofs.Containment

/-!
# The lattice of ranges

Ranges are ordered by containment.  Any two have a join, and any two that share more than a caret
have a meet.

* `instSemilatticeSup`: containment is a partial order in which the union is the join, so the laws
  of unions are those of joins.
* `intersection_eq_some_iff`: the intersection is the greatest range that is no caret and lies in
  both.  It grows with the ranges (`exists_intersection_of_contains`), and it holds what both of
  them hold (`holds_intersection_iff`).
* `isSome_intersection_iff`: two ranges have an intersection exactly if they intersect and neither
  is a caret.

The last condition cannot be left out.  `Intersects` only asks that each range starts before the
other one stops, and a caret that lies between the ends of a range does so (`Range.CaretWithin`).
-/

namespace SelectionLadder.Range

variable {a b c d r x : Range} {p : Position}

/-! ## Containment and joins -/

/-- Of two ranges that contain each other neither is strictly larger. -/
theorem strictlyContains_iff : a.StrictlyContains b ↔ a.Contains b ∧ ¬ b.Contains a := by
  constructor
  · intro h
    exact ⟨h.1, fun hba => hba.not_strictlyContains h⟩
  · rintro ⟨hab, hba⟩
    refine ⟨hab, ?_⟩
    rintro rfl
    exact hba hab

/-- A range contains a union exactly if it contains both ranges. -/
theorem contains_union_iff : r.Contains (a.union b) ↔ r.Contains a ∧ r.Contains b := by
  show r.start ≤ min a.start b.start ∧ max a.stop b.stop ≤ r.stop ↔ _
  rw [le_min_iff, max_le_iff]
  exact and_and_and_comm

/-- Of two ranges that contain each other in this order the first is the smaller one. -/
instance instSemilatticeSup : SemilatticeSup Range where
  le a b := b.Contains a
  lt a b := b.StrictlyContains a
  le_refl := contains_refl
  le_trans _ _ _ hab hbc := hbc.trans hab
  le_antisymm _ _ hab hba := hba.antisymm hab
  lt_iff_le_not_ge _ _ := strictlyContains_iff
  sup := union
  le_sup_left a b := (contains_union_iff.1 (contains_refl (a.union b))).1
  le_sup_right a b := (contains_union_iff.1 (contains_refl (a.union b))).2
  sup_le _ _ _ ha hb := contains_union_iff.2 ⟨ha, hb⟩

/-- The union of two ranges is the smallest range that contains both. -/
theorem isLeast_union (a b : Range) :
    IsLeast {r : Range | r.Contains a ∧ r.Contains b} (a.union b) :=
  ⟨contains_union_iff.1 (contains_refl _), fun _ h => contains_union_iff.2 h⟩

/-! ## Meets -/

/-- The ranges that are no carets and lie in both. -/
def commonParts (a b : Range) : Set Range := {d | ¬ d.IsEmpty ∧ a.Contains d ∧ b.Contains d}

/-- Ranges have an intersection exactly if they have a part in common that is no caret. -/
theorem exists_intersection_iff :
    (∃ r, a.intersection b = some r) ↔ (commonParts a b).Nonempty := by
  constructor
  · rintro ⟨r, h⟩
    exact ⟨r, intersection_spec h⟩
  · rintro ⟨d, hd, ha, hb⟩
    exact exists_intersection hd ha hb

theorem isGreatest_of_intersection (h : a.intersection b = some r) :
    IsGreatest (commonParts a b) r := by
  refine ⟨intersection_spec h, ?_⟩
  rintro d ⟨-, ha, hb⟩
  exact contains_of_intersection h ha hb

/-- The intersection is the greatest of the common parts. -/
theorem intersection_eq_some_iff :
    a.intersection b = some r ↔ IsGreatest (commonParts a b) r := by
  constructor
  · exact isGreatest_of_intersection
  · intro h
    obtain ⟨r', h'⟩ := exists_intersection_iff.2 ⟨r, h.1⟩
    rwa [h.unique (isGreatest_of_intersection h')]

theorem holds_intersection_iff (h : a.intersection b = some r) :
    r.Holds p ↔ a.Holds p ∧ b.Holds p := by
  obtain ⟨-, ha, hb⟩ := intersection_spec h
  constructor
  · intro hp
    exact ⟨ha.holds hp, hb.holds hp⟩
  · rintro ⟨hpa, hpb⟩
    exact holds_of_intersection h hpa hpb

/-- A larger range has a larger part in common with a third one. -/
theorem exists_intersection_of_contains (hab : a.Contains b) (h : b.intersection c = some x) :
    ∃ y, a.intersection c = some y ∧ y.Contains x := by
  obtain ⟨hx, hbx, hcx⟩ := intersection_spec h
  obtain ⟨y, hy⟩ := exists_intersection hx (hab.trans hbx) hcx
  exact ⟨y, hy, contains_of_intersection hy (hab.trans hbx) hcx⟩

/-- The laws of containment, union and intersection.  Containment is a partial order, and strict
containment is its strict part.  Unions are joins.  Intersections are meets among the ranges that
are no carets, and they hold what both ranges hold and grow with them. -/
theorem unions_join_intersections_meet :
    (IsPartialOrder Range Contains ∧
        ∀ a b : Range, a.StrictlyContains b ↔ a.Contains b ∧ ¬ b.Contains a) ∧
      ((∀ a b : Range, IsLeast {r : Range | r.Contains a ∧ r.Contains b} (a.union b)) ∧
        (∀ a b c : Range, (a.union b).union c = a.union (b.union c)) ∧
        (∀ a b : Range, a.union b = b.union a) ∧
        ∀ a : Range, a.union a = a) ∧
      (∀ a b : Range, (∃ r, a.intersection b = some r) ↔ (commonParts a b).Nonempty) ∧
      (∀ a b r : Range, a.intersection b = some r ↔ IsGreatest (commonParts a b) r) ∧
      (∀ a b r : Range, a.intersection b = some r →
        r.start < r.stop ∧ ∀ p, r.Holds p ↔ a.Holds p ∧ b.Holds p) ∧
      ∀ a b c x : Range, a.Contains b → b.intersection c = some x →
        ∃ y, a.intersection c = some y ∧ y.Contains x := by
  refine ⟨⟨?_, ?_⟩, ⟨isLeast_union, sup_assoc, sup_comm, sup_idem⟩, ?_, ?_, ?_, ?_⟩
  · exact { refl := contains_refl, trans := fun _ _ _ => Contains.trans,
            antisymm := fun _ _ => Contains.antisymm }
  · exact fun a b => strictlyContains_iff
  · exact fun a b => exists_intersection_iff
  · exact fun a b r => intersection_eq_some_iff
  · intro a b r h
    exact ⟨start_lt_stop (intersection_spec h).1, fun p => holds_intersection_iff h⟩
  · exact fun a b c x => exists_intersection_of_contains

/-- Two lines, of which the second ends in a word, and a stretch over the line break. -/
theorem unions_join_intersections_meet_lines :
    ∃ x y, (⟨⟨1, 2⟩, ⟨1, 5⟩, by decide⟩ : Range).intersection ⟨⟨0, 3⟩, ⟨1, 4⟩, by decide⟩ = some x ∧
      (⟨⟨0, 0⟩, ⟨1, 5⟩, by decide⟩ : Range).intersection ⟨⟨0, 3⟩, ⟨1, 4⟩, by decide⟩ = some y ∧
      y.Contains x ∧ x.start < x.stop ∧ (x.Holds ⟨1, 4⟩ ∧ ¬ x.Holds ⟨1, 5⟩) := by
  obtain ⟨-, -, -, -, hmeet, hgrows⟩ := unions_join_intersections_meet
  have hx : (⟨⟨1, 2⟩, ⟨1, 5⟩, by decide⟩ : Range).intersection ⟨⟨0, 3⟩, ⟨1, 4⟩, by decide⟩ =
      some ⟨⟨1, 2⟩, ⟨1, 4⟩, by decide⟩ := by decide
  obtain ⟨y, hy, hyx⟩ := hgrows ⟨⟨0, 0⟩, ⟨1, 5⟩, by decide⟩ _ _ _ (by decide) hx
  obtain ⟨hlt, hholds⟩ := hmeet _ _ _ hx
  refine ⟨_, y, hx, hy, hyx, hlt, (hholds ⟨1, 4⟩).2 (by decide), ?_⟩
  rw [hholds]
  decide

/-! ## Overlap -/

/-- The range is a caret between the ends of another one. -/
def CaretWithin (a b : Range) : Prop := a.IsEmpty ∧ b.start < a.start ∧ a.start < b.stop

instance (a b : Range) : Decidable (a.CaretWithin b) := inferInstanceAs (Decidable (_ ∧ _))

theorem intersects_comm : a.Intersects b ↔ b.Intersects a := And.comm

theorem intersection_comm (a b : Range) : a.intersection b = b.intersection a := by
  simp only [intersection, max_comm a.start, min_comm a.stop]

theorem isSome_intersection_iff :
    (a.intersection b).isSome ↔ a.Intersects b ∧ ¬ a.IsEmpty ∧ ¬ b.IsEmpty := by
  have hsome : (a.intersection b).isSome ↔
      max a.start b.start < min a.stop b.stop := by
    unfold intersection
    split <;> simp_all
  rw [hsome, max_lt_iff, lt_min_iff, lt_min_iff]
  constructor
  · rintro ⟨⟨ha, hab⟩, hba, hb⟩
    exact ⟨⟨hab, hba⟩, ne_of_lt ha, ne_of_lt hb⟩
  · rintro ⟨⟨hab, hba⟩, ha, hb⟩
    exact ⟨⟨start_lt_stop ha, hab⟩, hba, start_lt_stop hb⟩

/-- A caret intersects the ranges that it lies within. -/
theorem IsEmpty.intersects_iff (ha : a.IsEmpty) : a.Intersects b ↔ a.CaretWithin b := by
  have hstop : a.stop = a.start := ha.symm
  rw [Intersects, CaretWithin, hstop]
  exact ⟨fun h => ⟨ha, h.2, h.1⟩, fun h => ⟨h.2.2, h.2.1⟩⟩

/-- Ranges that intersect have an intersection, or one is a caret within the other. -/
theorem intersects_iff :
    a.Intersects b ↔ (a.intersection b).isSome ∨ a.CaretWithin b ∨ b.CaretWithin a := by
  rw [isSome_intersection_iff]
  constructor
  · intro h
    by_cases ha : a.IsEmpty
    · exact Or.inr (Or.inl (ha.intersects_iff.1 h))
    by_cases hb : b.IsEmpty
    · exact Or.inr (Or.inr (hb.intersects_iff.1 (intersects_comm.1 h)))
    exact Or.inl ⟨h, ha, hb⟩
  · rintro (h | h | h)
    · exact h.1
    · exact h.1.intersects_iff.2 h
    · exact intersects_comm.1 (h.1.intersects_iff.2 h)

/-- A caret within a range is contained in it. -/
theorem CaretWithin.contains (h : a.CaretWithin b) : b.Contains a := by
  rw [h.1.eq_caret, contains_caret]
  exact ⟨h.2.1.le, h.2.2.le⟩

/-- Ranges of which neither contains the other have an intersection as soon as they intersect. -/
theorem Crosses.isSome_intersection (h : a.Crosses b) : (a.intersection b).isSome := by
  obtain ⟨hintersects, hab, hba⟩ := h
  rcases intersects_iff.1 hintersects with hsome | hwithin | hwithin
  · exact hsome
  · exact absurd hwithin.contains hba
  · exact absurd hwithin.contains hab

/-- How the two tests of overlap go together.  Both are symmetric.  A caret has no intersection with
any range, and ranges of which neither is a caret have one exactly if they intersect.  A caret
intersects the ranges that it lies within, and no others; it does not cross them. -/
theorem intersects_or_caretWithin (a b : Range) :
    (a.Intersects b ↔ b.Intersects a) ∧ a.intersection b = b.intersection a ∧
      (a.IsEmpty ∨ b.IsEmpty → a.intersection b = none) ∧
      ((a.intersection b).isSome ↔ a.Intersects b ∧ ¬ a.IsEmpty ∧ ¬ b.IsEmpty) ∧
      (a.Intersects b ↔ (a.intersection b).isSome ∨ a.CaretWithin b ∨ b.CaretWithin a) ∧
      (a.Crosses b → (a.intersection b).isSome) := by
  refine ⟨intersects_comm, intersection_comm a b, ?_, isSome_intersection_iff, intersects_iff,
    Crosses.isSome_intersection⟩
  rintro (ha | hb)
  · exact intersection_eq_none_of_isEmpty ha b
  · rw [intersection_comm]
    exact intersection_eq_none_of_isEmpty hb a

/-- A stretch of four characters. -/
def fourColumns : Range := ⟨⟨0, 0⟩, ⟨0, 4⟩, by decide⟩

theorem intersects_or_caretWithin_fourColumns :
    (caret ⟨0, 4⟩).intersection fourColumns = none ∧ ¬ (caret ⟨0, 4⟩).Intersects fourColumns ∧
      (fourColumns.intersection ⟨⟨0, 3⟩, ⟨1, 0⟩, by decide⟩).isSome := by
  obtain ⟨-, -, hcaret, -, hiff, -⟩ := intersects_or_caretWithin (caret ⟨0, 4⟩) fourColumns
  obtain ⟨-, -, -, -, -, hcrosses⟩ :=
    intersects_or_caretWithin fourColumns ⟨⟨0, 3⟩, ⟨1, 0⟩, by decide⟩
  have hnone := hcaret (Or.inl rfl)
  refine ⟨hnone, ?_, hcrosses (by decide)⟩
  rw [hiff, hnone]
  decide

/-- A caret between the ends of a range intersects it, and has no intersection with it. -/
theorem intersects_caret_fourColumns :
    fourColumns.Intersects (caret ⟨0, 2⟩) ∧ (caret ⟨0, 2⟩).IsEmpty ∧
      fourColumns.intersection (caret ⟨0, 2⟩) = none := by
  decide

end SelectionLadder.Range
