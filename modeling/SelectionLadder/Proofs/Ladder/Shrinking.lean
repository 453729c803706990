import SelectionLadder.Proofs.Engine.Caching
import SelectionLadder.Proofs.Engine.Outlines
import SelectionLadder.Proofs.Ladder.Growth

/-!
# Shrinking lets go of the selection

Wherever an engine stands, shrinking selects less than is selected, until there is a caret.

* `Scene.Shrinks` says what the decision may be: to restore the cursor, or for a part of the
  selection that has the word, if the word is inside the selection.  `Scene.shrink_shrinks` is the
  step.  Without an outline the part is the meet of the selection and a unit of the text
  (`Scene.unitBelow`), with one it is the meet with a node or the word.
* `StandsAt.exists_endsAfter` is the run, for any bound on the steps that goes down with each step.
  The number of selected characters is such a bound, and without an outline four is, because each
  step ends inside the next smaller unit (`Scene.WithinSteps`).
* `Engine.shrink_lets_go` says all of this of an engine.  A caret is apart: it stays, and so does an
  origin that is stored for it (`StandsAt.shrinkAll_caret`).
-/

namespace SelectionLadder

/-! ## Decisions -/

namespace Snapshot

variable {s : Snapshot} {u part : Range}

theorem innerPart?_eq_some_iff : s.innerPart? u = some part ↔
    u.intersection s.selection = some part ∧ s.selection.StrictlyContains part := by
  simp [innerPart?, Option.filter_eq_some_iff]

/-- From a range that is not inside the word the selected part of the word or of a node is selected,
if there is one. -/
theorem shrinkStructural_cases (around : Surroundings) (hne : ¬ s.selection.IsEmpty)
    (houtside : ¬ s.word.Contains s.selection) :
    (∃ part, s.innerPart? s.word = some part ∧
        (s.shrinkStructural around).target = some part) ∨
      (∃ part, s.innerNode? around = some part ∧
        (∀ word ∈ s.innerPart? s.word, ¬ word.StrictlyContains part) ∧
        (s.shrinkStructural around).target = some part) ∨
      (s.innerPart? s.word = none ∧ s.shrinkStructural around = .restoreCursor s.origin) := by
  rw [shrinkStructural, if_neg hne, if_neg houtside]
  cases hnode : s.innerNode? around with
  | none =>
    cases hword : s.innerPart? s.word with
    | none => exact Or.inr (Or.inr ⟨rfl, rfl⟩)
    | some word => exact Or.inl ⟨word, rfl, rfl⟩
  | some node =>
    cases hword : s.innerPart? s.word with
    | none => exact Or.inr (Or.inl ⟨node, rfl, by simp, rfl⟩)
    | some word =>
      by_cases hless : word.StrictlyContains node
      · exact Or.inl ⟨word, rfl, by simp only [if_pos hless, Decision.target]⟩
      · exact Or.inr (Or.inl ⟨node, rfl, by simpa using hless,
          by simp only [if_neg hless, Decision.target]⟩)

/-- What would be selected is selected, unless it is a caret. -/
theorem shrink_of_target (h : s.shrinkTarget.target = some u) :
    s.shrink = if u.IsEmpty then .restoreCursor s.origin else s.shrinkTarget := by
  simp only [shrink, h]

end Snapshot

namespace Scene

variable {scene : Scene} {o : Outline} {p q : Position} {r s : Range} {d : Decision}

/-- The outline in effect, if there is one, is sound and has the length of the text. -/
def OutlineFits (scene : Scene) : Prop :=
  ∀ o ∈ scene.outline, o.IsSound ∧ o.length = scene.text.length

/-- The decision restores the cursor, or it is for less than the selection.  From inside the word it
restores the cursor, and while the word is strictly inside the selection it keeps the word. -/
inductive Shrinks (scene : Scene) (p : Position) (r : Range) : Decision → Prop where
  | cursor (hword : ¬ (scene.wordAt p).IsEmpty → ¬ r.StrictlyContains (scene.wordAt p)) :
    Shrinks scene p r (.restoreCursor p)
  | part {d : Decision} {s : Range} (htarget : d.target = some s) (hne : ¬ s.IsEmpty)
    (hhas : scene.text.Has s) (hless : r.StrictlyContains s)
    (houtside : ¬ (scene.wordAt p).Contains r)
    (hword : ¬ (scene.wordAt p).IsEmpty → r.StrictlyContains (scene.wordAt p) →
      s.Contains (scene.wordAt p)) :
    Shrinks scene p r d

theorem Shrinks.contains_wordAt (h : scene.Shrinks p r d) (hword : ¬ (scene.wordAt p).IsEmpty)
    (hstrict : r.StrictlyContains (scene.wordAt p)) :
    ∃ s, d.target = some s ∧ ¬ s.IsEmpty ∧ s.Contains (scene.wordAt p) := by
  cases h with
  | cursor hnot => exact absurd hstrict (hnot hword)
  | part htarget hne _ _ _ hkeeps => exact ⟨_, htarget, hne, hkeeps hword hstrict⟩

theorem Shrinks.eq_restoreCursor (h : scene.Shrinks p r d) (hinside : (scene.wordAt p).Contains r) :
    d = .restoreCursor p := by
  cases h with
  | cursor _ => rfl
  | part _ _ _ _ houtside _ => exact absurd hinside houtside

theorem shrink_of_target_caret
    (h : (scene.snapshot r p).shrinkTarget.target = some (.caret p)) :
    (scene.snapshot r p).shrink = .restoreCursor p := by
  rw [Snapshot.shrink_of_target h, if_pos (Range.isEmpty_caret p), snapshot_origin]

theorem shrink_of_target_part (h : (scene.snapshot r p).shrinkTarget.target = some s)
    (hs : ¬ s.IsEmpty) : (scene.snapshot r p).shrink = (scene.snapshot r p).shrinkTarget := by
  rw [Snapshot.shrink_of_target h, if_neg hs]

/-! ### By the units of the text -/

/-- The unit of the text that shrinking goes to from a range that is not inside the word. -/
def unitBelow (scene : Scene) (p : Position) (r : Range) : Range :=
  if r.IsSingleLine then scene.wordAt p
  else if (scene.text.paragraphRange p).Contains r then scene.text.lineRange p
  else scene.text.paragraphRange p

theorem not_unitBelow_contains (houtside : ¬ (scene.wordAt p).Contains r) :
    ¬ (scene.unitBelow p r).Contains r := by
  unfold unitBelow
  split
  · exact houtside
  · rename_i hline
    split
    · intro hcontains
      exact hline (hcontains.isSingleLine (scene.text.isSingleLine_lineRange p))
    · assumption

theorem has_unitBelow (hwords : scene.WordsStayInside) (hp : p.line ≤ scene.text.lastLine)
    (hne : ¬ (scene.unitBelow p r).IsEmpty) : scene.text.Has (scene.unitBelow p r) := by
  unfold unitBelow at hne ⊢
  split at hne
  · rename_i hline
    rw [if_pos hline]
    exact (isWordAt_wordAt hwords p).has hne
  · rename_i hline
    rw [if_neg hline]
    split
    · exact Text.has_lineRange hp
    · exact Text.has_paragraphRange hp

/-- The unit has the word, if there is one. -/
theorem unitBelow_contains_wordAt (hwords : scene.WordsStayInside)
    (hp : p.line ≤ scene.text.lastLine) (hword : ¬ (scene.wordAt p).IsEmpty) :
    (scene.unitBelow p r).Contains (scene.wordAt p) := by
  have hline := (isWordAt_wordAt hwords p).in_line hword
  unfold unitBelow
  split
  · exact Range.contains_refl _
  · split
    · exact hline
    · exact (Text.paragraphRange_contains_lineRange hp).trans hline

theorem unitBelow_holds (hwords : scene.WordsStayInside) (hp : scene.text.Inside p) :
    (scene.unitBelow p r).Holds p := by
  have hline : (scene.text.lineRange p).Holds p := Text.lineRange_holds hp
  unfold unitBelow
  split
  · exact (isWordAt_wordAt hwords p).holds
  · split
    · exact hline
    · exact (Text.paragraphRange_contains_lineRange hp.1).holds hline

theorem paragraphRange_contains_unitBelow (hwords : scene.WordsStayInside)
    (hp : scene.text.Inside p) :
    (scene.text.paragraphRange p).Contains (scene.unitBelow p r) := by
  have hline := Text.paragraphRange_contains_lineRange (t := scene.text) hp.1
  unfold unitBelow
  split
  · exact hline.trans ((isWordAt_wordAt hwords p).lineRange_contains hp)
  · split
    · exact hline
    · exact Range.contains_refl _

theorem shrinkTarget_of_outline_eq_none (ho : scene.outline = none) :
    (scene.snapshot r p).shrinkTarget = (scene.snapshot r p).shrinkTextual := by
  rw [Snapshot.shrinkTarget, snapshot_surroundings, ho, Option.map_none]

/-- From inside the word the cursor is restored. -/
theorem shrinkTextual_of_contains (hwords : scene.WordsStayInside) (hne : ¬ r.IsEmpty)
    (hinside : (scene.wordAt p).Contains r) :
    (scene.snapshot r p).shrinkTextual = .restoreCursor p := by
  have hline : r.IsSingleLine := hinside.isSingleLine (isWordAt_wordAt hwords p).isSingleLine
  rw [Snapshot.shrinkTextual, snapshot_selection, if_neg hne, if_pos hline,
    Snapshot.shrinkWithinLine, snapshot_selection, snapshot_word, if_pos hinside, snapshot_origin]

/-- From elsewhere the selected part of the unit below is selected: something is always found. -/
theorem target_shrinkTextual (hr : scene.text.Has r) (hp : r.Holds p) (hne : ¬ r.IsEmpty)
    (houtside : ¬ (scene.wordAt p).Contains r) :
    (scene.snapshot r p).shrinkTextual.target =
      some ((scene.snapshot r p).clip (scene.unitBelow p r)) := by
  rw [Snapshot.shrinkTextual, snapshot_selection, if_neg hne, unitBelow]
  by_cases hline : r.IsSingleLine
  · rw [if_pos hline, if_pos hline, Snapshot.shrinkWithinLine, snapshot_selection, snapshot_word,
      snapshot_line, if_neg houtside, if_pos (Text.lineRange_contains hr hline hp)]
    rfl
  · rw [if_neg hline, if_neg hline, Snapshot.shrinkLines, snapshot_selection, snapshot_paragraph,
      snapshot_line]
    split
    · rfl
    · rfl

theorem shrink_shrinks_textual (ho : scene.outline = none) (hwords : scene.WordsStayInside)
    (hr : scene.text.Has r) (hp : r.Holds p) (hne : ¬ r.IsEmpty) :
    scene.Shrinks p r (scene.snapshot r p).shrink := by
  have htextual := shrinkTarget_of_outline_eq_none (r := r) (p := p) ho
  by_cases hinside : (scene.wordAt p).Contains r
  · rw [shrink_of_target_caret (by
      rw [htextual, shrinkTextual_of_contains hwords hne hinside, Decision.target])]
    exact .cursor fun _ => hinside.not_strictlyContains
  have htarget := target_shrinkTextual hr hp hne hinside
  rw [← htextual, Snapshot.clip, snapshot_selection, snapshot_origin] at htarget
  have hline := hr.line_le hp
  cases hpart : (scene.unitBelow p r).intersection r with
  | none =>
    rw [hpart] at htarget
    rw [shrink_of_target_caret htarget]
    refine .cursor fun hword hstrict => ?_
    obtain ⟨part, hsome⟩ :=
      Range.exists_intersection hword (unitBelow_contains_wordAt hwords hline hword) hstrict.1
    rw [hpart] at hsome
    cases hsome
  | some part =>
    rw [hpart] at htarget
    obtain ⟨hpartNe, hunit, hselected⟩ := Range.intersection_spec hpart
    have hunitNe : ¬ (scene.unitBelow p r).IsEmpty := fun hempty =>
      hpartNe (hempty.of_contains hunit)
    rw [shrink_of_target_part htarget hpartNe]
    refine .part htarget hpartNe ((has_unitBelow hwords hline hunitNe).intersection hr hpart)
      ⟨hselected, ?_⟩ hinside ?_
    · rintro rfl
      exact not_unitBelow_contains hinside hunit
    · intro hword hstrict
      exact Range.contains_of_intersection hpart (unitBelow_contains_wordAt hwords hline hword)
        hstrict.1

/-! ### By the nodes of an outline -/

/-- A node that is not passed over contains the word or lies in it. -/
theorem contains_or_of_mem_chainAt (hwords : scene.WordsStayInside) (hsound : o.IsSound)
    (hlength : o.length = scene.text.length) (hword : ¬ (scene.wordAt p).IsEmpty)
    (hs : s ∈ o.chainAt scene.text (scene.text.offsetAt (scene.wordAt p).start))
    (hcrosses : ¬ s.Crosses (scene.wordAt p)) :
    s.Contains (scene.wordAt p) ∨ (scene.wordAt p).Contains s := by
  have hhas := (isWordAt_wordAt hwords p).has hword
  have hlt := Text.offsetAt_lt_offsetAt hhas.1 hhas.2 (Range.start_lt_stop hword)
  have hle := scene.text.offsetAt_le_length (scene.wordAt p).stop
  apply Range.contains_or_of_not_crosses (hsound.holds_of_mem_chainAt hhas.1 hs) _ hcrosses
  intro _
  exact hsound.lt_stop_of_mem_chainAt hlength hhas.1 (by omega) hs

/-- The selected part of a node keeps the word, or is less than the word. -/
theorem contains_or_of_innerNode? (hwords : scene.WordsStayInside) (hsound : o.IsSound)
    (hlength : o.length = scene.text.length) (hword : ¬ (scene.wordAt p).IsEmpty)
    (hstrict : r.StrictlyContains (scene.wordAt p)) {blocks : Option Range}
    (hs : (scene.snapshot r p).innerNode?
      ⟨o.chainAt scene.text (scene.text.offsetAt (scene.wordAt p).start), blocks⟩ = some s) :
    s.Contains (scene.wordAt p) ∨ (scene.wordAt p).StrictlyContains s := by
  obtain ⟨u, hu, hpart⟩ := List.exists_of_findSome?_eq_some hs
  rw [List.mem_filter, List.mem_reverse, snapshot_word, decide_eq_true_eq] at hu
  obtain ⟨hmeet, -⟩ := Snapshot.innerPart?_eq_some_iff.1 hpart
  rw [snapshot_selection] at hmeet
  rcases contains_or_of_mem_chainAt hwords hsound hlength hword hu.1 hu.2 with hover | hunder
  · exact Or.inl (Range.contains_of_intersection hmeet hover hstrict.1)
  · have hless : (scene.wordAt p).Contains s := hunder.trans (Range.intersection_spec hmeet).2.1
    rcases hless.eq_or_strictlyContains with heq | hless
    · exact Or.inl (heq ▸ Range.contains_refl _)
    · exact Or.inr hless

/-- A selected part that is less than the selection is a range of the text. -/
theorem part_of_innerPart? (hr : scene.text.Has r) {u : Range}
    (hu : ¬ u.IsEmpty → scene.text.Has u) (hs : (scene.snapshot r p).innerPart? u = some s) :
    ¬ s.IsEmpty ∧ scene.text.Has s ∧ r.StrictlyContains s := by
  obtain ⟨hmeet, hless⟩ := Snapshot.innerPart?_eq_some_iff.1 hs
  rw [snapshot_selection] at hmeet hless
  obtain ⟨hne, hcontains, -⟩ := Range.intersection_spec hmeet
  exact ⟨hne, (hu fun hempty => hne (hempty.of_contains hcontains)).intersection hr hmeet, hless⟩

theorem shrink_shrinks_structural (hwords : scene.WordsStayInside) (ho : scene.outline = some o)
    (hsound : o.IsSound) (hlength : o.length = scene.text.length) (hr : scene.text.Has r)
    (hne : ¬ r.IsEmpty) : scene.Shrinks p r (scene.snapshot r p).shrink := by
  have hstructural : (scene.snapshot r p).shrinkTarget = (scene.snapshot r p).shrinkStructural
      ⟨o.chainAt scene.text (scene.text.offsetAt (scene.wordAt p).start),
        o.blocksOver? scene.text r⟩ := by
    rw [Snapshot.shrinkTarget, snapshot_surroundings_eq hwords ho]
  by_cases hinside : (scene.wordAt p).Contains r
  · rw [shrink_of_target_caret (by
      rw [hstructural, Snapshot.shrinkStructural, snapshot_selection, snapshot_word, if_neg hne,
        if_pos hinside, Decision.target, snapshot_origin])]
    exact .cursor fun _ => hinside.not_strictlyContains
  -- A word strictly inside the selection is its own selected part.
  have hself : ¬ (scene.wordAt p).IsEmpty → r.StrictlyContains (scene.wordAt p) →
      (scene.snapshot r p).innerPart? (scene.wordAt p) = some (scene.wordAt p) :=
    fun hword hstrict => innerPart?_of_strictlyContains hword hstrict
  have hcases := Snapshot.shrinkStructural_cases (s := scene.snapshot r p)
    ⟨o.chainAt scene.text (scene.text.offsetAt (scene.wordAt p).start),
      o.blocksOver? scene.text r⟩ hne hinside
  rw [← hstructural, snapshot_word, snapshot_origin] at hcases
  rcases hcases with ⟨part, hpart, htarget⟩ | ⟨part, hnode, hlarger, htarget⟩ | ⟨hnone, hcursor⟩
  · obtain ⟨hpartNe, hhas, hless⟩ := part_of_innerPart? hr (isWordAt_wordAt hwords p).has hpart
    rw [shrink_of_target_part htarget hpartNe]
    refine .part htarget hpartNe hhas hless hinside fun hword hstrict => ?_
    obtain rfl := Option.some.inj ((hself hword hstrict).symm.trans hpart)
    exact Range.contains_refl _
  · obtain ⟨u, hu, hpart⟩ := List.exists_of_findSome?_eq_some hnode
    have hmem := List.mem_reverse.1 (List.mem_filter.1 hu).1
    obtain ⟨hpartNe, hhas, hless⟩ :=
      part_of_innerPart? hr (fun _ => Outline.has_of_mem_chainAt hmem) hpart
    rw [shrink_of_target_part htarget hpartNe]
    refine .part htarget hpartNe hhas hless hinside fun hword hstrict => ?_
    exact (contains_or_of_innerNode? hwords hsound hlength hword hstrict hnode).resolve_right
      (hlarger _ (hself hword hstrict))
  · rw [shrink_of_target_caret (by rw [hcursor, Decision.target])]
    refine .cursor fun hword hstrict => ?_
    exact absurd ((hself hword hstrict).symm.trans hnone) (by simp)

/-- The step: from a selection that is no caret shrinking restores the cursor or selects less. -/
theorem shrink_shrinks (hwords : scene.WordsStayInside) (houtline : scene.OutlineFits)
    (hr : scene.text.Has r) (hp : r.Holds p) (hne : ¬ r.IsEmpty) :
    scene.Shrinks p r (scene.snapshot r p).shrink := by
  cases ho : scene.outline with
  | none => exact shrink_shrinks_textual ho hwords hr hp hne
  | some o =>
    obtain ⟨hsound, hlength⟩ := houtline o ho
    exact shrink_shrinks_structural hwords ho hsound hlength hr hne

/-! ### Bounds -/

/-- The number of characters in a range. -/
def selected (scene : Scene) (r : Range) : Nat :=
  scene.text.offsetAt r.stop - scene.text.offsetAt r.start

theorem selected_lt (hr : scene.text.Has r) (hs : scene.text.Has s) (h : r.StrictlyContains s) :
    scene.selected s < scene.selected r := by
  have houtside := outside_lt hs hr h
  have hstart := (Text.offsetAt_le_offsetAt_iff hr.1 hr.2).2 r.start_le_stop
  have hstart' := (Text.offsetAt_le_offsetAt_iff hs.1 hs.2).2 s.start_le_stop
  have hstop := scene.text.offsetAt_le_length r.stop
  have hstop' := scene.text.offsetAt_le_length s.stop
  unfold outside at houtside
  unfold selected
  omega

theorem isEmpty_of_selected_eq_zero (hr : scene.text.Has r) (h : scene.selected r = 0) :
    r.IsEmpty := by
  by_contra hne
  have hlt := Text.offsetAt_lt_offsetAt hr.1 hr.2 (Range.start_lt_stop hne)
  unfold selected at h
  omega

/-- The range lies in the unit of the text from which this many steps lead to a caret. -/
def WithinSteps (scene : Scene) (p : Position) (r : Range) : Nat → Prop
  | 0 => r.IsEmpty
  | 1 => (scene.wordAt p).Contains r
  | 2 => (scene.text.lineRange p).Contains r
  | 3 => (scene.text.paragraphRange p).Contains r
  | _ => True

/-- Without an outline a part that is selected is the meet with the unit below. -/
theorem intersection_of_target_shrink (ho : scene.outline = none) (hwords : scene.WordsStayInside)
    (hr : scene.text.Has r) (hp : r.Holds p) (hne : ¬ r.IsEmpty)
    (ht : (scene.snapshot r p).shrink.target = some s) (hs : ¬ s.IsEmpty) :
    ¬ (scene.wordAt p).Contains r ∧ (scene.unitBelow p r).intersection r = some s := by
  have htextual := shrinkTarget_of_outline_eq_none (r := r) (p := p) ho
  have hcaret : (scene.snapshot r p).shrink ≠ .restoreCursor p := by
    intro heq
    rw [heq] at ht
    exact hs (Option.some.inj ht ▸ Range.isEmpty_caret p)
  have houtside : ¬ (scene.wordAt p).Contains r := by
    intro hinside
    exact hcaret (shrink_of_target_caret (by
      rw [htextual, shrinkTextual_of_contains hwords hne hinside, Decision.target]))
  refine ⟨houtside, ?_⟩
  have htarget := target_shrinkTextual hr hp hne houtside
  rw [← htextual, Snapshot.clip, snapshot_selection, snapshot_origin] at htarget
  cases hpart : (scene.unitBelow p r).intersection r with
  | none =>
    rw [hpart] at htarget
    exact absurd (shrink_of_target_caret htarget) hcaret
  | some part =>
    rw [hpart] at htarget
    rw [shrink_of_target_part htarget (Range.intersection_spec hpart).1, htarget] at ht
    exact ht

/-- Without an outline each step leads into the next smaller unit, and the origin stays. -/
theorem WithinSteps.of_target_shrink {k : Nat} (h : scene.WithinSteps p r (k + 1))
    (ho : scene.outline = none) (hwords : scene.WordsStayInside) (hinside : scene.text.Inside p)
    (hr : scene.text.Has r) (hp : r.Holds p) (hne : ¬ r.IsEmpty)
    (ht : (scene.snapshot r p).shrink.target = some s) (hs : ¬ s.IsEmpty) :
    s.Holds p ∧ scene.WithinSteps p s k := by
  obtain ⟨houtside, hmeet⟩ := intersection_of_target_shrink ho hwords hr hp hne ht hs
  obtain ⟨-, hunit, hless⟩ := Range.intersection_spec hmeet
  have hholds := unitBelow_holds (r := r) hwords hinside
  refine ⟨Range.holds_of_intersection hmeet hholds hp, ?_⟩
  -- One case for each unit that `r` may lie in.  Which unit is below it then follows, but for a
  -- single line that is only known to lie in its paragraph: that lies in its line already.
  match k with
  | 0 => exact absurd h houtside
  | 1 =>
    have hline : r.IsSingleLine := Range.Contains.isSingleLine h rfl
    rwa [unitBelow, if_pos hline] at hunit
  | 2 =>
    by_cases hline : r.IsSingleLine
    · exact (Text.lineRange_contains hr hline hp).trans hless
    · have hparagraph : (scene.text.paragraphRange p).Contains r := h
      rwa [unitBelow, if_neg hline, if_pos hparagraph] at hunit
  | 3 => exact (paragraphRange_contains_unitBelow hwords hinside).trans hunit
  | _ + 4 => trivial

end Scene

/-! ## Runs -/

namespace Engine

variable {e : Engine} {scene : Scene} {version : Nat} {p : Position} {r s : Range}

/-- One command: the cursor is restored, or a part of the selection is selected. -/
theorem StandsAt.shrink (h : e.StandsAt scene version p r) (hwords : scene.WordsStayInside)
    (houtline : scene.OutlineFits) (hne : ¬ r.IsEmpty) :
    ∃ d e', (scene.snapshot r p).shrink = d ∧ e.shrink = .ok (d, e') ∧
      ((∃ q, d = .restoreCursor p ∧ e'.StandsAt scene version q (.caret q) ∧ r.Holds q ∧
          e'.origin = none) ∨
        ∃ s, d.target = some s ∧ e'.StandsAt scene version (if s.Holds p then p else s.start) s ∧
          ¬ s.IsEmpty ∧ r.StrictlyContains s) := by
  have hshrinks := Scene.shrink_shrinks hwords houtline h.has h.holds hne
  generalize hd : (scene.snapshot r p).shrink = d at hshrinks
  cases hshrinks with
  | cursor hword =>
    obtain ⟨e', hrun, horigin, hstands⟩ := h.run_of_restoreCursor Snapshot.shrink hd
    exact ⟨_, e', rfl, hrun, Or.inl ⟨_, rfl, hstands, h.has.holds_clamp h.holds, horigin⟩⟩
  | part htarget hs hhas hless houtside hword =>
    rw [← hd] at htarget
    obtain ⟨e', hrun, hstands⟩ := h.run_to Snapshot.shrink htarget hhas
    rw [hd] at hrun htarget
    exact ⟨d, e', rfl, hrun, Or.inr ⟨_, htarget, hstands, hs, hless⟩⟩

/-- A caret stays where it is, and an origin that is stored for it stays stored: only restoring the
cursor would forget it. -/
theorem StandsAt.shrinkAll_caret (h : e.StandsAt scene version p (.caret p)) (k : Nat) :
    ∃ e', e.performAll (List.replicate k .shrink) = .ok e' ∧
      (e.origin.isSome → e'.origin.isSome) ∧ e'.StandsAt scene version p (.caret p) := by
  induction k generalizing e with
  | zero => exact ⟨e, rfl, id, h⟩
  | succ k ih =>
    obtain ⟨e₁, hfirst, hstored, hstands₁⟩ := h.perform_shrink_caret
    obtain ⟨e', hrest, hstays, hstands⟩ := ih hstands₁
    refine ⟨e', ?_, fun _ => hstays (by rw [hstored]; rfl), hstands⟩
    rw [List.replicate_succ, performAll_cons hfirst, hrest]

/-- Shrinking this many times ends with a caret in the range and no stored origin. -/
def EndsAfter (e : Engine) (scene : Scene) (version : Nat) (r : Range) (k : Nat) : Prop :=
  ∃ e' q, e.performAll (List.replicate k .shrink) = .ok e' ∧
    e'.StandsAt scene version q (.caret q) ∧ r.Holds q ∧ e'.origin = none

/-- The run, for any bound on the steps that each of them lowers. -/
theorem StandsAt.exists_endsAfter (Within : Nat → Position → Range → Prop)
    (hwords : scene.WordsStayInside) (houtline : scene.OutlineFits)
    (hzero : ∀ p r, scene.text.Has r → Within 0 p r → r.IsEmpty)
    (hstep : ∀ k p r s, scene.text.Has r → r.Holds p → ¬ r.IsEmpty → Within (k + 1) p r →
      (scene.snapshot r p).shrink.target = some s → scene.text.Has s → ¬ s.IsEmpty →
      r.StrictlyContains s → Within k (if s.Holds p then p else s.start) s)
    (h : e.StandsAt scene version p r) (hne : ¬ r.IsEmpty) {n : Nat} (hn : Within n p r) :
    ∃ k ≤ n, e.EndsAfter scene version r k := by
  induction n generalizing e p r with
  | zero => exact absurd (hzero p r h.has hn) hne
  | succ n ih =>
    obtain ⟨d, e', hd, hrun, hafter⟩ := h.shrink hwords houtline hne
    have hperform : e.perform .shrink = .ok (d, e') := hrun
    rcases hafter with ⟨q, -, hstands, hq, horigin⟩ | ⟨s, htarget, hstands, hs, hless⟩
    · refine ⟨1, Nat.succ_le_succ (Nat.zero_le n), e', q, ?_, hstands, hq, horigin⟩
      rw [List.replicate_one, performAll_cons hperform]
      rfl
    · rw [← hd] at htarget
      obtain ⟨k, hk, e'', q, hrest, hend, hq, horigin⟩ := ih hstands hs
        (hstep n p r s h.has h.holds hne hn htarget hstands.has hs hless)
      refine ⟨k + 1, Nat.succ_le_succ hk, e'', q, ?_, hend, hless.1.holds hq, horigin⟩
      rw [List.replicate_succ, performAll_cons hperform, hrest]

/-- At most as many steps as characters are selected. -/
theorem StandsAt.endsAfter_selected (hwords : scene.WordsStayInside) (houtline : scene.OutlineFits)
    (h : e.StandsAt scene version p r) (hne : ¬ r.IsEmpty) :
    ∃ k ≤ scene.selected r, e.EndsAfter scene version r k := by
  apply exists_endsAfter (fun n _ r => scene.selected r ≤ n) hwords houtline _ _ h hne
    (Nat.le_refl _)
  · intro p r hr hzero
    exact Scene.isEmpty_of_selected_eq_zero hr (Nat.le_zero.1 hzero)
  · intro k p r s hr _ _ hle _ hs _ hless
    have := Scene.selected_lt hr hs hless
    omega

/-- At most four steps without an outline, from an origin in the text. -/
theorem StandsAt.endsAfter_four (ho : scene.outline = none) (hwords : scene.WordsStayInside)
    (hinside : scene.text.Inside p) (h : e.StandsAt scene version p r) (hne : ¬ r.IsEmpty) :
    ∃ k ≤ 4, e.EndsAfter scene version r k := by
  apply exists_endsAfter (fun n p r => scene.text.Inside p ∧ scene.WithinSteps p r n) hwords
    (by simp [Scene.OutlineFits, ho]) _ _ h hne (n := 4)
  · exact ⟨hinside, trivial⟩
  · intro p r _ hzero
    exact hzero.2
  · intro k p r s hr hp hne hwithin htarget _ hs _
    obtain ⟨hholds, hwithin'⟩ :=
      hwithin.2.of_target_shrink ho hwords hwithin.1 hr hp hne htarget hs
    rw [if_pos hholds]
    exact ⟨hwithin.1, hwithin'⟩

end Engine

/-! ## Engines -/

/-- What shrinking by a decision makes of an engine and its buffer, where `p` is the origin in
effect and `w` the word there. -/
structure Buffer.ShrinksTo (b : Buffer) (p : Position) (w : Range) (d : Decision) (e' : Engine)
    (b' : Buffer) : Prop where
  text_eq : b'.text = b.text
  version_eq : b'.version = b.version
  idle : b.selection.IsEmpty → d = .noOp ∧ b'.selection = b.selection
  less : ¬ b.selection.IsEmpty → b.selection.StrictlyContains b'.selection
  caret_iff : ¬ b.selection.IsEmpty → (b'.selection.IsEmpty ↔ d = .restoreCursor p)
  forgets : d = .restoreCursor p → e'.origin = none
  keeps_word : ¬ w.IsEmpty → b.selection.StrictlyContains w → b'.selection.Contains w
  leaves_word : ¬ b.selection.IsEmpty → w.Contains b.selection → d = .restoreCursor p

namespace Engine

variable {e : Engine} {b : Buffer}

/-- The outline in effect is the host's, which has the length of the text, or it was built for the
text. -/
theorem outlineFits_scene (hb : e.editor = some b) (hhost : ∀ o ∈ e.outline, o.validate = .ok ())
    (hcache : e.CacheAgrees) : (e.scene b).OutlineFits := by
  intro o ho
  have hfresh : e.freshOutline b = some o := by
    simp only [scene, outlineInEffect] at ho
    split at ho
    · rw [← hcache.currentOutline_fst hb]
      exact ho
    · cases ho
  unfold freshOutline at hfresh
  split at hfresh
  · rename_i host hhost'
    split at hfresh
    · rename_i hlength
      obtain rfl := Option.some.inj hfresh
      exact ⟨Outline.isSound_of_validate (hhost host hhost'), hlength⟩
    · cases hfresh
  · obtain ⟨source, -, hbuilt⟩ := Option.bind_eq_some_iff.1 hfresh
    refine ⟨(isBuilt_of_builtOutline? hbuilt).isSound, ?_⟩
    rw [Outline.build_eq_ok (builtOutline?_eq_some_iff.1 hbuilt)]
    exact b.text.length_chars

/-- One command shrinks the selection and keeps the text. -/
theorem exists_shrink (hb : e.editor = some b) (hwords : (e.scene b).WordsStayInside)
    (houtline : (e.scene b).OutlineFits) {p : Position}
    (hp : e.origin.inEffect b.selection b.anchor = p) :
    ∃ d e' b', e.shrink = .ok (d, e') ∧ e'.editor = some b' ∧
      b.ShrinksTo p ((e.scene b).wordAt p) d e' b' := by
  have h := standsAt hb
  rw [hp] at h
  by_cases hempty : b.selection.IsEmpty
  · have hnone : ((e.scene b).snapshot b.selection p).shrink.target = none := by
      rw [Snapshot.shrink_of_isEmpty hempty, Decision.target]
    obtain ⟨e', hrun, -, b', hb', hscene, hversion, hselection, -⟩ :=
      h.run_of_target_eq_none Snapshot.shrink hnone
    refine ⟨_, e', b', hrun, hb', ?_⟩
    constructor
    case text_eq => exact congrArg Scene.text hscene
    case version_eq => exact hversion
    case idle => exact fun _ => ⟨rfl, hselection⟩
    case forgets => exact fun hcursor => Decision.noConfusion hcursor
    case keeps_word => exact fun _ hstrict => absurd hempty hstrict.not_isEmpty
    case less | caret_iff | leaves_word => exact fun hne => absurd hempty hne
  have hshrinks := Scene.shrink_shrinks hwords houtline h.has h.holds hempty
  obtain ⟨d, e', hd, hrun, hafter⟩ := h.shrink hwords houtline hempty
  rw [hd] at hshrinks
  rcases hafter with ⟨q, rfl, ⟨b', hb', hscene, hversion, hselection, -⟩, hq, horigin⟩ |
    ⟨s, htarget, ⟨b', hb', hscene, hversion, hselection, -⟩, hs, hless⟩
  · refine ⟨_, e', b', hrun, hb', ?_⟩
    constructor
    case text_eq => exact congrArg Scene.text hscene
    case version_eq => exact hversion
    case idle => exact fun h => absurd h hempty
    case less => exact fun _ => hselection ▸ Range.strictlyContains_caret hempty hq
    case caret_iff => exact fun _ => iff_of_true (hselection ▸ Range.isEmpty_caret q) rfl
    case forgets => exact fun _ => horigin
    case leaves_word => exact fun _ _ => rfl
    case keeps_word =>
      -- The cursor is not restored while the word is strictly inside the selection.
      intro hword hstrict
      obtain ⟨s, htarget, hs, -⟩ := hshrinks.contains_wordAt hword hstrict
      exact absurd (Option.some.inj htarget ▸ Range.isEmpty_caret p) hs
  · have hnot : d ≠ .restoreCursor p := by
      rintro rfl
      exact hs (Option.some.inj htarget ▸ Range.isEmpty_caret p)
    refine ⟨_, e', b', hrun, hb', ?_⟩
    constructor
    case text_eq => exact congrArg Scene.text hscene
    case version_eq => exact hversion
    case idle => exact fun h => absurd h hempty
    case less => exact fun _ => hselection ▸ hless
    case caret_iff => exact fun _ => iff_of_false (hselection ▸ hs) hnot
    case forgets => exact fun h => absurd h hnot
    case leaves_word => exact fun _ hinside => hshrinks.eq_restoreCursor hinside
    case keeps_word =>
      intro hword hstrict
      obtain ⟨s', htarget', -, hcontains⟩ := hshrinks.contains_wordAt hword hstrict
      rw [hselection, Option.some.inj (htarget.symm.trans htarget')]
      exact hcontains

/-- Shrinking this many times ends with a caret in the selection and no stored origin, and the caret
stays. -/
def LetsGoAfter (e : Engine) (b : Buffer) (k : Nat) : Prop :=
  ∃ e' b' q, e.performAll (List.replicate k .shrink) = .ok e' ∧ e'.editor = some b' ∧
    b'.text = b.text ∧ b'.version = b.version ∧ b'.selection = .caret q ∧ b.selection.Holds q ∧
    e'.origin = none ∧ ∀ j, k ≤ j → e.selectionAfter (List.replicate j .shrink) = some (.caret q)

theorem EndsAfter.letsGoAfter {k : Nat} (h : e.EndsAfter (e.scene b) b.version b.selection k) :
    e.LetsGoAfter b k := by
  obtain ⟨e', q, hrun, hstands, hq, horigin⟩ := h
  have hstays : ∀ m, e'.selectionAfter (List.replicate m .shrink) = some (.caret q) := by
    intro m
    obtain ⟨_, hrest, -, hstands'⟩ := hstands.shrinkAll_caret m
    exact hstands'.selectionAfter hrest
  obtain ⟨b', hb', hscene, hversion, hselection, -⟩ := hstands
  refine ⟨e', b', q, hrun, hb', congrArg Scene.text hscene, hversion, hselection, hq, horigin, ?_⟩
  intro j hj
  obtain ⟨m, rfl⟩ := Nat.exists_eq_add_of_le hj
  rw [List.replicate_add, selectionAfter_append hrun, hstays]

/-- Whatever is selected and whichever origin is stored, shrinking leaves the text as it is and
selects less, keeps the word while it is strictly inside the selection, and restores the cursor from
inside the word.

Of a caret it makes nothing: however often it is asked for, the decision is for nothing, the caret
stays, and it is the origin that is stored then.

From any other selection a caret inside it is reached that stays, and then no origin is stored.
That takes at most as many steps as characters are selected; without an outline in effect, and if
the stored origin is a position of the text, it takes at most four. -/
theorem shrink_lets_go (hb : e.editor = some b) (hwords : (e.scene b).WordsStayInside)
    (hhost : ∀ o ∈ e.outline, o.validate = .ok ()) (hcache : e.CacheAgrees) :
    (∃ p d e' b', p = e.origin.inEffect b.selection b.anchor ∧ e.shrink = .ok (d, e') ∧
        e'.editor = some b' ∧ b.ShrinksTo p ((e.scene b).wordAt p) d e' b') ∧
      (b.selection.IsEmpty → ∀ k,
        e.selectionAfter (List.replicate k .shrink) = some b.selection ∧
          ∃ e₁ e₂, e.performAll (List.replicate k .shrink) = .ok e₁ ∧
            (e.origin.isSome → e₁.origin.isSome) ∧ e₁.shrink = .ok (.noOp, e₂) ∧
            e₂.origin = some b.anchor) ∧
      (¬ b.selection.IsEmpty →
        (∃ k ≤ b.selectedChars.length, e.LetsGoAfter b k) ∧
          ((e.scene b).outline = none → (∀ q ∈ e.origin, b.text.Inside q) →
            ∃ k ≤ 4, e.LetsGoAfter b k)) := by
  have houtline := outlineFits_scene hb hhost hcache
  have h := standsAt hb
  refine ⟨?_, ?_, ?_⟩
  · obtain ⟨d, e', b', hrun, hb', hshrinks⟩ := exists_shrink hb hwords houtline rfl
    exact ⟨_, d, e', b', rfl, hrun, hb', hshrinks⟩
  · intro hempty k
    have hcaret := hempty.eq_caret
    obtain ⟨e₁, hrun, hstays, hstands⟩ := (standsAt_caret hb hcaret).shrinkAll_caret k
    obtain ⟨e₂, hshrink, hstored, -⟩ := hstands.perform_shrink_caret
    rw [Buffer.anchor_eq_of_selection_eq_caret hcaret, hcaret]
    exact ⟨hstands.selectionAfter hrun, e₁, e₂, hrun, hstays, hshrink, hstored⟩
  · intro hne
    constructor
    · obtain ⟨k, hk, hends⟩ := h.endsAfter_selected hwords houtline hne
      refine ⟨k, ?_, hends.letsGoAfter⟩
      rw [Buffer.selectedChars, Text.length_slice b.has_selection]
      exact hk
    · intro ho horigin
      have hinside : b.text.Inside (e.origin.inEffect b.selection b.anchor) := by
        cases hstored : e.origin with
        | none => exact b.anchor_inside
        | some q =>
          rw [Origin.inEffect]
          split
          · exact horigin q hstored
          · exact b.anchor_inside
      obtain ⟨k, hk, hends⟩ := h.endsAfter_four ho hwords hinside hne
      exact ⟨k, hk, hends.letsGoAfter⟩

end Engine

/-- All is selected, the stored origin is past the end of its line, and the only block of the
outline leaves gaps around it. -/
def staleEngine : Engine where
  editor := some ((Buffer.ofText (.ofChars "ab cd\n\nef".toList)).setSelection ⟨2, 2⟩ ⟨0, 0⟩)
  origin := some ⟨0, 9⟩
  outline := some (.ofTree 9 ⟨⟨.document, 0, 9⟩, 0, 9⟩
    (.tree ⟨⟨.paragraph, 1, 5⟩, 1, 5⟩ .empty .empty))

theorem shrink_staleEngine :
    ∃ b, staleEngine.editor = some b ∧ b.selection = .spanning ⟨0, 0⟩ ⟨2, 2⟩ ∧
      (∃ p d e' b', p = ⟨0, 9⟩ ∧ staleEngine.shrink = .ok (d, e') ∧ e'.editor = some b' ∧
        b.ShrinksTo p ((staleEngine.scene b).wordAt p) d e' b') ∧
      ∃ k ≤ b.selectedChars.length, staleEngine.LetsGoAfter b k := by
  refine ⟨_, rfl, by decide, ?_⟩
  have hhost : ∀ o ∈ staleEngine.outline, o.validate = .ok () := by decide +kernel
  obtain ⟨hstep, -, hrun⟩ := Engine.shrink_lets_go (e := staleEngine) rfl
    (Engine.wordsStayInside_scene Matcher.staysInside_ascii _) hhost
    (Engine.cacheAgrees_of_cache_eq_none rfl)
  exact ⟨hstep, (hrun (by decide)).1⟩

/-- A caret, and an origin that is stored for it. -/
def caretEngine : Engine where
  editor := some (.ofText (.ofChars "ab".toList))
  origin := some ⟨0, 1⟩

theorem origin_ne_none_caretEngine :
    ∃ b, caretEngine.editor = some b ∧ (caretEngine.scene b).WordsStayInside ∧
      (∀ o ∈ caretEngine.outline, o.validate = .ok ()) ∧ caretEngine.CacheAgrees ∧
      ∀ k e', caretEngine.performAll (List.replicate k .shrink) = .ok e' → e'.origin ≠ none := by
  refine ⟨_, rfl, Engine.wordsStayInside_scene Matcher.staysInside_ascii _, by simp [caretEngine],
    Engine.cacheAgrees_of_cache_eq_none rfl, ?_⟩
  intro k e' hrun hnone
  have hcaret : (Buffer.ofText (.ofChars "ab".toList)).selection = .caret .zero := by decide
  have hstands := Engine.standsAt_caret (e := caretEngine) rfl hcaret
  obtain ⟨e₁, hrun', hstays, -⟩ := hstands.shrinkAll_caret k
  obtain rfl := Except.ok.inj (hrun.symm.trans hrun')
  have hstored := hstays rfl
  rw [hnone] at hstored
  exact absurd hstored (by simp)

end SelectionLadder
