import Mathlib.Logic.Function.Iterate
import SelectionLadder.Proofs.Engine.Outlines
import SelectionLadder.Proofs.Ladder.Structural
import SelectionLadder.Proofs.Ladder.Textual

/-!
# Expanding grows the selection

Wherever an engine stands, expanding selects more than is selected, until all is.

* `Scene.expand_grows` is the step: the decision is for a larger range of the text, or for the
  document.
* `Scene.iterate_grow_eq` is the run: each step takes at least one character more, so the document
  is reached in as many steps as there are characters outside the selection.
* `Scene.iterate_grow_four`: without an outline four steps are enough.  A range on one line grows
  through word, line and paragraph; a longer one grows to whole paragraphs, which are followed by
  the document.
* `Engine.expand_grows_to_document` says all of this of an engine.
-/

namespace SelectionLadder

namespace Scene

variable {scene : Scene} {o : Outline} {p : Position} {r s : Range}

/-! ## One step -/

/-- The decision grows the selection to a larger range of the text, or to the document. -/
def Grows (scene : Scene) (r : Range) (d : Decision) : Prop :=
  d = .selectDocument scene.text.documentRange ∨
    ∃ s, d.target = some s ∧ scene.text.Has s ∧ s.StrictlyContains r

theorem expandCaret_grows (hwords : scene.WordsStayInside) (hp : scene.text.Inside p) :
    scene.Grows (.caret p) (scene.snapshot (.caret p) p).expandCaret := by
  have hword := isWordAt_wordAt hwords p
  have hline : (scene.text.lineRange p).Holds p := Text.lineRange_holds hp
  have hpar : (scene.text.paragraphRange p).Holds p :=
    (Text.paragraphRange_contains_lineRange hp.1).holds hline
  rw [Snapshot.expandCaret, snapshot_word, snapshot_line, snapshot_paragraph, snapshot_document]
  by_cases hw : (scene.wordAt p).IsEmpty
  · rw [if_neg (not_not.2 hw)]
    by_cases hl : (scene.text.lineRange p).IsEmpty
    · rw [if_neg (not_not.2 hl)]
      by_cases hpe : (scene.text.paragraphRange p).IsEmpty
      · rw [if_neg (not_not.2 hpe)]
        exact Or.inl rfl
      · rw [if_pos hpe]
        exact Or.inr ⟨_, rfl, Text.has_paragraphRange hp.1,
          Range.strictlyContains_caret hpe hpar⟩
    · rw [if_pos hl]
      exact Or.inr ⟨_, rfl, Text.has_lineRange hp.1, Range.strictlyContains_caret hl hline⟩
  · rw [if_pos hw]
    exact Or.inr ⟨_, rfl, hword.has hw, Range.strictlyContains_caret hw hword.holds⟩

theorem expandWithinLine_grows (hwords : scene.WordsStayInside) (hr : scene.text.Has r)
    (hp : r.Holds p) (hline : r.IsSingleLine) :
    scene.Grows r (scene.snapshot r p).expandWithinLine := by
  have hle := hr.line_le hp
  have hcontains : (scene.text.paragraphRange p).Contains r :=
    (Text.paragraphRange_contains_lineRange hle).trans (Text.lineRange_contains hr hline hp)
  rw [Snapshot.expandWithinLine, snapshot_word, snapshot_line, snapshot_paragraph,
    snapshot_document, snapshot_selection]
  by_cases hw : (scene.wordAt p).StrictlyContains r
  · rw [if_pos hw]
    exact Or.inr ⟨_, rfl, (isWordAt_wordAt hwords p).has hw.not_isEmpty, hw⟩
  · rw [if_neg hw]
    by_cases hl : (scene.text.lineRange p).StrictlyContains r
    · rw [if_pos hl]
      exact Or.inr ⟨_, rfl, Text.has_lineRange hle, hl⟩
    · rw [if_neg hl]
      by_cases hpar : scene.text.paragraphRange p = r
      · rw [if_pos hpar]
        exact Or.inl rfl
      · rw [if_neg hpar]
        exact Or.inr ⟨_, rfl, Text.has_paragraphRange hle, hcontains, hpar⟩

theorem expandTextual_grows (hwords : scene.WordsStayInside) (hr : scene.text.Has r)
    (hp : r.Holds p) : scene.Grows r (scene.snapshot r p).expandTextual := by
  by_cases hline : r.IsSingleLine
  · rw [Snapshot.expandTextual, snapshot_selection]
    by_cases hempty : r.IsEmpty
    · obtain rfl : r = .caret p := hempty.eq_caret_of_holds hp
      rw [if_pos hempty]
      exact expandCaret_grows hwords hr.1
    · rw [if_neg hempty, if_pos hline]
      exact expandWithinLine_grows hwords hr hp hline
  · rw [expandTextual_of_not_isSingleLine hline]
    split
    · rename_i hover
      exact Or.inr ⟨_, rfl, Text.has_paragraphsOver hr, hover⟩
    · exact Or.inl rfl

theorem expandCaretAmong_grows (hwords : scene.WordsStayInside) (hsound : o.IsSound)
    (hp : scene.text.Inside p) {blocks : Option Range} :
    scene.Grows (.caret p) ((scene.snapshot (.caret p) p).expandCaretAmong
      ⟨o.chainAt scene.text (scene.text.offsetAt (scene.wordAt p).start), blocks⟩) := by
  have hword := isWordAt_wordAt hwords p
  rw [Snapshot.expandCaretAmong, snapshot_word, snapshot_document]
  by_cases hw : (scene.wordAt p).IsEmpty
  · rw [if_neg (not_not.2 hw), hword.eq_caret hw, Range.caret_start]
    cases hu : (o.chainAt scene.text (scene.text.offsetAt p)).find? fun u => ¬ u.IsEmpty with
    | none => exact Or.inl rfl
    | some u =>
      have hmem := List.mem_of_find?_eq_some hu
      have hne : ¬ u.IsEmpty := by simpa using List.find?_some hu
      exact Or.inr ⟨u, rfl, Outline.has_of_mem_chainAt hmem,
        Range.strictlyContains_caret hne (hsound.holds_of_mem_chainAt hp hmem)⟩
  · rw [if_pos hw]
    exact Or.inr ⟨_, rfl, hword.has hw, Range.strictlyContains_caret hw hword.holds⟩

theorem expandStructural_grows (hwords : scene.WordsStayInside) (hsound : o.IsSound)
    (hr : scene.text.Has r) (hp : r.Holds p) :
    scene.Grows r ((scene.snapshot r p).expandStructural
      ⟨o.chainAt scene.text (scene.text.offsetAt (scene.wordAt p).start),
        o.blocksOver? scene.text r⟩) := by
  have hword := isWordAt_wordAt hwords p
  rw [Snapshot.expandStructural, snapshot_selection, snapshot_word]
  by_cases hempty : r.IsEmpty
  · obtain rfl : r = .caret p := hempty.eq_caret_of_holds hp
    rw [if_pos hempty]
    exact expandCaretAmong_grows hwords hsound hr.1
  rw [if_neg hempty]
  by_cases hw : (scene.wordAt p).StrictlyContains r
  · rw [if_pos hw]
    exact Or.inr ⟨_, rfl, hword.has hw.not_isEmpty, hw⟩
  rw [if_neg hw]
  split
  · rename_i u hu
    have hlarger : u.StrictlyContains r := by simpa using List.find?_some hu
    exact Or.inr ⟨u, rfl, Outline.has_of_mem_chainAt (List.mem_of_find?_eq_some hu), hlarger⟩
  · rw [Snapshot.expandToBlocks, snapshot_selection, snapshot_document]
    split
    · rename_i u hu
      split
      · rename_i hlarger
        exact Or.inr ⟨u, rfl, Outline.has_of_blocksOver? hu, hlarger⟩
      · exact Or.inl rfl
    · exact Or.inl rfl

/-- Expanding decides for a larger range of the text, or for the document. -/
theorem expand_grows (hwords : scene.WordsStayInside)
    (hsound : ∀ o ∈ scene.outline, o.IsSound) (hr : scene.text.Has r) (hp : r.Holds p) :
    scene.Grows r (scene.snapshot r p).expand := by
  cases ho : scene.outline with
  | some o =>
    rw [Snapshot.expand, snapshot_surroundings_eq hwords ho]
    exact expandStructural_grows hwords (hsound o ho) hr hp
  | none =>
    rw [Snapshot.expand, snapshot_surroundings, ho, Option.map_none]
    exact expandTextual_grows hwords hr hp

/-! ## Many steps -/

/-- The range that expanding selects next. -/
def grow (scene : Scene) (p : Position) (r : Range) : Range :=
  (scene.snapshot r p).expand.target.getD r

theorem target_expand (hwords : scene.WordsStayInside) (hsound : ∀ o ∈ scene.outline, o.IsSound)
    (hr : scene.text.Has r) (hp : r.Holds p) :
    (scene.snapshot r p).expand.target = some (scene.grow p r) := by
  unfold grow
  rcases expand_grows hwords hsound hr hp with hdoc | ⟨s, hs, -, -⟩
  · rw [hdoc]
    rfl
  · rw [hs]
    rfl

theorem has_grow (hwords : scene.WordsStayInside) (hsound : ∀ o ∈ scene.outline, o.IsSound)
    (hr : scene.text.Has r) (hp : r.Holds p) : scene.text.Has (scene.grow p r) := by
  unfold grow
  rcases expand_grows hwords hsound hr hp with hdoc | ⟨s, hs, hhas, -⟩
  · rw [hdoc]
    exact scene.text.has_documentRange
  · rw [hs]
    exact hhas

/-- What is selected next is larger, unless everything is selected. -/
theorem grow_strictlyContains (hwords : scene.WordsStayInside)
    (hsound : ∀ o ∈ scene.outline, o.IsSound) (hr : scene.text.Has r) (hp : r.Holds p)
    (hne : r ≠ scene.text.documentRange) : (scene.grow p r).StrictlyContains r := by
  unfold grow
  rcases expand_grows hwords hsound hr hp with hdoc | ⟨s, hs, -, hlarger⟩
  · rw [hdoc]
    exact ⟨Text.documentRange_contains hr, hne.symm⟩
  · rw [hs]
    exact hlarger

/-- With everything selected the decision is for the document. -/
theorem expand_documentRange (hwords : scene.WordsStayInside)
    (hsound : ∀ o ∈ scene.outline, o.IsSound) (hp : scene.text.documentRange.Holds p) :
    (scene.snapshot scene.text.documentRange p).expand =
      .selectDocument scene.text.documentRange := by
  rcases expand_grows hwords hsound scene.text.has_documentRange hp with
    hdoc | ⟨s, -, hhas, hlarger⟩
  · exact hdoc
  · exact absurd hlarger (Text.documentRange_contains hhas).not_strictlyContains

theorem grow_documentRange (hwords : scene.WordsStayInside)
    (hsound : ∀ o ∈ scene.outline, o.IsSound) (hp : scene.text.documentRange.Holds p) :
    scene.grow p scene.text.documentRange = scene.text.documentRange := by
  rw [grow, expand_documentRange hwords hsound hp]
  rfl

theorem grow_contains (hwords : scene.WordsStayInside) (hsound : ∀ o ∈ scene.outline, o.IsSound)
    (hr : scene.text.Has r) (hp : r.Holds p) : (scene.grow p r).Contains r := by
  by_cases hdoc : r = scene.text.documentRange
  · subst hdoc
    rw [grow_documentRange hwords hsound hp]
    exact Range.contains_refl _
  · exact (grow_strictlyContains hwords hsound hr hp hdoc).1

/-- The number of characters outside a range. -/
def outside (scene : Scene) (r : Range) : Nat :=
  scene.text.offsetAt r.start + (scene.text.length - scene.text.offsetAt r.stop)

theorem outside_le_length (hr : scene.text.Has r) : scene.outside r ≤ scene.text.length := by
  have hle := (Text.offsetAt_le_offsetAt_iff hr.1 hr.2).2 r.start_le_stop
  have hstop := scene.text.offsetAt_le_length r.stop
  unfold outside
  omega

/-- Outside a larger range there are fewer characters. -/
theorem outside_lt (hr : scene.text.Has r) (hs : scene.text.Has s) (h : s.StrictlyContains r) :
    scene.outside s < scene.outside r := by
  obtain ⟨⟨hstart, hstop⟩, hne⟩ := h
  have hlength := scene.text.offsetAt_le_length s.stop
  have hstart' := (Text.offsetAt_le_offsetAt_iff hs.1 hr.1).2 hstart
  have hstop' := (Text.offsetAt_le_offsetAt_iff hr.2 hs.2).2 hstop
  have hends : s.start < r.start ∨ r.stop < s.stop := by
    by_contra hnot
    rw [not_or, not_lt, not_lt] at hnot
    exact hne (Range.ext (le_antisymm hstart hnot.1) (le_antisymm hnot.2 hstop))
  unfold outside
  rcases hends with hlt | hlt
  · have := Text.offsetAt_lt_offsetAt hs.1 hr.1 hlt
    omega
  · have := Text.offsetAt_lt_offsetAt hr.2 hs.2 hlt
    omega

/-- The document is reached in as many steps as there are characters outside the selection, and
stays selected. -/
theorem iterate_grow_eq (hwords : scene.WordsStayInside)
    (hsound : ∀ o ∈ scene.outline, o.IsSound) (hr : scene.text.Has r) (hp : r.Holds p) {k : Nat}
    (hk : scene.outside r ≤ k) : (scene.grow p)^[k] r = scene.text.documentRange := by
  induction k generalizing r with
  | zero =>
    by_contra hne
    have hlarger := grow_strictlyContains hwords hsound hr hp hne
    have := outside_lt hr (has_grow hwords hsound hr hp) hlarger
    omega
  | succ k ih =>
    by_cases hdoc : r = scene.text.documentRange
    · subst hdoc
      exact Function.iterate_fixed (grow_documentRange hwords hsound hp) _
    · have hlarger := grow_strictlyContains hwords hsound hr hp hdoc
      have hfewer := outside_lt hr (has_grow hwords hsound hr hp) hlarger
      rw [Function.iterate_succ_apply]
      exact ih (has_grow hwords hsound hr hp) (hlarger.1.holds hp) (by omega)

theorem iterate_grow_of_le (hwords : scene.WordsStayInside)
    (hsound : ∀ o ∈ scene.outline, o.IsSound) (hr : scene.text.Has r) (hp : r.Holds p)
    {m k : Nat} (hm : (scene.grow p)^[m] r = scene.text.documentRange) (hmk : m ≤ k) :
    (scene.grow p)^[k] r = scene.text.documentRange := by
  have hdoc := grow_documentRange hwords hsound ((Text.documentRange_contains hr).holds hp)
  obtain ⟨j, rfl⟩ := Nat.exists_eq_add_of_le' hmk
  rw [Function.iterate_add_apply, hm]
  exact Function.iterate_fixed hdoc j

/-! ## Four steps without an outline -/

theorem expand_of_outline_eq_none (ho : scene.outline = none) :
    (scene.snapshot r p).expand = (scene.snapshot r p).expandTextual := by
  rw [Snapshot.expand, snapshot_surroundings, ho, Option.map_none]

/-- From a range on one line the next larger unit is selected, if there is one. -/
theorem grow_of_isSingleLine (ho : scene.outline = none) (hwords : scene.WordsStayInside)
    (hr : scene.text.Has r) (hp : r.Holds p) (hline : r.IsSingleLine) :
    scene.grow p r =
      if (scene.wordAt p).StrictlyContains r then scene.wordAt p
      else if (scene.text.lineRange p).StrictlyContains r then scene.text.lineRange p
      else if (scene.text.paragraphRange p).StrictlyContains r then scene.text.paragraphRange p
      else scene.text.documentRange := by
  rw [grow, expand_of_outline_eq_none ho, expandTextual_of_isSingleLine hwords hr hp hline,
    next?_textUnits_getD hr]
  rfl

/-- From a range over several lines the paragraphs at its ends are selected, if that is more. -/
theorem grow_of_not_isSingleLine (ho : scene.outline = none) (hline : ¬ r.IsSingleLine) :
    scene.grow p r =
      if (scene.text.paragraphsOver r).StrictlyContains r then scene.text.paragraphsOver r
      else scene.text.documentRange := by
  rw [grow, expand_of_outline_eq_none ho, expandTextual_of_not_isSingleLine hline]
  split
  · rfl
  · rfl

/-- Whole paragraphs over several lines are followed by the document. -/
theorem grow_paragraphsOver (ho : scene.outline = none) (hr : scene.text.Has r)
    (hline : ¬ r.IsSingleLine) :
    scene.grow p (scene.text.paragraphsOver r) = scene.text.documentRange := by
  have hmore : ¬ (scene.text.paragraphsOver r).IsSingleLine := by
    intro hone
    exact hline ((Text.paragraphsOver_contains hr).isSingleLine hone)
  rw [grow_of_not_isSingleLine ho hmore, Text.paragraphsOver_paragraphsOver hr,
    if_neg (Range.not_strictlyContains_self _)]

/-- The paragraph is followed by the document. -/
theorem grow_paragraphRange (ho : scene.outline = none) (hwords : scene.WordsStayInside)
    (hp : scene.text.Inside p) :
    scene.grow p (scene.text.paragraphRange p) = scene.text.documentRange := by
  have hlp := Text.paragraphRange_contains_lineRange (t := scene.text) hp.1
  have hwl := (isWordAt_wordAt hwords p).lineRange_contains hp
  by_cases hline : (scene.text.paragraphRange p).IsSingleLine
  · rw [grow_of_isSingleLine ho hwords (Text.has_paragraphRange hp.1)
        (hlp.holds (Text.lineRange_holds hp)) hline,
      if_neg (hlp.trans hwl).not_strictlyContains, if_neg hlp.not_strictlyContains,
      if_neg (Range.not_strictlyContains_self _)]
  · rw [grow_of_not_isSingleLine ho hline, Text.paragraphsOver_paragraphRange hp.1,
      if_neg (Range.not_strictlyContains_self _)]

/-- The line is followed by the paragraph or by the document. -/
theorem grow_lineRange (ho : scene.outline = none) (hwords : scene.WordsStayInside)
    (hp : scene.text.Inside p) :
    scene.grow p (scene.text.lineRange p) = scene.text.paragraphRange p ∨
      scene.grow p (scene.text.lineRange p) = scene.text.documentRange := by
  have hwl := (isWordAt_wordAt hwords p).lineRange_contains hp
  rw [grow_of_isSingleLine ho hwords (Text.has_lineRange hp.1) (Text.lineRange_holds hp)
      (scene.text.isSingleLine_lineRange p),
    if_neg hwl.not_strictlyContains, if_neg (Range.not_strictlyContains_self _)]
  split
  · exact Or.inl rfl
  · exact Or.inr rfl

/-- The word is followed by the line, the paragraph or the document. -/
theorem grow_wordAt (ho : scene.outline = none) (hwords : scene.WordsStayInside)
    (hp : scene.text.Inside p) :
    scene.grow p (scene.wordAt p) = scene.text.lineRange p ∨
      scene.grow p (scene.wordAt p) = scene.text.paragraphRange p ∨
        scene.grow p (scene.wordAt p) = scene.text.documentRange := by
  have hword := isWordAt_wordAt hwords p
  rw [grow_of_isSingleLine ho hwords
      (Text.has_of_lineRange_contains hp.1 (hword.lineRange_contains hp)) hword.holds
      hword.isSingleLine,
    if_neg (Range.not_strictlyContains_self _)]
  split
  · exact Or.inl rfl
  · split
    · exact Or.inr (Or.inl rfl)
    · exact Or.inr (Or.inr rfl)

/-- Expanding selects the document in at most `k` steps. -/
def DocumentWithin (scene : Scene) (p : Position) (k : Nat) (r : Range) : Prop :=
  ∃ m ≤ k, (scene.grow p)^[m] r = scene.text.documentRange

theorem documentWithin_documentRange (scene : Scene) (p : Position) (k : Nat) :
    scene.DocumentWithin p k scene.text.documentRange :=
  ⟨0, Nat.zero_le k, rfl⟩

theorem DocumentWithin.mono {j k : Nat} (h : scene.DocumentWithin p j r) (hjk : j ≤ k) :
    scene.DocumentWithin p k r := by
  obtain ⟨m, hm, hdoc⟩ := h
  exact ⟨m, Nat.le_trans hm hjk, hdoc⟩

/-- One step more from where a step comes from. -/
theorem DocumentWithin.of_grow {k : Nat} (h : scene.DocumentWithin p k (scene.grow p r)) :
    scene.DocumentWithin p (k + 1) r := by
  obtain ⟨m, hm, hdoc⟩ := h
  refine ⟨m + 1, Nat.succ_le_succ hm, ?_⟩
  rw [Function.iterate_succ_apply, hdoc]

theorem documentWithin_paragraphRange (ho : scene.outline = none)
    (hwords : scene.WordsStayInside) (hp : scene.text.Inside p) :
    scene.DocumentWithin p 1 (scene.text.paragraphRange p) := by
  apply DocumentWithin.of_grow
  rw [grow_paragraphRange ho hwords hp]
  exact documentWithin_documentRange scene p 0

theorem documentWithin_lineRange (ho : scene.outline = none) (hwords : scene.WordsStayInside)
    (hp : scene.text.Inside p) : scene.DocumentWithin p 2 (scene.text.lineRange p) := by
  apply DocumentWithin.of_grow
  rcases grow_lineRange ho hwords hp with h | h
  · rw [h]
    exact documentWithin_paragraphRange ho hwords hp
  · rw [h]
    exact documentWithin_documentRange scene p 1

theorem documentWithin_wordAt (ho : scene.outline = none) (hwords : scene.WordsStayInside)
    (hp : scene.text.Inside p) : scene.DocumentWithin p 3 (scene.wordAt p) := by
  apply DocumentWithin.of_grow
  rcases grow_wordAt ho hwords hp with h | h | h
  · rw [h]
    exact documentWithin_lineRange ho hwords hp
  · rw [h]
    exact (documentWithin_paragraphRange ho hwords hp).mono (by omega)
  · rw [h]
    exact documentWithin_documentRange scene p 2

/-- From a range on one line the document is reached through the word, the line and the
paragraph, or through fewer of them; from a range over several lines, through the paragraphs
over it. -/
theorem documentWithin_four (ho : scene.outline = none) (hwords : scene.WordsStayInside)
    (hr : scene.text.Has r) (hp : r.Holds p) : scene.DocumentWithin p 4 r := by
  apply DocumentWithin.of_grow
  by_cases hline : r.IsSingleLine
  · have hinside : scene.text.Inside p := hr.inside_of_holds hline hp
    rw [grow_of_isSingleLine ho hwords hr hp hline]
    split
    · exact documentWithin_wordAt ho hwords hinside
    · split
      · exact (documentWithin_lineRange ho hwords hinside).mono (by omega)
      · split
        · exact (documentWithin_paragraphRange ho hwords hinside).mono (by omega)
        · exact documentWithin_documentRange scene p 3
  · rw [grow_of_not_isSingleLine ho hline]
    split
    · apply DocumentWithin.of_grow
      rw [grow_paragraphsOver ho hr hline]
      exact documentWithin_documentRange scene p 2
    · exact documentWithin_documentRange scene p 3

/-- Without an outline the document is selected after four steps, and stays selected. -/
theorem iterate_grow_four (ho : scene.outline = none) (hwords : scene.WordsStayInside)
    (hr : scene.text.Has r) (hp : r.Holds p) {k : Nat} (hk : 4 ≤ k) :
    (scene.grow p)^[k] r = scene.text.documentRange := by
  have hsound : ∀ o ∈ scene.outline, o.IsSound := by simp [ho]
  obtain ⟨m, hm, hdoc⟩ := documentWithin_four ho hwords hr hp
  exact iterate_grow_of_le hwords hsound hr hp hdoc (Nat.le_trans hm hk)

end Scene

/-! ## Engines -/

/-- What expanding by a decision makes of a buffer. -/
structure Buffer.GrowsTo (b : Buffer) (d : Decision) (b' : Buffer) : Prop where
  text_eq : b'.text = b.text
  version_eq : b'.version = b.version
  contains : b'.selection.Contains b.selection
  larger : b.selection ≠ b.text.documentRange → b'.selection.StrictlyContains b.selection
  stays : b.selection = b.text.documentRange →
    d = .selectDocument b.text.documentRange ∧ b'.selection = b.selection

namespace Engine

variable {e : Engine} {scene : Scene} {version : Nat} {p : Position} {r : Range}

/-- One command selects what the scene has next. -/
theorem StandsAt.expand (h : e.StandsAt scene version p r) (hwords : scene.WordsStayInside)
    (hsound : ∀ o ∈ scene.outline, o.IsSound) :
    ∃ e', e.expand = .ok ((scene.snapshot r p).expand, e') ∧
      e'.StandsAt scene version p (scene.grow p r) :=
  h.run Snapshot.expand (Scene.target_expand hwords hsound h.has h.holds)
    (Scene.has_grow hwords hsound h.has h.holds)
    ((Scene.grow_contains hwords hsound h.has h.holds).holds h.holds)

/-- Many commands iterate this. -/
theorem StandsAt.expandAll (h : e.StandsAt scene version p r) (hwords : scene.WordsStayInside)
    (hsound : ∀ o ∈ scene.outline, o.IsSound) (k : Nat) :
    e.selectionAfter (List.replicate k .expand) = some ((scene.grow p)^[k] r) := by
  suffices hall : ∃ e', e.performAll (List.replicate k .expand) = .ok e' ∧
      e'.StandsAt scene version p ((scene.grow p)^[k] r) by
    obtain ⟨e', hrun, hstands⟩ := hall
    exact hstands.selectionAfter hrun
  induction k generalizing e r with
  | zero => exact ⟨e, rfl, h⟩
  | succ k ih =>
    obtain ⟨e', hexpand, hstands⟩ := h.expand hwords hsound
    obtain ⟨e'', hrun, hend⟩ := ih hstands
    have hperform : e.perform .expand = .ok ((scene.snapshot r p).expand, e') := hexpand
    refine ⟨e'', ?_, hend⟩
    rw [List.replicate_succ, performAll_cons hperform, hrun]

/-- One command grows the selection and keeps the text. -/
theorem exists_expand {b : Buffer} (hb : e.editor = some b)
    (hwords : (e.scene b).WordsStayInside) (hsound : ∀ o ∈ (e.scene b).outline, o.IsSound) :
    ∃ d e' b', e.expand = .ok (d, e') ∧ e'.editor = some b' ∧ b.GrowsTo d b' := by
  have h := standsAt hb
  obtain ⟨e', hexpand, b', hb', hscene, hversion, hselection, -⟩ := h.expand hwords hsound
  refine ⟨_, e', b', hexpand, hb', ?_⟩
  constructor
  · exact congrArg Scene.text hscene
  · exact hversion
  · rw [hselection]
    exact Scene.grow_contains hwords hsound h.has h.holds
  · intro hne
    rw [hselection]
    exact Scene.grow_strictlyContains hwords hsound h.has h.holds hne
  · intro hall
    have hholds := h.holds
    rw [hselection]
    rw [hall] at hholds ⊢
    exact ⟨Scene.expand_documentRange hwords hsound hholds,
      Scene.grow_documentRange hwords hsound hholds⟩

/-- Whatever is selected and whichever origin is stored, expanding leaves the text as it is and
selects more, unless the document is selected: then the decision is for the document and the
selection stays.  So the document is reached, in as many steps as the text has characters, and
stays selected; without an outline in effect four steps are enough. -/
theorem expand_grows_to_document {b : Buffer} (hb : e.editor = some b)
    (hwords : (e.scene b).WordsStayInside) (hhost : ∀ o ∈ e.outline, o.validate = .ok ())
    (hcache : e.CachesBuilt) :
    (∃ d e' b', e.expand = .ok (d, e') ∧ e'.editor = some b' ∧ b.GrowsTo d b') ∧
      (∀ k, b.text.length ≤ k →
        e.selectionAfter (List.replicate k .expand) = some b.text.documentRange) ∧
      ((e.scene b).outline = none → ∀ k, 4 ≤ k →
        e.selectionAfter (List.replicate k .expand) = some b.text.documentRange) := by
  have hsound : ∀ o ∈ (e.scene b).outline, o.IsSound := by
    intro o ho
    exact isSound_of_outlineInEffect hhost hcache ho
  have h := standsAt hb
  refine ⟨exists_expand hb hwords hsound, ?_, ?_⟩
  · intro k hk
    have houtside := Scene.outside_le_length h.has
    rw [h.expandAll hwords hsound,
      Scene.iterate_grow_eq hwords hsound h.has h.holds (Nat.le_trans houtside hk)]
    rfl
  · intro ho k hk
    rw [h.expandAll hwords hsound, Scene.iterate_grow_four ho hwords h.has h.holds hk]
    rfl

end Engine

/-- An engine with an origin outside the text, a selection that was made backwards, and an outline
whose only block leaves gaps around it. -/
def gapEngine : Engine where
  editor := some ((Buffer.ofText (.ofChars "ab cd\n\nef".toList)).setSelection ⟨0, 5⟩ ⟨0, 4⟩)
  origin := some ⟨9, 9⟩
  outline := some (.ofTree 9 ⟨⟨.document, 0, 9⟩, 0, 9⟩
    (.tree ⟨⟨.paragraph, 1, 5⟩, 1, 5⟩ .empty .empty))

theorem expand_gapEngine :
    ∃ b, gapEngine.editor = some b ∧ b.selection = .spanning ⟨0, 4⟩ ⟨0, 5⟩ ∧
      (∃ d e' b', gapEngine.expand = .ok (d, e') ∧ e'.editor = some b' ∧ b.GrowsTo d b') ∧
      ∀ k, 9 ≤ k → gapEngine.selectionAfter (List.replicate k .expand) =
        some (.spanning ⟨0, 0⟩ ⟨2, 2⟩) := by
  refine ⟨_, rfl, by decide, ?_⟩
  have hhost : ∀ o ∈ gapEngine.outline, o.validate = .ok () := by decide +kernel
  -- Calls of a host lead to this engine, and so to all that is asked of it.
  have hnew : Engine.ofSettings {} = .ok .new := rfl
  have hreached : Engine.Reached gapEngine :=
    (((Engine.Reached.ofSettings hnew).setEditor _).setOrigin _).setOutline hhost
  have hgrows := Engine.expand_grows_to_document (e := gapEngine) rfl
    (Engine.wordsStayInside_scene hreached.staysInside _) hreached.validate_outline
    hreached.cachesBuilt
  exact ⟨hgrows.1, hgrows.2.1⟩

end SelectionLadder
