import SelectionLadder.Proofs.Ladder.Rungs

/-!
# The ladder of the units of a text

Without an outline the commands climb on word, line, paragraph and document.  Any of the four can
be equal to its neighbour: a line may be one word, a paragraph one line, a word or a line may be
a caret.  The ladder has each range once.

* `Scene.climbs_textUnits`: the two commands go from rung to rung.
* `Engine.climbsOn_textUnits`: whatever commands follow, the selection stays on the ladder.
-/

namespace SelectionLadder

namespace Scene

variable {scene : Scene} {p : Position} {r s : Range}

/-- The units of the text at a position, from small to large. -/
def textUnits (scene : Scene) (p : Position) : List Range :=
  [scene.wordAt p, scene.text.lineRange p, scene.text.paragraphRange p, scene.text.documentRange]

theorem mem_textUnits :
    s ∈ scene.textUnits p ↔
      s = scene.wordAt p ∨ s = scene.text.lineRange p ∨ s = scene.text.paragraphRange p ∨
        s = scene.text.documentRange := by
  simp only [textUnits, List.mem_cons, List.not_mem_nil, or_false]

/-! ## How the units lie -/

theorem documentRange_contains_paragraphRange (hp : scene.text.Inside p) :
    scene.text.documentRange.Contains (scene.text.paragraphRange p) :=
  Text.documentRange_contains (Text.has_paragraphRange hp.1)

theorem nested_textUnits (hwords : scene.WordsStayInside) (hp : scene.text.Inside p) :
    Nested p (scene.textUnits p) := by
  have hword := isWordAt_wordAt hwords p
  have hwl : (scene.text.lineRange p).Contains (scene.wordAt p) := hword.lineRange_contains hp
  have hlp : (scene.text.paragraphRange p).Contains (scene.text.lineRange p) :=
    Text.paragraphRange_contains_lineRange hp.1
  have hpd : scene.text.documentRange.Contains (scene.text.paragraphRange p) :=
    documentRange_contains_paragraphRange hp
  have hline : (scene.text.lineRange p).Holds p := Text.lineRange_holds hp
  constructor
  · simp only [textUnits, List.forall_mem_cons]
    exact ⟨hword.holds, hline, hlp.holds hline, hpd.holds (hlp.holds hline), by simp⟩
  · simp only [textUnits, List.pairwise_cons, List.forall_mem_cons]
    have hwp := hlp.trans hwl
    have hld := hpd.trans hlp
    have hwd := hpd.trans hwp
    simp [hwl, hwp, hwd, hlp, hld, hpd]

theorem has_of_mem_textUnits (hwords : scene.WordsStayInside) (hp : scene.text.Inside p)
    (hr : r ∈ scene.textUnits p) : scene.text.Has r := by
  rcases mem_textUnits.1 hr with rfl | rfl | rfl | rfl
  · exact Text.has_of_lineRange_contains hp.1 ((isWordAt_wordAt hwords p).lineRange_contains hp)
  · exact Text.has_lineRange hp.1
  · exact Text.has_paragraphRange hp.1
  · exact scene.text.has_documentRange

theorem has_of_mem_ladder_textUnits (hwords : scene.WordsStayInside) (hp : scene.text.Inside p)
    (hr : r ∈ ladder p (scene.textUnits p)) : scene.text.Has r := by
  rcases List.mem_cons.1 hr with rfl | hr
  · exact Text.has_caret hp
  · exact has_of_mem_textUnits hwords hp (mem_of_mem_rungsAbove hr)

/-- The next unit after a range of the text, spelled out.  The document is next or selected. -/
theorem next?_textUnits_getD (hr : scene.text.Has r) :
    (next? (scene.textUnits p) r).getD r =
      if (scene.wordAt p).StrictlyContains r then scene.wordAt p
      else if (scene.text.lineRange p).StrictlyContains r then scene.text.lineRange p
      else if (scene.text.paragraphRange p).StrictlyContains r then scene.text.paragraphRange p
      else scene.text.documentRange := by
  have hsplit : scene.textUnits p =
      [scene.wordAt p, scene.text.lineRange p, scene.text.paragraphRange p] ++
        [scene.text.documentRange] := rfl
  rw [hsplit, next?_append_getD (Text.documentRange_contains hr)]
  by_cases hw : (scene.wordAt p).StrictlyContains r
  · simp [next?, hw]
  · by_cases hl : (scene.text.lineRange p).StrictlyContains r
    · simp [next?, hw, hl]
    · by_cases hpar : (scene.text.paragraphRange p).StrictlyContains r
      · simp [next?, hw, hl, hpar]
      · simp [next?, hw, hl, hpar]

/-! ## Expanding -/

/-- From a range of the text on one line, be it a caret or more, expanding selects the next
unit. -/
theorem expandTextual_of_isSingleLine (hwords : scene.WordsStayInside)
    (hr : scene.text.Has r) (hholds : r.Holds p) (hline : r.IsSingleLine) :
    (scene.snapshot r p).expandTextual.target =
      some ((next? (scene.textUnits p) r).getD r) := by
  rw [next?_textUnits_getD hr, Snapshot.expandTextual]
  by_cases hempty : r.IsEmpty
  · obtain rfl : r = .caret p := hempty.eq_caret_of_holds hholds
    have hp : scene.text.Inside p := hr.1
    have hunits := (nested_textUnits hwords hp).holds
    simp only [textUnits, List.forall_mem_cons] at hunits
    obtain ⟨hw, hl, hpar, -⟩ := hunits
    rw [snapshot_selection, if_pos hempty, Snapshot.expandCaret]
    simp only [snapshot_word, snapshot_line, snapshot_paragraph, snapshot_document,
      Range.strictlyContains_caret_iff hw, Range.strictlyContains_caret_iff hl,
      Range.strictlyContains_caret_iff hpar, apply_ite Decision.target, apply_ite some]
    rfl
  · rw [snapshot_selection, if_neg hempty, if_pos hline, Snapshot.expandWithinLine]
    have hcontains : (scene.text.paragraphRange p).Contains r :=
      (Text.paragraphRange_contains_lineRange (hr.line_le hholds)).trans
        (Text.lineRange_contains hr hline hholds)
    have hiff : (scene.text.paragraphRange p).StrictlyContains r ↔
        ¬ scene.text.paragraphRange p = r := and_iff_right hcontains
    simp only [snapshot_selection, snapshot_word, snapshot_line, snapshot_paragraph,
      snapshot_document, hiff, ite_not, apply_ite Decision.target, apply_ite some]
    rfl

/-- From a range over several lines expanding selects all of the paragraphs at its ends, or else
the document. -/
theorem expandTextual_of_not_isSingleLine (hline : ¬ r.IsSingleLine) :
    (scene.snapshot r p).expandTextual =
      if (scene.text.paragraphsOver r).StrictlyContains r then
        .selectUnion (scene.text.paragraphsOver r)
      else .selectDocument scene.text.documentRange := by
  have hempty : ¬ r.IsEmpty := by
    intro hempty
    exact hline (congrArg Position.line hempty)
  rw [Snapshot.expandTextual, snapshot_selection, if_neg hempty, if_neg hline,
    Snapshot.expandLines, snapshot_selection, snapshot_paragraphUnion, snapshot_document]

/-- A rung over several lines is the paragraph or the document. -/
theorem eq_of_mem_ladder_textUnits (hwords : scene.WordsStayInside)
    (hr : r ∈ ladder p (scene.textUnits p)) (hline : ¬ r.IsSingleLine) :
    r = scene.text.paragraphRange p ∨ r = scene.text.documentRange := by
  rcases List.mem_cons.1 hr with rfl | hr
  · exact absurd rfl hline
  · rcases mem_textUnits.1 (mem_of_mem_rungsAbove hr) with rfl | rfl | hmem
    · exact absurd (isWordAt_wordAt hwords p).isSingleLine hline
    · exact absurd (scene.text.isSingleLine_lineRange p) hline
    · exact hmem

/-- The paragraph and the document are the paragraphs over their ends, so that a rung over
several lines is followed by the document. -/
theorem expandTextual_of_mem_ladder (hwords : scene.WordsStayInside) (hp : scene.text.Inside p)
    (hr : r ∈ ladder p (scene.textUnits p)) :
    (scene.snapshot r p).expandTextual.target =
      some ((next? (scene.textUnits p) r).getD r) := by
  have hhas := has_of_mem_ladder_textUnits hwords hp hr
  have hholds := holds_of_mem_ladder hr
  by_cases hline : r.IsSingleLine
  · exact expandTextual_of_isSingleLine hwords hhas hholds hline
  have hmem := eq_of_mem_ladder_textUnits hwords hr hline
  have hpar : r.Contains (scene.text.paragraphRange p) := by
    rcases hmem with rfl | rfl
    · exact Range.contains_refl _
    · exact documentRange_contains_paragraphRange hp
  have hlpar := Text.paragraphRange_contains_lineRange (t := scene.text) hp.1
  have hwl := (isWordAt_wordAt hwords p).lineRange_contains hp
  have hover : ¬ (scene.text.paragraphsOver r).StrictlyContains r := by
    rcases hmem with rfl | rfl
    · rw [Text.paragraphsOver_paragraphRange hp.1]
      exact Range.not_strictlyContains_self _
    · exact (Text.documentRange_contains (Text.has_paragraphsOver hhas)).not_strictlyContains
  rw [expandTextual_of_not_isSingleLine hline, if_neg hover, next?_textUnits_getD hhas,
    if_neg ((hpar.trans hlpar).trans hwl).not_strictlyContains,
    if_neg (hpar.trans hlpar).not_strictlyContains, if_neg hpar.not_strictlyContains]
  rfl

/-! ## Shrinking -/

/-- The part of a unit that lies in the unit above a rung is the rung, if every other unit is
inside the former or around the latter. -/
theorem clip_eq_of_next? {units : List Range} {u : Range} (hnested : Nested p units)
    (hr : r ∈ ladder p units) (hs : next? units r = some s) (hu : u ∈ units)
    (hnot : ¬ u.Contains s) (hunits : ∀ v ∈ units, u.Contains v ∨ v.Contains s) :
    (scene.snapshot s p).clip u = r := by
  have hsunit : s ∈ units := List.mem_of_find?_eq_some hs
  have hsu : s.StrictlyContains u := by
    refine ⟨(hnested.contains_or hu hsunit).resolve_right hnot, ?_⟩
    intro h
    exact hnot (h ▸ s.contains_refl)
  have hru : r = u := by
    apply hnested.eq_of_next? hr hs hu hsu
    intro v hv hsv
    exact (hunits v hv).resolve_right fun hvs => hvs.not_strictlyContains hsv
  rw [Snapshot.clip_eq hsu.1 (hnested.holds u hu), hru]

/-- From the unit above a rung, when that is on one line: to the word, which is the largest unit
inside the line, or from the word to the cursor. -/
theorem shrinkWithinLine_of_next? (hwords : scene.WordsStayInside) (hp : scene.text.Inside p)
    (hr : r ∈ ladder p (scene.textUnits p)) (hs : next? (scene.textUnits p) r = some s)
    (hline : s.IsSingleLine) : (scene.snapshot s p).shrinkWithinLine.target = some r := by
  have hnested := nested_textUnits hwords hp
  have hunit : s ∈ scene.textUnits p := List.mem_of_find?_eq_some hs
  have hls : (scene.text.lineRange p).Contains s :=
    Text.lineRange_contains (has_of_mem_textUnits hwords hp hunit) hline (hnested.holds s hunit)
  have habove : ∀ v ∈ scene.textUnits p,
      v = scene.wordAt p ∨ v.Contains (scene.text.lineRange p) := by
    have hlp := Text.paragraphRange_contains_lineRange (t := scene.text) hp.1
    intro v hv
    rcases mem_textUnits.1 hv with rfl | rfl | rfl | rfl
    · exact Or.inl rfl
    · exact Or.inr (Range.contains_refl _)
    · exact Or.inr hlp
    · exact Or.inr ((documentRange_contains_paragraphRange hp).trans hlp)
  rw [Snapshot.shrinkWithinLine, snapshot_selection, snapshot_word, snapshot_line]
  by_cases hws : (scene.wordAt p).Contains s
  · have hnone : ∀ v ∈ scene.textUnits p, ¬ s.StrictlyContains v := by
      intro v hv
      rcases habove v hv with rfl | hvl
      · exact hws.not_strictlyContains
      · exact (hvl.trans hls).not_strictlyContains
    rw [if_pos hws, eq_caret_of_next? hr hs hnone]
    rfl
  · have hclip : (scene.snapshot s p).clip (scene.wordAt p) = r := by
      apply clip_eq_of_next? hnested hr hs (mem_textUnits.2 (Or.inl rfl)) hws
      intro v hv
      rcases habove v hv with rfl | hvl
      · exact Or.inl (Range.contains_refl _)
      · exact Or.inr (hvl.trans hls)
    rw [if_neg hws, if_pos hls, Decision.target, hclip]

/-- From the unit above a rung, when that is on several lines: from the paragraph to the line, and
from the document to the paragraph. -/
theorem shrinkLines_of_next? (hwords : scene.WordsStayInside) (hp : scene.text.Inside p)
    (hr : r ∈ ladder p (scene.textUnits p)) (hs : next? (scene.textUnits p) r = some s)
    (hline : ¬ s.IsSingleLine) : (scene.snapshot s p).shrinkLines.target = some r := by
  have hnested := nested_textUnits hwords hp
  have hunit : s ∈ scene.textUnits p := List.mem_of_find?_eq_some hs
  have hds : scene.text.documentRange.Contains s :=
    Text.documentRange_contains (has_of_mem_textUnits hwords hp hunit)
  have hwl := (isWordAt_wordAt hwords p).lineRange_contains hp
  have hlp := Text.paragraphRange_contains_lineRange (t := scene.text) hp.1
  rw [Snapshot.shrinkLines, snapshot_selection, snapshot_paragraph, snapshot_line]
  by_cases hps : (scene.text.paragraphRange p).Contains s
  · have hls : ¬ (scene.text.lineRange p).Contains s := by
      intro hls
      exact hline (hls.isSingleLine (scene.text.isSingleLine_lineRange p))
    have hclip : (scene.snapshot s p).clip (scene.text.lineRange p) = r := by
      apply clip_eq_of_next? hnested hr hs (mem_textUnits.2 (Or.inr (Or.inl rfl))) hls
      intro v hv
      rcases mem_textUnits.1 hv with rfl | rfl | rfl | rfl
      · exact Or.inl hwl
      · exact Or.inl (Range.contains_refl _)
      · exact Or.inr hps
      · exact Or.inr hds
    rw [if_pos hps, Decision.target, hclip]
  · have hclip : (scene.snapshot s p).clip (scene.text.paragraphRange p) = r := by
      apply clip_eq_of_next? hnested hr hs (mem_textUnits.2 (Or.inr (Or.inr (Or.inl rfl)))) hps
      intro v hv
      rcases mem_textUnits.1 hv with rfl | rfl | rfl | rfl
      · exact Or.inl (hlp.trans hwl)
      · exact Or.inl hlp
      · exact Or.inl (Range.contains_refl _)
      · exact Or.inr hds
    rw [if_neg hps, Decision.target, hclip]

/-- From the unit above a rung shrinking selects the rung. -/
theorem shrinkTextual_of_next? (hwords : scene.WordsStayInside) (hp : scene.text.Inside p)
    (hr : r ∈ ladder p (scene.textUnits p)) (hs : next? (scene.textUnits p) r = some s) :
    (scene.snapshot s p).shrinkTextual.target = some r := by
  have hsr : s.StrictlyContains r := by simpa using List.find?_some hs
  rw [Snapshot.shrinkTextual, snapshot_selection, if_neg hsr.not_isEmpty]
  by_cases hline : s.IsSingleLine
  · rw [if_pos hline]
    exact shrinkWithinLine_of_next? hwords hp hr hs hline
  · rw [if_neg hline]
    exact shrinkLines_of_next? hwords hp hr hs hline

/-! ## The ladder -/

/-- Without an outline the commands climb on the units of the text. -/
theorem climbs_textUnits (hwords : scene.WordsStayInside) (hp : scene.text.Inside p)
    (houtline : scene.outline = none) : scene.Climbs p (scene.textUnits p) := by
  have hsurroundings : ∀ r, (scene.snapshot r p).surroundings = none := by
    intro r
    simp only [snapshot, houtline, Option.map_none]
  constructor
  · intro r hr
    exact has_of_mem_ladder_textUnits hwords hp hr
  · intro r hr
    rw [Snapshot.expand, hsurroundings]
    exact expandTextual_of_mem_ladder hwords hp hr
  · intro r hr s hs
    apply Snapshot.shrink_target
    · rw [Snapshot.shrinkTarget, hsurroundings]
      exact shrinkTextual_of_next? hwords hp hr hs
    · exact holds_of_mem_ladder hr

/-- The document is the topmost rung. -/
theorem getLast?_ladder_textUnits (hwords : scene.WordsStayInside) (hp : scene.text.Inside p) :
    (ladder p (scene.textUnits p)).getLast? = some scene.text.documentRange := by
  have htop : ∀ u ∈ scene.textUnits p, scene.text.documentRange.Contains u := by
    intro u hu
    exact Text.documentRange_contains (has_of_mem_textUnits hwords hp hu)
  have hsplit : scene.textUnits p =
      [scene.wordAt p, scene.text.lineRange p, scene.text.paragraphRange p] ++
        [scene.text.documentRange] := rfl
  rw [hsplit] at htop ⊢
  exact getLast?_rungsAbove (fun u hu => htop u (List.mem_append_left _ hu))
    (Text.documentRange_contains (Text.has_caret hp))

end Scene

/-- From a caret, whatever commands follow, the selection stays on the ladder of word, line,
paragraph and document at the caret: one rung up for every `expand` and one down for every
`shrink`.  The document is the topmost rung, and shrinking retraces expanding. -/
theorem Engine.climbsOn_textUnits {e : Engine} {b : Buffer} {p : Position}
    (hb : e.editor = some b) (hcaret : b.selection = .caret p)
    (hwords : (e.scene b).WordsStayInside) (houtline : (e.scene b).outline = none) :
    let rungs := ladder p ((e.scene b).textUnits p)
    e.ClimbsOn b rungs ∧ rungs.getLast? = some b.text.documentRange ∧
      ∀ k j, e.selectionAfter (List.replicate k .expand ++ List.replicate j .shrink) =
        e.selectionAfter (List.replicate (min k (rungs.length - 1) - j) .expand) := by
  intro rungs
  have hp : b.text.Inside p := Buffer.inside_of_selection_eq_caret hcaret
  have hclimbs : e.ClimbsOn b rungs :=
    (Scene.climbs_textUnits hwords hp houtline).climbsOn hb hcaret
  exact ⟨hclimbs, Scene.getLast?_ladder_textUnits hwords hp, hclimbs.selectionAfter_retrace⟩

/-- Two paragraphs, the first one of two lines, with the caret in the first word. -/
def twoParagraphs : Buffer :=
  (Buffer.ofText (.ofChars "one two\nthree\n\nfour".toList)).setCursor ⟨0, 1⟩

theorem climbsOn_twoParagraphs :
    ({ editor := some twoParagraphs } : Engine).ClimbsOn twoParagraphs
      [.caret ⟨0, 1⟩, .spanning ⟨0, 0⟩ ⟨0, 3⟩, .spanning ⟨0, 0⟩ ⟨0, 7⟩, .spanning ⟨0, 0⟩ ⟨1, 5⟩,
        .spanning ⟨0, 0⟩ ⟨3, 4⟩] := by
  have hladder :
      ladder ⟨0, 1⟩ ((({ editor := some twoParagraphs } : Engine).scene
        twoParagraphs).textUnits ⟨0, 1⟩) =
      [.caret ⟨0, 1⟩, .spanning ⟨0, 0⟩ ⟨0, 3⟩, .spanning ⟨0, 0⟩ ⟨0, 7⟩,
        .spanning ⟨0, 0⟩ ⟨1, 5⟩, .spanning ⟨0, 0⟩ ⟨3, 4⟩] := by
    decide
  have hcaret : twoParagraphs.selection = .caret ⟨0, 1⟩ := by decide
  have hclimbs := Engine.climbsOn_textUnits (e := { editor := some twoParagraphs }) rfl hcaret
    (Engine.wordsStayInside_scene Matcher.staysInside_ascii _) rfl
  rw [hladder] at hclimbs
  exact hclimbs.1

end SelectionLadder
