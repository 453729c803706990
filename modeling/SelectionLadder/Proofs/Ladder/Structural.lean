import Mathlib.Data.List.Find
import SelectionLadder.Proofs.Ladder.Rungs
import SelectionLadder.Proofs.Outline.Chain

/-!
# The ladder of the nodes of an outline

With an outline the commands climb from the word on the nodes around it.  Expanding looks for the
deepest node that is larger than the selection, shrinking for the topmost one that is smaller, and
passes over nodes that cut through the word.  On the way they meet the same ranges, because the
nodes around an offset lie inside each other.

* `NodesAround` is what is used of the nodes and the blocks, and `Outline.nodesAround` proves it of
  an outline built from spans, if the word lies inside its block.
* `Scene.climbs_nodeUnits`: the two commands go from rung to rung.  Among the rungs are only nodes
  that contain the word; `ladder_filter` shows that the others are never taken.
* `Engine.climbsOn_nodeUnits`: whatever commands follow, the selection stays on the ladder.
-/

namespace SelectionLadder

/-! ## The nodes around a word -/

/-- How the nodes at the start of a word lie, given from the deepest upwards, and which blocks lie
over a range. -/
structure NodesAround (t : Text) (w : Range) (chain : List Range)
    (blocks : Range → Option Range) : Prop where
  has : ∀ u ∈ chain, t.Has u
  pairwise : chain.Pairwise fun u v => v.Contains u
  holds : ∀ u ∈ chain, u.Holds w.start
  lt_stop : ¬ w.IsEmpty → ∀ u ∈ chain, w.start < u.stop
  top_contains : ∀ u ∈ chain.getLast?, u.Contains w
  has_blocks : ∀ r, ∀ u ∈ blocks r, t.Has u
  blocks_top : ∀ u ∈ chain.getLast?, ¬ u.IsEmpty → blocks u = some u
  blocks_nil : chain = [] → ∀ r, blocks r = none

/-- The word lies inside its block, which is the child of the root that holds its first character.
A caret does. -/
def Outline.FitsWord (o : Outline) (t : Text) (w : Range) : Prop :=
  w.IsEmpty ∨ ∀ r ∈ o.blockAt? t (t.offsetAt w.start), r.Contains w

theorem Outline.has_of_blocksOver? {o : Outline} {t : Text} {r u : Range}
    (hu : o.blocksOver? t r = some u) : t.Has u := by
  have hblock : ∀ x, ∀ v ∈ o.blockAt? t x, t.Has v := by
    intro x v hv
    obtain ⟨id, -, hid⟩ := Option.bind_eq_some_iff.1 hv
    obtain ⟨n, -, rfl⟩ := Option.map_eq_some_iff.1 hid
    exact t.has_rangeAt _ _
  simp only [blocksOver?, Option.bind_eq_bind, Option.bind_eq_some_iff] at hu
  obtain ⟨first, hfirst, last, hlast, hunion⟩ := hu
  obtain rfl : first.union last = u := Option.some.inj hunion
  exact (hblock _ first hfirst).union (hblock _ last hlast)

/-- The nodes of an outline that is built from spans. -/
theorem Outline.nodesAround {o : Outline} {t : Text} {w : Range} (hbuilt : o.IsBuilt)
    (hlength : o.length = t.length) (hw : t.Has w) (hfits : o.FitsWord t w) :
    NodesAround t w (o.chainAt t (t.offsetAt w.start)) (o.blocksOver? t) := by
  obtain ⟨root, below, h⟩ := hbuilt.isTiledTree
  constructor
  case has => exact fun u hu => has_of_mem_chainAt hu
  case pairwise => exact h.pairwise_chainAt
  case holds => exact fun u hu => h.isSound.holds_of_mem_chainAt hw.1 hu
  case lt_stop =>
    intro hne u hu
    have hlt := Text.offsetAt_lt_offsetAt hw.1 hw.2 (Range.start_lt_stop hne)
    have hle := t.offsetAt_le_length w.stop
    exact h.isSound.lt_stop_of_mem_chainAt hlength hw.1 (by omega) hu
  case top_contains =>
    intro u hu
    rcases hfits with hempty | hfits
    · rw [hempty.eq_caret]
      exact h.isSound.holds_of_mem_chainAt hw.1 (List.mem_of_getLast? hu)
    · apply hfits u
      rw [← h.getLast?_chainAt]
      exact hu
  case has_blocks => exact fun r u hu => has_of_blocksOver? hu
  case blocks_top => exact fun u hu hne => h.blocksOver?_of_getLast? hlength hu hne
  case blocks_nil =>
    intro hnil r
    apply h.blocksOver?_of_chainAt_eq_nil hnil
    rw [hlength]
    exact t.offsetAt_le_length w.start

/-! ## Units that do not contain the word -/

/-- What does not contain a range inside `r` is not larger than `r`, so leaving it out does not
change which units are taken. -/
theorem rungsAbove_filter {w r : Range} (h : r.Contains w) (units : List Range) :
    rungsAbove r (units.filter fun u => u.Contains w) = rungsAbove r units := by
  induction units generalizing r with
  | nil => rfl
  | cons u units ih =>
    by_cases hu : u.Contains w
    · simp only [List.filter_cons, hu, decide_true, if_true, rungsAbove, ih h, ih hu]
    · have hnot : ¬ u.StrictlyContains r := fun hur => hu (hur.1.trans h)
      simp only [List.filter_cons, hu, decide_false, rungsAbove, hnot, if_false]
      exact ih h

theorem ladder_filter {p : Position} {w : Range} (hw : w.Holds p) (units : List Range) :
    ladder p (w :: units.filter fun u => u.Contains w) = ladder p (w :: units) := by
  unfold ladder
  rw [rungsAbove, rungsAbove]
  by_cases h : w.StrictlyContains (.caret p)
  · rw [if_pos h, if_pos h, rungsAbove_filter w.contains_refl]
  · have hcaret : w = .caret p :=
      Range.Contains.eq_of_not_strictlyContains (Range.contains_caret.2 hw) h
    rw [if_neg h, if_neg h, hcaret, rungsAbove_filter (Range.contains_refl _)]

/-! ## The units of an outline -/

namespace Scene

variable {scene : Scene} {o : Outline} {p : Position} {r s : Range}

/-- The units of an outline at a position, from small to large.  The nodes are looked up at the
start of the word, which is the position itself where there is no word. -/
def nodeUnits (scene : Scene) (o : Outline) (p : Position) : List Range :=
  scene.wordAt p ::
    (o.chainAt scene.text (scene.text.offsetAt (scene.wordAt p).start) ++
      [scene.text.documentRange])

theorem snapshot_surroundings_eq (hwords : scene.WordsStayInside) (ho : scene.outline = some o)
    (p : Position) (r : Range) :
    (scene.snapshot r p).surroundings =
      some ⟨o.chainAt scene.text (scene.text.offsetAt (scene.wordAt p).start),
        o.blocksOver? scene.text r⟩ := by
  have hplace : (if (scene.wordAt p).IsEmpty then p else (scene.wordAt p).start) =
      (scene.wordAt p).start := by
    split
    · rename_i hempty
      rw [(isWordAt_wordAt hwords p).eq_caret hempty, Range.caret_start]
    · rfl
  rw [snapshot_surroundings, ho, Option.map_some, surroundings, hplace]
  rfl

end Scene

/-! ## Climbing on the nodes -/

/-- The units among the nodes: the word, the nodes that contain it, and the document. -/
def unitsAround (t : Text) (w : Range) (chain : List Range) : List Range :=
  (w :: chain.filter fun u => u.Contains w) ++ [t.documentRange]

section

variable {scene : Scene} {p : Position} {w : Range} {chain : List Range}
  {blocks : Range → Option Range} {r s u : Range} {t : Text}

theorem mem_unitsAround :
    u ∈ unitsAround t w chain ↔
      u = w ∨ (u ∈ chain ∧ u.Contains w) ∨ u = t.documentRange := by
  simp [unitsAround]

theorem has_of_mem_unitsAround (h : NodesAround t w chain blocks) (hw : t.Has w)
    (hu : u ∈ unitsAround t w chain) : t.Has u := by
  rcases mem_unitsAround.1 hu with rfl | ⟨hu, -⟩ | rfl
  · exact hw
  · exact h.has u hu
  · exact t.has_documentRange

theorem contains_of_mem_unitsAround (hw : t.Has w) (hu : u ∈ unitsAround t w chain) :
    u.Contains w := by
  rcases mem_unitsAround.1 hu with rfl | ⟨-, hu⟩ | rfl
  · exact u.contains_refl
  · exact hu
  · exact Text.documentRange_contains hw

theorem nested_unitsAround (h : NodesAround t w chain blocks) (hw : t.Has w) (hp : w.Holds p) :
    Nested p (unitsAround t w chain) := by
  constructor
  · intro u hu
    exact (contains_of_mem_unitsAround hw hu).holds hp
  · have hfilter : (chain.filter fun u => u.Contains w).Pairwise fun u v => v.Contains u :=
      h.pairwise.sublist List.filter_sublist
    rw [unitsAround, List.pairwise_append, List.pairwise_cons]
    refine ⟨⟨?_, hfilter⟩, List.pairwise_singleton _ _, ?_⟩
    · intro u hu
      simpa using (List.mem_filter.1 hu).2
    · intro u hu v hv
      rw [List.mem_singleton.1 hv]
      apply Text.documentRange_contains
      apply has_of_mem_unitsAround h hw
      exact List.mem_append_left _ hu

/-- A rung is the caret or contains the word. -/
theorem contains_of_mem_ladder_unitsAround (hw : t.Has w)
    (hr : r ∈ ladder p (unitsAround t w chain)) (hne : ¬ r.IsEmpty) : r.Contains w := by
  rcases List.mem_cons.1 hr with rfl | hr
  · exact absurd (Range.isEmpty_caret p) hne
  · exact contains_of_mem_unitsAround hw (mem_of_mem_rungsAbove hr)

/-! ### Expanding -/

/-- The next unit after a rung, before the document: the word, or the deepest node that is larger.
That the node contains the word need not be asked. -/
theorem next?_cons_filter (hw : t.Has w) (hp : w.Holds p)
    (hr : r ∈ ladder p (unitsAround t w chain)) :
    next? (w :: chain.filter fun u => u.Contains w) r =
      if w.StrictlyContains r then some w else chain.find? fun u => u.StrictlyContains r := by
  unfold next?
  rw [List.find?_cons]
  by_cases hwr : w.StrictlyContains r
  · simp [hwr]
  · have hcontains : r.Contains w := by
      by_cases hempty : r.IsEmpty
      · obtain rfl : r = .caret p := hempty.eq_caret_of_holds (holds_of_mem_ladder hr)
        rw [Range.Contains.eq_of_not_strictlyContains (Range.contains_caret.2 hp) hwr]
        exact Range.contains_refl _
      · exact contains_of_mem_ladder_unitsAround hw hr hempty
    simp only [hwr, decide_false, if_false, List.find?_filter]
    apply List.find?_congr
    intro u _
    by_cases hur : u.StrictlyContains r
    · simp [hur, hur.1.trans hcontains]
    · simp [hur]

/-- A rung that the topmost node does not exceed is that node or the document. -/
theorem eq_top_or_document (h : NodesAround t w chain blocks) {top : Range}
    (htop : chain.getLast? = some top) (hr : r ∈ unitsAround t w chain)
    (hnot : ¬ top.StrictlyContains r) : r = top ∨ r = t.documentRange := by
  rcases mem_unitsAround.1 hr with rfl | ⟨hrchain, -⟩ | hdoc
  · exact Or.inl ((h.top_contains top htop).eq_of_not_strictlyContains hnot).symm
  · left
    obtain ⟨deeper, rfl⟩ := List.getLast?_eq_some_iff.1 htop
    rcases List.mem_append.1 hrchain with hdeeper | heq
    · have hcontains := (List.pairwise_append.1 h.pairwise).2.2 r hdeeper top
        (List.mem_singleton_self top)
      exact (hcontains.eq_of_not_strictlyContains hnot).symm
    · exact List.mem_singleton.1 heq
  · exact Or.inr hdoc

/-- Above the topmost node comes the document: the blocks over the topmost node are that node. -/
theorem expandToBlocks_eq (h : NodesAround scene.text (scene.wordAt p) chain blocks)
    (hr : r ∈ ladder p (unitsAround scene.text (scene.wordAt p) chain)) (hne : ¬ r.IsEmpty)
    (hnone : chain.find? (fun u => u.StrictlyContains r) = none) :
    (scene.snapshot r p).expandToBlocks ⟨chain, blocks r⟩ =
      .selectDocument scene.text.documentRange := by
  have hblocks : ∀ b ∈ blocks r, ¬ b.StrictlyContains r := by
    intro b hb
    cases htop : chain.getLast? with
    | none => exact absurd hb (by simp [h.blocks_nil (List.getLast?_eq_none_iff.1 htop) r])
    | some top =>
      have hnot : ¬ top.StrictlyContains r := by
        simpa using List.find?_eq_none.1 hnone top (List.mem_of_getLast? htop)
      have hunit : r ∈ unitsAround scene.text (scene.wordAt p) chain := by
        rcases List.mem_cons.1 hr with rfl | hr
        · exact absurd (Range.isEmpty_caret p) hne
        · exact mem_of_mem_rungsAbove hr
      rcases eq_top_or_document h htop hunit hnot with rfl | rfl
      · rw [h.blocks_top r htop hne] at hb
        obtain rfl := Option.some.inj hb
        exact r.not_strictlyContains_self
      · exact (Text.documentRange_contains (h.has_blocks _ b hb)).not_strictlyContains
  unfold Snapshot.expandToBlocks
  cases hb : blocks r with
  | none => rfl
  | some b =>
    simp only [Scene.snapshot_selection, Scene.snapshot_document]
    rw [if_neg (hblocks b hb)]

/-- From the caret expanding selects the word, or else the deepest node that is more than a
caret. -/
theorem expandCaretAmong_eq (h : NodesAround scene.text (scene.wordAt p) chain blocks)
    (hp : (scene.wordAt p).Holds p) :
    ((scene.snapshot (.caret p) p).expandCaretAmong ⟨chain, blocks (.caret p)⟩).target =
      some ((if (scene.wordAt p).StrictlyContains (.caret p) then some (scene.wordAt p)
        else chain.find? fun u => u.StrictlyContains (.caret p)).getD
          scene.text.documentRange) := by
  rw [Snapshot.expandCaretAmong, Scene.snapshot_word, Scene.snapshot_document]
  by_cases hword : (scene.wordAt p).IsEmpty
  · have hcaret : scene.wordAt p = .caret p := hword.eq_caret_of_holds hp
    have hfind : chain.find? (fun u => u.StrictlyContains (.caret p)) =
        chain.find? fun u => ¬ u.IsEmpty := by
      apply List.find?_congr
      intro u hu
      have hholds : u.Holds p := by
        have := h.holds u hu
        rwa [hcaret, Range.caret_start] at this
      simp only [Range.strictlyContains_caret_iff hholds]
    rw [if_neg (not_not.2 hword), hcaret, if_neg (Range.not_strictlyContains_self _), hfind]
    cases chain.find? fun u => ¬ u.IsEmpty with
    | some u => rfl
    | none => rfl
  · rw [if_pos hword, if_pos (Range.strictlyContains_caret hword hp)]
    rfl

/-- From a rung expanding selects the next unit. -/
theorem expandStructural_of_mem_ladder
    (h : NodesAround scene.text (scene.wordAt p) chain blocks)
    (hw : scene.text.Has (scene.wordAt p)) (hp : (scene.wordAt p).Holds p)
    (hr : r ∈ ladder p (unitsAround scene.text (scene.wordAt p) chain))
    (hhas : scene.text.Has r) :
    ((scene.snapshot r p).expandStructural ⟨chain, blocks r⟩).target =
      some ((next? (unitsAround scene.text (scene.wordAt p) chain) r).getD r) := by
  rw [unitsAround, next?_append_getD (Text.documentRange_contains hhas),
    next?_cons_filter hw hp hr, Snapshot.expandStructural, Scene.snapshot_selection,
    Scene.snapshot_word]
  by_cases hempty : r.IsEmpty
  · obtain rfl : r = .caret p := hempty.eq_caret_of_holds (holds_of_mem_ladder hr)
    rw [if_pos hempty]
    exact expandCaretAmong_eq h hp
  · rw [if_neg hempty]
    by_cases hwr : (scene.wordAt p).StrictlyContains r
    · rw [if_pos hwr, if_pos hwr]
      rfl
    · rw [if_neg hwr, if_neg hwr]
      cases hfind : chain.find? fun u => u.StrictlyContains r with
      | some u => rfl
      | none =>
        simp only [expandToBlocks_eq h hr hempty hfind]
        rfl

/-! ### Shrinking -/

/-- Of a node around the selection no less than the selection is selected. -/
theorem innerPart?_of_contains (hne : ¬ s.IsEmpty) (hus : u.Contains s) :
    (scene.snapshot s p).innerPart? u = none := by
  rw [Snapshot.innerPart?, Scene.snapshot_selection, Range.intersection_eq_right hne hus]
  simp [Range.not_strictlyContains_self]

/-- A node inside the selection is its own selected part, unless it is a caret. -/
theorem innerPart?_of_strictlyContains (hne : ¬ u.IsEmpty) (hsu : s.StrictlyContains u) :
    (scene.snapshot s p).innerPart? u = some u := by
  rw [Snapshot.innerPart?, Scene.snapshot_selection, Range.intersection_eq_left hne hsu.1]
  simp [hsu]

theorem innerPart?_of_isEmpty (hempty : u.IsEmpty) :
    (scene.snapshot s p).innerPart? u = none := by
  rw [Snapshot.innerPart?, Range.intersection_eq_none_of_isEmpty hempty]
  rfl

/-- A node that is not passed over contains the word or lies in it. -/
theorem contains_or_of_not_crosses (h : NodesAround t w chain blocks) (hu : u ∈ chain)
    (hcrosses : ¬ u.Crosses w) : u.Contains w ∨ w.Contains u :=
  Range.contains_or_of_not_crosses (h.holds u hu) (fun hne => h.lt_stop hne u hu) hcrosses

/-- A node around the word is among those that shrinking looks at. -/
theorem mem_filter_not_crosses (hu : u ∈ chain) (huw : u.Contains w) :
    u ∈ chain.reverse.filter fun u => ¬ u.Crosses w := by
  have hcrosses : ¬ u.Crosses w := fun hcrosses => hcrosses.2.1 huw
  simp [List.mem_filter, hu, hcrosses]

/-- A node that is strictly inside the selection is passed only if it is a caret. -/
theorem isEmpty_of_innerPart?_eq_none (hsu : s.StrictlyContains u)
    (hnone : (scene.snapshot s p).innerPart? u = none) : u.IsEmpty := by
  by_contra hne
  rw [innerPart?_of_strictlyContains hne hsu] at hnone
  exact absurd hnone (by simp)

/-- A unit of which less than the selection is selected is strictly inside the selection. -/
theorem strictlyContains_of_innerPart? {part : Range}
    (hunits : Nested p (unitsAround scene.text (scene.wordAt p) chain))
    (hs : s ∈ unitsAround scene.text (scene.wordAt p) chain) (hne : ¬ s.IsEmpty)
    (hu : u ∈ unitsAround scene.text (scene.wordAt p) chain)
    (hpart : (scene.snapshot s p).innerPart? u = some part) : s.StrictlyContains u := by
  have hnot : ¬ u.Contains s := by
    intro hus
    rw [innerPart?_of_contains hne hus] at hpart
    exact absurd hpart (by simp)
  refine ⟨(hunits.contains_or hu hs).resolve_right hnot, ?_⟩
  intro heq
  exact hnot (heq ▸ s.contains_refl)

/-- If shrinking finds nothing among the nodes, those around the word and strictly inside the
selection are carets. -/
theorem isEmpty_of_innerNode?_eq_none
    (hnone : (scene.snapshot s p).innerNode? ⟨chain, blocks s⟩ = none) (hu : u ∈ chain)
    (huw : u.Contains (scene.wordAt p)) (hsu : s.StrictlyContains u) : u.IsEmpty := by
  have hmem := mem_filter_not_crosses hu huw
  exact isEmpty_of_innerPart?_eq_none hsu (List.findSome?_eq_none_iff.1 hnone u hmem)

/-- What shrinking finds among the nodes is part of one that contains all those around the word
and strictly inside the selection, apart from carets. -/
theorem exists_of_innerNode?_eq_some (h : NodesAround scene.text (scene.wordAt p) chain blocks)
    {part : Range} (hfound : (scene.snapshot s p).innerNode? ⟨chain, blocks s⟩ = some part) :
    ∃ v ∈ chain, ¬ v.Crosses (scene.wordAt p) ∧
      (scene.snapshot s p).innerPart? v = some part ∧
      ∀ u ∈ chain, u.Contains (scene.wordAt p) → s.StrictlyContains u →
        u.IsEmpty ∨ v.Contains u := by
  obtain ⟨larger, v, smaller, hsplit, hpart, hlarger⟩ := List.findSome?_eq_some_iff.1 hfound
  rw [Scene.snapshot_word] at hsplit
  have hv : v ∈ larger ++ v :: smaller := List.mem_append_right _ List.mem_cons_self
  rw [← hsplit, List.mem_filter, List.mem_reverse] at hv
  have hpairwise : (larger ++ v :: smaller).Pairwise fun u v => u.Contains v := by
    rw [← hsplit]
    apply List.Pairwise.sublist List.filter_sublist
    rw [List.pairwise_reverse]
    exact h.pairwise
  refine ⟨v, hv.1, by simpa using hv.2, hpart, ?_⟩
  intro u hu huw hsu
  have hmem := mem_filter_not_crosses hu huw
  rw [hsplit, List.mem_append, List.mem_cons] at hmem
  rcases hmem with hu | rfl | hu
  · exact Or.inl (isEmpty_of_innerPart?_eq_none hsu (hlarger u hu))
  · exact Or.inr u.contains_refl
  · exact Or.inr ((List.pairwise_cons.1 (List.pairwise_append.1 hpairwise).2.1).1 u hu)

/-- What shrinking finds among the nodes.  Either some node around the word is strictly inside the
selection, and the largest such node is found; or no such node is more than a caret, and what is
found lies in the word. -/
theorem innerNode?_cases (h : NodesAround scene.text (scene.wordAt p) chain blocks)
    (hunits : Nested p (unitsAround scene.text (scene.wordAt p) chain))
    (hs : s ∈ unitsAround scene.text (scene.wordAt p) chain)
    (hsw : s.StrictlyContains (scene.wordAt p)) :
    (∃ v ∈ chain, v.Contains (scene.wordAt p) ∧ s.StrictlyContains v ∧
        (scene.snapshot s p).innerNode? ⟨chain, blocks s⟩ = some v ∧
        ∀ u ∈ chain, u.Contains (scene.wordAt p) → s.StrictlyContains u →
          u.IsEmpty ∨ v.Contains u) ∨
      ((∀ u ∈ chain, u.Contains (scene.wordAt p) → s.StrictlyContains u → u.IsEmpty) ∧
        ∀ part ∈ (scene.snapshot s p).innerNode? ⟨chain, blocks s⟩,
          (scene.wordAt p).Contains part ∧ ¬ part.IsEmpty) := by
  cases hfound : (scene.snapshot s p).innerNode? ⟨chain, blocks s⟩ with
  | none =>
    right
    refine ⟨?_, by simp⟩
    intro u hu huw hsu
    exact isEmpty_of_innerNode?_eq_none hfound hu huw hsu
  | some part =>
    obtain ⟨v, hv, hcrosses, hpart, hlargest⟩ := exists_of_innerNode?_eq_some h hfound
    have hvne : ¬ v.IsEmpty := by
      intro hempty
      rw [innerPart?_of_isEmpty hempty] at hpart
      exact absurd hpart (by simp)
    by_cases hvw : v.Contains (scene.wordAt p)
    · left
      have hvunit : v ∈ unitsAround scene.text (scene.wordAt p) chain :=
        mem_unitsAround.2 (Or.inr (Or.inl ⟨hv, hvw⟩))
      have hsv := strictlyContains_of_innerPart? hunits hs hsw.not_isEmpty hvunit hpart
      rw [innerPart?_of_strictlyContains hvne hsv] at hpart
      exact ⟨v, hv, hvw, hsv, hpart.symm, hlargest⟩
    · right
      have hwv : (scene.wordAt p).Contains v :=
        (contains_or_of_not_crosses h hv hcrosses).resolve_left hvw
      rw [innerPart?_of_strictlyContains hvne (hsw.trans_contains hwv)] at hpart
      obtain rfl := Option.some.inj hpart
      refine ⟨?_, ?_⟩
      · intro u hu huw hsu
        exact (hlargest u hu huw hsu).resolve_right fun hvu => hvw (hvu.trans huw)
      · intro part hpart
        obtain rfl := Option.some.inj hpart
        exact ⟨hwv, hvne⟩

/-- Of the word inside the selection all is selected, unless it is a caret. -/
theorem innerPart?_wordAt (hsw : s.StrictlyContains (scene.wordAt p)) :
    (scene.snapshot s p).innerPart? (scene.wordAt p) =
      if (scene.wordAt p).IsEmpty then none else some (scene.wordAt p) := by
  by_cases hempty : (scene.wordAt p).IsEmpty
  · rw [if_pos hempty, innerPart?_of_isEmpty hempty]
  · rw [if_neg hempty, innerPart?_of_strictlyContains hempty hsw]

/-- Shrinking selects a node that it finds around the word. -/
theorem shrinkStructural_of_contains (hsw : s.StrictlyContains (scene.wordAt p))
    (hnode : (scene.snapshot s p).innerNode? ⟨chain, blocks s⟩ = some u)
    (huw : u.Contains (scene.wordAt p)) :
    ((scene.snapshot s p).shrinkStructural ⟨chain, blocks s⟩).target = some u := by
  have hnot : ¬ (scene.wordAt p).Contains s := fun hws => hws.not_strictlyContains hsw
  rw [Snapshot.shrinkStructural, Scene.snapshot_selection, Scene.snapshot_word,
    if_neg hsw.not_isEmpty, if_neg hnot, hnode, innerPart?_wordAt hsw]
  by_cases hempty : (scene.wordAt p).IsEmpty
  · rw [if_pos hempty]
    rfl
  · simp only [if_neg hempty, if_neg huw.not_strictlyContains, Decision.target]

/-- Shrinking selects the word if it finds nothing but parts of it, or else restores the
cursor. -/
theorem shrinkStructural_of_forall_contains (hsw : s.StrictlyContains (scene.wordAt p))
    (hp : (scene.wordAt p).Holds p)
    (hnode : ∀ part ∈ (scene.snapshot s p).innerNode? ⟨chain, blocks s⟩,
      (scene.wordAt p).Contains part ∧ ¬ part.IsEmpty) :
    ((scene.snapshot s p).shrinkStructural ⟨chain, blocks s⟩).target =
      some (scene.wordAt p) := by
  have hnot : ¬ (scene.wordAt p).Contains s := fun hws => hws.not_strictlyContains hsw
  rw [Snapshot.shrinkStructural, Scene.snapshot_selection, Scene.snapshot_word,
    Scene.snapshot_origin, if_neg hsw.not_isEmpty, if_neg hnot, innerPart?_wordAt hsw]
  cases hfound : (scene.snapshot s p).innerNode? ⟨chain, blocks s⟩ with
  | none =>
    by_cases hempty : (scene.wordAt p).IsEmpty
    · simp only [if_pos hempty, Decision.target, ← hempty.eq_caret_of_holds hp]
    · simp only [if_neg hempty, Decision.target]
  | some part =>
    obtain ⟨hwpart, hne⟩ := hnode part hfound
    have hempty : ¬ (scene.wordAt p).IsEmpty := fun hempty => hne (hempty.of_contains hwpart)
    rw [if_neg hempty]
    by_cases hlarger : (scene.wordAt p).StrictlyContains part
    · simp only [if_pos hlarger, Decision.target]
    · have hword : scene.wordAt p = part := hwpart.eq_of_not_strictlyContains hlarger
      simp only [if_neg hlarger, Decision.target]
      rw [hword]

/-- From the unit above a rung shrinking selects the rung. -/
theorem shrinkStructural_of_next? (h : NodesAround scene.text (scene.wordAt p) chain blocks)
    (hw : scene.text.Has (scene.wordAt p)) (hp : (scene.wordAt p).Holds p)
    (hr : r ∈ ladder p (unitsAround scene.text (scene.wordAt p) chain))
    (hs : next? (unitsAround scene.text (scene.wordAt p) chain) r = some s) :
    ((scene.snapshot s p).shrinkStructural ⟨chain, blocks s⟩).target = some r := by
  have hnested := nested_unitsAround h hw hp
  have hsr : s.StrictlyContains r := by simpa using List.find?_some hs
  have hunit : s ∈ unitsAround scene.text (scene.wordAt p) chain := List.mem_of_find?_eq_some hs
  have hds : scene.text.documentRange.Contains s :=
    Text.documentRange_contains (has_of_mem_unitsAround h hw hunit)
  by_cases hws : (scene.wordAt p).Contains s
  · have hnone : ∀ v ∈ unitsAround scene.text (scene.wordAt p) chain,
        ¬ s.StrictlyContains v := by
      intro v hv
      exact ((contains_of_mem_unitsAround hw hv).trans hws).not_strictlyContains
    rw [Snapshot.shrinkStructural, Scene.snapshot_selection, Scene.snapshot_word,
      Scene.snapshot_origin, if_neg hsr.not_isEmpty, if_pos hws, eq_caret_of_next? hr hs hnone]
    rfl
  have hsw : s.StrictlyContains (scene.wordAt p) := by
    refine ⟨contains_of_mem_unitsAround hw hunit, ?_⟩
    intro heq
    exact hws (heq ▸ s.contains_refl)
  rcases innerNode?_cases h hnested hunit hsw with
    ⟨v, hv, hvw, hsv, hnode, hlargest⟩ | ⟨hempties, hnode⟩
  · have hrv : r = v := by
      apply hnested.eq_of_next? hr hs (mem_unitsAround.2 (Or.inr (Or.inl ⟨hv, hvw⟩))) hsv
      intro u hu hsu
      rcases mem_unitsAround.1 hu with rfl | ⟨hu, huw⟩ | rfl
      · exact hvw
      · rcases hlargest u hu huw hsu with hempty | hvu
        · rw [hempty.eq_caret_of_holds (huw.holds hp)]
          exact hvw.holds hp
        · exact hvu
      · exact absurd hsu hds.not_strictlyContains
    rw [shrinkStructural_of_contains hsw hnode hvw, hrv]
  · have hrw : r = scene.wordAt p := by
      apply hnested.eq_of_next? hr hs (mem_unitsAround.2 (Or.inl rfl)) hsw
      intro u hu hsu
      rcases mem_unitsAround.1 hu with rfl | ⟨hu, huw⟩ | rfl
      · exact Range.contains_refl _
      · rw [(hempties u hu huw hsu).eq_caret_of_holds (huw.holds hp)]
        exact hp
      · exact absurd hsu hds.not_strictlyContains
    rw [shrinkStructural_of_forall_contains hsw hp hnode, hrw]

end

/-! ## The ladder -/

namespace Scene

variable {scene : Scene} {o : Outline} {p : Position}

/-- Nodes that do not contain the word are not on the ladder. -/
theorem ladder_nodeUnits (hw : scene.text.Has (scene.wordAt p)) (hp : (scene.wordAt p).Holds p) :
    ladder p (scene.nodeUnits o p) =
      ladder p (unitsAround scene.text (scene.wordAt p)
        (o.chainAt scene.text (scene.text.offsetAt (scene.wordAt p).start))) := by
  have hdoc : scene.text.documentRange.Contains (scene.wordAt p) :=
    Text.documentRange_contains hw
  rw [nodeUnits, ← ladder_filter hp, List.filter_append]
  simp [unitsAround, hdoc]

/-- With an outline that is built from spans the commands climb on the word and the nodes around
it. -/
theorem climbs_nodeUnits (hwords : scene.WordsStayInside) (hp : scene.text.Inside p)
    (ho : scene.outline = some o) (hbuilt : o.IsBuilt) (hlength : o.length = scene.text.length)
    (hfits : o.FitsWord scene.text (scene.wordAt p)) :
    scene.Climbs p (unitsAround scene.text (scene.wordAt p)
      (o.chainAt scene.text (scene.text.offsetAt (scene.wordAt p).start))) := by
  have hword := isWordAt_wordAt hwords p
  have hw : scene.text.Has (scene.wordAt p) :=
    Text.has_of_lineRange_contains hp.1 (hword.lineRange_contains hp)
  have hnodes := Outline.nodesAround hbuilt hlength hw hfits
  have hhas : ∀ r ∈ ladder p (unitsAround scene.text (scene.wordAt p)
      (o.chainAt scene.text (scene.text.offsetAt (scene.wordAt p).start))),
      scene.text.Has r := by
    intro r hr
    rcases List.mem_cons.1 hr with rfl | hr
    · exact Text.has_caret hp
    · exact has_of_mem_unitsAround hnodes hw (mem_of_mem_rungsAbove hr)
  constructor
  · exact hhas
  · intro r hr
    rw [Snapshot.expand, snapshot_surroundings_eq hwords ho]
    exact expandStructural_of_mem_ladder hnodes hw hword.holds hr (hhas r hr)
  · intro r hr s hs
    apply Snapshot.shrink_target
    · rw [Snapshot.shrinkTarget, snapshot_surroundings_eq hwords ho]
      exact shrinkStructural_of_next? hnodes hw hword.holds hr hs
    · exact holds_of_mem_ladder hr

end Scene

/-- From a caret, whatever commands follow, the selection stays on the ladder of the word, the
nodes at the start of the word and the document: one rung up for every `expand` and one down for
every `shrink`.  The document is the topmost rung, and shrinking retraces expanding. -/
theorem Engine.climbsOn_nodeUnits {e : Engine} {b : Buffer} {p : Position} {o : Outline}
    (hb : e.editor = some b) (hcaret : b.selection = .caret p)
    (hwords : (e.scene b).WordsStayInside) (ho : (e.scene b).outline = some o)
    (hbuilt : o.IsBuilt) (hlength : o.length = b.text.length)
    (hfits : o.FitsWord b.text ((e.scene b).wordAt p)) :
    let rungs := ladder p ((e.scene b).nodeUnits o p)
    e.ClimbsOn b rungs ∧ rungs.getLast? = some b.text.documentRange ∧
      ∀ k j, e.selectionAfter (List.replicate k .expand ++ List.replicate j .shrink) =
        e.selectionAfter (List.replicate (min k (rungs.length - 1) - j) .expand) := by
  intro rungs
  have hp : b.text.Inside p := Buffer.inside_of_selection_eq_caret hcaret
  have hword := Scene.isWordAt_wordAt hwords p
  have hw : b.text.Has ((e.scene b).wordAt p) :=
    Text.has_of_lineRange_contains hp.1 (hword.lineRange_contains hp)
  have hladder : rungs = ladder p (unitsAround b.text ((e.scene b).wordAt p)
      (o.chainAt b.text (b.text.offsetAt ((e.scene b).wordAt p).start))) :=
    Scene.ladder_nodeUnits hw hword.holds
  have hclimbs : e.ClimbsOn b rungs := by
    rw [hladder]
    exact (Scene.climbs_nodeUnits hwords hp ho hbuilt hlength hfits).climbsOn hb hcaret
  refine ⟨hclimbs, ?_, hclimbs.selectionAfter_retrace⟩
  have hnodes := Outline.nodesAround hbuilt hlength hw hfits
  rw [hladder]
  apply getLast?_rungsAbove
  · intro u hu
    exact Text.documentRange_contains
      (has_of_mem_unitsAround hnodes hw (List.mem_append_left _ hu))
  · exact Text.documentRange_contains (Text.has_caret hp)

/-- Two blocks, and a node in the first of them that stops in the middle of its second word. -/
def cutSpans : List Span :=
  [⟨"Paragraph", 0, 7⟩, ⟨"InlineCode", 0, 4⟩, ⟨"InlineCode", 4, 5⟩, ⟨"Paragraph", 7, 9⟩]

/-- The tree of the spans. -/
def cutTree : Part × Forest Part :=
  (⟨.document, 0, 9⟩,
    .tree ⟨.paragraph, 0, 7⟩
      (.tree ⟨.inlineCode, 0, 4⟩ .empty (.tree ⟨.inlineCode, 4, 5⟩ .empty .empty))
      (.tree ⟨.paragraph, 7, 9⟩ .empty .empty))

theorem partTree_cutSpans : partTree 9 (keptSpans defaultIgnored cutSpans) = cutTree := by
  have hkept : keptSpans defaultIgnored cutSpans = cutSpans :=
    keptSpans_eq_self (by decide) (by decide)
  have hcover : cover 9 (cutSpans.map Span.part) =
      [⟨.paragraph, 0, 7⟩, ⟨.inlineCode, 0, 4⟩, ⟨.inlineCode, 4, 5⟩, ⟨.paragraph, 7, 9⟩] := by
    decide +kernel
  rw [hkept, partTree, hcover]
  simp [Forest.ofParts, rooted, cutTree]

/-- The outline of the spans, and the caret in the word that is cut. -/
def cutEngine : Engine where
  editor := some ((Buffer.ofText (.ofChars "ab cd\n\nef".toList)).setCursor ⟨0, 4⟩)
  outline := some (.ofPartTree 9 cutTree)

theorem climbsOn_cutEngine :
    ∃ b, cutEngine.editor = some b ∧
      cutEngine.ClimbsOn b [.caret ⟨0, 4⟩, .spanning ⟨0, 3⟩ ⟨0, 5⟩, .spanning ⟨0, 0⟩ ⟨2, 0⟩,
        .spanning ⟨0, 0⟩ ⟨2, 2⟩] := by
  refine ⟨_, rfl, ?_⟩
  have hbuilt : (Outline.ofPartTree 9 cutTree).IsBuilt := by
    refine ⟨defaultIgnored, cutSpans, "ab cd\n\nef".toList, ?_⟩
    rw [← partTree_cutSpans]
    rfl
  have hfits : (Outline.ofPartTree 9 cutTree).FitsWord (.ofChars "ab cd\n\nef".toList)
      (.spanning ⟨0, 3⟩ ⟨0, 5⟩) := by
    unfold Outline.FitsWord
    decide
  have hladder : ladder ⟨0, 4⟩ ((cutEngine.scene
        ((Buffer.ofText (.ofChars "ab cd\n\nef".toList)).setCursor ⟨0, 4⟩)).nodeUnits
        (.ofPartTree 9 cutTree) ⟨0, 4⟩) =
      [.caret ⟨0, 4⟩, .spanning ⟨0, 3⟩ ⟨0, 5⟩, .spanning ⟨0, 0⟩ ⟨2, 0⟩,
        .spanning ⟨0, 0⟩ ⟨2, 2⟩] := by
    decide
  have hclimbs := Engine.climbsOn_nodeUnits (e := cutEngine) (p := ⟨0, 4⟩) rfl (by decide)
    (Engine.wordsStayInside_scene Matcher.staysInside_ascii _) (by decide) hbuilt (by decide)
    hfits
  rw [hladder] at hclimbs
  exact hclimbs.1

end SelectionLadder
