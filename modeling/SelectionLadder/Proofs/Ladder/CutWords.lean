import SelectionLadder.Proofs.Ladder.Shrinking
import SelectionLadder.Proofs.Outline.Blocks

/-!
# Words that are cut by blocks

Where a block starts inside the word, no node around the start of the word contains the word, so
expanding goes from the word to the blocks over it and on to the document.  Shrinking has no rung
between the document and the word: it looks for nodes, and passes over those that cut the word.

* `Outline.CutsWord` is the case.  The ladder of the nodes leaves it out, since a cut word does not
  fit its block (`not_fitsWord_of_cutsWord`).
* `Scene.IsCut` is what is used of it.  `IsCut.target_expand` is what expanding selects, and
  `IsCut.target_shrink_wordAt` and `IsCut.target_shrink_above` are what shrinking does at the word
  and above it.
* `Engine.climbsBy_cutUnits`: whatever commands follow, the selection is on the ladder of the word,
  the blocks and the document, with the height after a command given by `Command.climbCut`.
  Shrinking retraces expanding exactly if the blocks are not a rung of their own.
-/

namespace SelectionLadder

/-! ## Cut words -/

section

variable {o : Outline} {t : Text} {root : Node} {below : Forest Node} {w u : Range}

/-- A block starts inside the word. -/
def Outline.CutsWord (o : Outline) (t : Text) (w : Range) : Prop :=
  ∃ root ∈ o.rootNode?, ∃ n ∈ o.children root.id,
    t.offsetAt w.start < n.start ∧ n.start < t.offsetAt w.stop

theorem Outline.IsTree.cutsWord_iff (h : o.IsTree root below) :
    o.CutsWord t w ↔
      ∃ n ∈ below.roots, t.offsetAt w.start < n.start ∧ n.start < t.offsetAt w.stop := by
  rw [CutsWord, h.rootNode?_eq]
  simp [h.spells.children_eq]

/-- A cut word does not fit: its block stops where another one starts, or earlier. -/
theorem Outline.IsTiledTree.not_fitsWord_of_cutsWord (h : o.IsTiledTree root below)
    (hlength : o.length = t.length) (hw : t.Has w) (hcut : o.CutsWord t w) :
    ¬ o.FitsWord t w := by
  obtain ⟨n, hn, hstart, hless⟩ := h.cutsWord_iff.1 hcut
  have hstop := t.offsetAt_le_length w.stop
  have hbelow : below ≠ .empty := by
    rintro rfl
    exact List.not_mem_nil hn
  have htiled := h.tiled_below hbelow
  obtain ⟨m, hm, hfirst, hlast⟩ :=
    htiled.exists_root (o := o) hbelow (Nat.zero_le (t.offsetAt w.start)) (by omega)
  have hblock : o.blockAt? t (t.offsetAt w.start) = some (t.rangeAt m.start m.stop) := by
    rw [h.blockAt?_eq, htiled.find?_roots (Nat.le_refl _) hm hfirst (by omega), Option.map_some]
  have hbounds := htiled.bounds (Forest.mem_preorder_of_mem_roots hm)
  have hboundsN := htiled.bounds (Forest.mem_preorder_of_mem_roots hn)
  have hne : m ≠ n := by
    rintro rfl
    omega
  rintro (hempty | hfits)
  · have hsame : t.offsetAt w.start = t.offsetAt w.stop := congrArg t.offsetAt hempty
    omega
  · have hcontains := hfits _ hblock
    rw [Text.rangeAt_contains_iff hw hbounds.2.1 (by omega)] at hcontains
    rcases htiled.stop_le_or hm hn hne with hbefore | hafter <;> omega

/-- No node around the start of such a word contains it. -/
theorem Outline.IsTiledTree.not_contains_of_mem_chainAt (h : o.IsTiledTree root below)
    (hnot : ¬ o.FitsWord t w) (hu : u ∈ o.chainAt t (t.offsetAt w.start)) : ¬ u.Contains w := by
  rw [FitsWord, not_or, ← h.getLast?_chainAt] at hnot
  simp only [not_forall] at hnot
  obtain ⟨-, r, hr, hblock⟩ := hnot
  obtain ⟨deeper, hchain⟩ := List.getLast?_eq_some_iff.1 hr
  have hpairwise : (o.chainAt t (t.offsetAt w.start)).Pairwise fun u v => v.Contains u :=
    h.pairwise_chainAt
  rw [hchain] at hu hpairwise
  have hru : r.Contains u := by
    rcases List.mem_append.1 hu with hu | hu
    · exact (List.pairwise_append.1 hpairwise).2.2 u hu r (List.mem_singleton_self r)
    · rw [List.mem_singleton.1 hu]
      exact r.contains_refl
  exact fun huw => hblock (hru.trans huw)

end

/-! ## Commands at a cut word -/

/-- What is used of a scene with an outline whose blocks cut the word at `p`, where `u` are the
blocks over the word. -/
structure Scene.IsCut (scene : Scene) (o : Outline) (p : Position) (u : Range) : Prop where
  words : scene.WordsStayInside
  inside : scene.text.Inside p
  outline_eq : scene.outline = some o
  isSound : o.IsSound
  length_eq : o.length = scene.text.length
  word_ne : ¬ (scene.wordAt p).IsEmpty
  not_contains : ∀ v ∈ o.chainAt scene.text (scene.text.offsetAt (scene.wordAt p).start),
    ¬ v.Contains (scene.wordAt p)
  blocks : o.blocksOver? scene.text (scene.wordAt p) = some u
  blocks_again : o.blocksOver? scene.text u = some u
  contains : u.Contains (scene.wordAt p)

/-- The word, the blocks over it and the document. -/
def Scene.cutUnits (scene : Scene) (p : Position) (u : Range) : List Range :=
  [scene.wordAt p, u, scene.text.documentRange]

theorem Scene.isCut {scene : Scene} {o : Outline} {p : Position} (hwords : scene.WordsStayInside)
    (hp : scene.text.Inside p) (ho : scene.outline = some o) (hbuilt : o.IsBuilt)
    (hlength : o.length = scene.text.length) (hcut : o.CutsWord scene.text (scene.wordAt p)) :
    ∃ u, scene.IsCut o p u := by
  obtain ⟨root, below, h⟩ := hbuilt.isTiledTree
  have hhas : scene.text.Has (scene.wordAt p) :=
    Text.has_of_lineRange_contains hp.1 ((isWordAt_wordAt hwords p).lineRange_contains hp)
  have hnot := h.not_fitsWord_of_cutsWord hlength hhas hcut
  have hne : ¬ (scene.wordAt p).IsEmpty := fun hempty => hnot (Or.inl hempty)
  have hbelow : below ≠ .empty := by
    rintro rfl
    obtain ⟨n, hn, -⟩ := h.cutsWord_iff.1 hcut
    exact List.not_mem_nil hn
  obtain ⟨m, -, n, -, -, -, -, -, -, hblocks⟩ := h.exists_blocksOver? hlength hbelow hhas hne
  exact ⟨_, {
    words := hwords
    inside := hp
    outline_eq := ho
    isSound := h.isSound
    length_eq := hlength
    word_ne := hne
    not_contains := fun v hv => h.not_contains_of_mem_chainAt hnot hv
    blocks := hblocks
    blocks_again := h.blocksOver?_blocksOver? hlength hbelow hhas hne hblocks
    contains := h.blocksOver?_contains hlength hbelow hhas hne hblocks }⟩

namespace Scene.IsCut

variable {scene : Scene} {o : Outline} {p : Position} {u r s : Range}

theorem has_wordAt (h : scene.IsCut o p u) : scene.text.Has (scene.wordAt p) :=
  (isWordAt_wordAt h.words p).has h.word_ne

theorem has_of_mem_cutUnits (h : scene.IsCut o p u) (hr : r ∈ scene.cutUnits p u) :
    scene.text.Has r := by
  simp only [cutUnits, List.mem_cons, List.not_mem_nil, or_false] at hr
  rcases hr with rfl | rfl | rfl
  · exact h.has_wordAt
  · exact Outline.has_of_blocksOver? h.blocks
  · exact scene.text.has_documentRange

theorem contains_of_mem_cutUnits (h : scene.IsCut o p u) (hr : r ∈ scene.cutUnits p u) :
    r.Contains (scene.wordAt p) := by
  simp only [cutUnits, List.mem_cons, List.not_mem_nil, or_false] at hr
  rcases hr with rfl | rfl | rfl
  · exact Range.contains_refl _
  · exact h.contains
  · exact Text.documentRange_contains h.has_wordAt

theorem has (h : scene.IsCut o p u) (hr : r ∈ ladder p (scene.cutUnits p u)) :
    scene.text.Has r := by
  rcases List.mem_cons.1 hr with rfl | hr
  · exact Text.has_caret h.inside
  · exact h.has_of_mem_cutUnits (mem_of_mem_rungsAbove hr)

theorem strictlyContains_caret (h : scene.IsCut o p u) :
    (scene.wordAt p).StrictlyContains (.caret p) :=
  Range.strictlyContains_caret h.word_ne (isWordAt_wordAt h.words p).holds

/-- The word is the first rung above the caret. -/
theorem ladder_eq (h : scene.IsCut o p u) :
    ladder p (scene.cutUnits p u) =
      .caret p :: scene.wordAt p ::
        rungsAbove (scene.wordAt p) [u, scene.text.documentRange] := by
  rw [ladder, cutUnits, rungsAbove, if_pos h.strictlyContains_caret]

/-- Without the blocks as a rung of their own there are three rungs at most. -/
theorem length_ladder_le (h : scene.IsCut o p u)
    (hu : u = scene.wordAt p ∨ u = scene.text.documentRange) :
    (ladder p (scene.cutUnits p u)).length ≤ 3 := by
  rw [h.ladder_eq]
  rcases hu with rfl | rfl
  · simp only [rungsAbove, Range.not_strictlyContains_self, if_false]
    split <;> simp
  · simp only [rungsAbove, Range.not_strictlyContains_self, if_false]
    split <;> simp

/-! ### Expanding -/

/-- From the word on expanding selects the blocks, if that is more, or else the document: there is
no node in between. -/
theorem target_expand_of_mem_cutUnits (h : scene.IsCut o p u) (hr : r ∈ scene.cutUnits p u) :
    (scene.snapshot r p).expand.target =
      some (if u.StrictlyContains r then u else scene.text.documentRange) := by
  have hword := h.contains_of_mem_cutUnits hr
  have hne : ¬ r.IsEmpty := fun hempty => h.word_ne (hempty.of_contains hword)
  have hnode : (o.chainAt scene.text (scene.text.offsetAt (scene.wordAt p).start)).find?
      (fun v => v.StrictlyContains r) = none := by
    rw [List.find?_eq_none]
    intro v hv hlarger
    exact h.not_contains v hv ((of_decide_eq_true hlarger).1.trans hword)
  have hblocks : o.blocksOver? scene.text r = some u ∨ r = scene.text.documentRange := by
    simp only [cutUnits, List.mem_cons, List.not_mem_nil, or_false] at hr
    rcases hr with rfl | rfl | rfl
    · exact Or.inl h.blocks
    · exact Or.inl h.blocks_again
    · exact Or.inr rfl
  rw [Snapshot.expand, snapshot_surroundings_eq h.words h.outline_eq]
  simp only [Snapshot.expandStructural, snapshot_selection, snapshot_word, if_neg hne,
    if_neg hword.not_strictlyContains, hnode, Snapshot.expandToBlocks, snapshot_document]
  rcases hblocks with hblocks | rfl
  · simp only [hblocks]
    split
    · rfl
    · rfl
  · -- No blocks are larger than the document.
    have hnot : ∀ v, scene.text.Has v → ¬ v.StrictlyContains scene.text.documentRange :=
      fun v hv => (Text.documentRange_contains hv).not_strictlyContains
    rw [if_neg (hnot u (Outline.has_of_blocksOver? h.blocks))]
    split
    · rename_i v hv
      rw [if_neg (hnot v (Outline.has_of_blocksOver? hv)), Decision.target]
    · rfl

/-- From a rung expanding selects the next unit. -/
theorem target_expand (h : scene.IsCut o p u) (hr : r ∈ ladder p (scene.cutUnits p u)) :
    (scene.snapshot r p).expand.target = some ((next? (scene.cutUnits p u) r).getD r) := by
  rcases List.mem_cons.1 hr with rfl | hr
  · rw [Snapshot.expand, snapshot_surroundings_eq h.words h.outline_eq]
    simp only [Snapshot.expandStructural, snapshot_selection, Range.isEmpty_caret, if_true,
      Snapshot.expandCaretAmong, snapshot_word, h.word_ne, not_false_eq_true, Decision.target,
      next?, cutUnits, List.find?_cons, h.strictlyContains_caret, decide_true, Option.getD_some]
  · have hunit := mem_of_mem_rungsAbove hr
    have hword := h.contains_of_mem_cutUnits hunit
    have hdocument := Text.documentRange_contains (h.has_of_mem_cutUnits hunit)
    have happend : scene.cutUnits p u = [scene.wordAt p, u] ++ [scene.text.documentRange] := rfl
    rw [h.target_expand_of_mem_cutUnits hunit, happend, next?_append_getD hdocument]
    by_cases hlarger : u.StrictlyContains r
    · simp [next?, hword.not_strictlyContains, hlarger]
    · simp [next?, hword.not_strictlyContains, hlarger]

/-! ### Shrinking -/

/-- From the word shrinking restores the cursor. -/
theorem target_shrink_wordAt (h : scene.IsCut o p u) :
    (scene.snapshot (scene.wordAt p) p).shrink.target = some (.caret p) := by
  apply Snapshot.shrink_target
  · rw [Snapshot.shrinkTarget, snapshot_surroundings_eq h.words h.outline_eq]
    simp only [Snapshot.shrinkStructural, snapshot_selection, snapshot_word, snapshot_origin,
      if_neg h.word_ne, if_pos (Range.contains_refl _), Decision.target]
  · exact Range.holds_start _

/-- From anything larger shrinking selects the word: nodes inside the word give way to it, and all
others are passed over. -/
theorem target_shrink_above (h : scene.IsCut o p u) (hs : s.StrictlyContains (scene.wordAt p)) :
    (scene.snapshot s p).shrink.target = some (scene.wordAt p) := by
  have hholds := (isWordAt_wordAt h.words p).holds
  apply Snapshot.shrink_target
  · rw [Snapshot.shrinkTarget, snapshot_surroundings_eq h.words h.outline_eq]
    apply shrinkStructural_of_forall_contains hs hholds
    intro part hpart
    obtain ⟨v, hv, hinner⟩ := List.exists_of_findSome?_eq_some hpart
    rw [List.mem_filter, List.mem_reverse, snapshot_word, decide_eq_true_eq] at hv
    have hinside : (scene.wordAt p).Contains v :=
      (contains_or_of_mem_chainAt h.words h.isSound h.length_eq h.word_ne hv.1 hv.2).resolve_left
        (h.not_contains v hv.1)
    obtain ⟨hne, hpart, -⟩ := Range.intersection_spec (Snapshot.innerPart?_eq_some_iff.1 hinner).1
    exact ⟨hinside.trans hpart, hne⟩
  · exact hholds

end Scene.IsCut

/-! ## Climbing -/

/-- The height after a command on the ladder of a cut word: one more, or down to the word, or from
the word down to the foot. -/
def Command.climbCut (top height : Nat) : Command → Nat
  | expand => min (height + 1) top
  | shrink => min (height - 1) 1

/-- Up to the second rung above the foot this is the height on other ladders. -/
theorem foldl_climbCut {top height : Nat} (htop : top ≤ 2) (hheight : height ≤ 2)
    (cs : List Command) :
    cs.foldl (Command.climbCut top) height = cs.foldl (Command.climb top) height := by
  induction cs generalizing height with
  | nil => rfl
  | cons c cs ih =>
    cases c with
    | expand => exact ih (by simp only [Command.climbCut]; omega)
    | shrink =>
      have hsame : Command.climbCut top height .shrink = Command.climb top height .shrink := by
        simp only [Command.climbCut, Command.climb]
        omega
      rw [List.foldl_cons, List.foldl_cons, hsame]
      exact ih (by simp only [Command.climb]; omega)

namespace Engine

variable {e : Engine} {b : Buffer} {o : Outline} {p : Position} {u r : Range} {version : Nat}
  {scene : Scene}

/-- The step. -/
theorem StandsAt.perform_cut (hstands : e.StandsAt scene version p r) (h : scene.IsCut o p u)
    {i : Nat} (hi : (ladder p (scene.cutUnits p u))[i]? = some r) (c : Command) :
    ∃ d e' s, e.perform c = .ok (d, e') ∧ e'.StandsAt scene version p s ∧
      (ladder p (scene.cutUnits p u))[c.climbCut ((ladder p (scene.cutUnits p u)).length - 1) i]? =
        some s := by
  cases c with
  | expand =>
    exact hstands.perform_expand (fun r hr => h.has hr) (fun r hr => h.target_expand hr) hi
  | shrink =>
    have hholds := (Scene.isWordAt_wordAt h.words p).holds
    simp only [Command.climbCut]
    rw [h.ladder_eq] at hi ⊢
    match i with
    | 0 =>
      obtain rfl := Option.some.inj hi
      obtain ⟨e', hrun, -, hstands'⟩ := hstands.perform_shrink_caret
      exact ⟨_, e', _, hrun, hstands', rfl⟩
    | 1 =>
      obtain rfl := Option.some.inj hi
      obtain ⟨e', hrun, hstands'⟩ := hstands.run Snapshot.shrink h.target_shrink_wordAt
        (Text.has_caret h.inside) (Range.holds_start _)
      exact ⟨_, e', _, hrun, hstands', rfl⟩
    | i + 2 =>
      have hmem : r ∈ rungsAbove (scene.wordAt p) [u, scene.text.documentRange] :=
        List.mem_of_getElem? hi
      obtain ⟨e', hrun, hstands'⟩ := hstands.run Snapshot.shrink
        (h.target_shrink_above (strictlyContains_of_mem_rungsAbove hmem)) h.has_wordAt hholds
      have hheight : min (i + 2 - 1) 1 = 1 := by omega
      rw [hheight]
      exact ⟨_, e', _, hrun, hstands', rfl⟩

/-- Shrinking retraces expanding if and only if the blocks are not a rung of their own. -/
theorem ClimbsBy.retrace_iff {rungs : List Range} (hrungs : rungs = ladder p (scene.cutUnits p u))
    (h : e.ClimbsBy (Command.climbCut (rungs.length - 1)) b rungs) (hcut : scene.IsCut o p u) :
    (∀ k j, e.selectionAfter (List.replicate k .expand ++ List.replicate j .shrink) =
        e.selectionAfter (List.replicate (min k (rungs.length - 1) - j) .expand)) ↔
      u = scene.wordAt p ∨ u = scene.text.documentRange := by
  have hafter := h.selectionAfter_eq
  constructor
  · intro hretrace
    by_contra hnot
    rw [not_or] at hnot
    have hword : u.StrictlyContains (scene.wordAt p) := ⟨hcut.contains, hnot.1⟩
    have hdocument : scene.text.documentRange.StrictlyContains u :=
      ⟨Text.documentRange_contains (Outline.has_of_blocksOver? hcut.blocks), Ne.symm hnot.2⟩
    have hfour : rungs = [.caret p, scene.wordAt p, u, scene.text.documentRange] := by
      rw [hrungs, hcut.ladder_eq]
      simp [rungsAbove, hword, hdocument]
    -- From the document it goes back to the word and not to the blocks.
    have hback := hretrace 3 1
    rw [hafter, hafter, hfour] at hback
    have heq : scene.wordAt p = u := Option.some.inj hback
    exact hnot.1 heq.symm
  · intro hu k j
    have hlength : rungs.length ≤ 3 := hrungs ▸ hcut.length_ladder_le hu
    rw [hafter, hafter, foldl_climbCut (by omega) (by omega), foldl_climbCut (by omega) (by omega)]
    exact congrArg (rungs[·]?) (heightAfter_retrace (rungs.length - 1) k j)

/-- From a caret in a word that is cut by blocks, whatever commands follow, the selection stays on
the ladder of the word, the blocks over it and the document.  Expanding goes up by one rung;
shrinking goes down to the word, and from the word to the caret.  So shrinking retraces expanding if
and only if the blocks over the word are the word or the document: from the document it never goes
back to blocks in between. -/
theorem climbsBy_cutUnits (hb : e.editor = some b) (hcaret : b.selection = .caret p)
    (hwords : (e.scene b).WordsStayInside) (ho : (e.scene b).outline = some o)
    (hbuilt : o.IsBuilt) (hlength : o.length = b.text.length)
    (hcut : o.CutsWord b.text ((e.scene b).wordAt p)) :
    ∃ u, o.blocksOver? b.text ((e.scene b).wordAt p) = some u ∧
      u.Contains ((e.scene b).wordAt p) ∧
      let rungs := ladder p [(e.scene b).wordAt p, u, b.text.documentRange]
      e.ClimbsBy (Command.climbCut (rungs.length - 1)) b rungs ∧
        rungs.getLast? = some b.text.documentRange ∧
        ((∀ k j, e.selectionAfter (List.replicate k .expand ++ List.replicate j .shrink) =
            e.selectionAfter (List.replicate (min k (rungs.length - 1) - j) .expand)) ↔
          u = (e.scene b).wordAt p ∨ u = b.text.documentRange) := by
  have hp : b.text.Inside p := Buffer.inside_of_selection_eq_caret hcaret
  obtain ⟨u, h⟩ := Scene.isCut hwords hp ho hbuilt hlength hcut
  refine ⟨u, h.blocks, h.contains, ?_⟩
  intro rungs
  have hclimbs : e.ClimbsBy (Command.climbCut (rungs.length - 1)) b rungs :=
    climbsBy_of_step hb hcaret rfl fun _ _ _ c hstands hi => hstands.perform_cut h hi c
  refine ⟨hclimbs, ?_, hclimbs.retrace_iff rfl h⟩
  have hunits : ∀ v ∈ [(e.scene b).wordAt p, u], b.text.documentRange.Contains v := by
    intro v hv
    exact Text.documentRange_contains (h.has_of_mem_cutUnits (List.mem_append_left _ hv))
  exact getLast?_rungsAbove hunits (Text.documentRange_contains (Text.has_caret hp))

end Engine

/-! ## A selection that is not found again -/

/-- Three blocks, of which the second starts inside the first word. -/
def unionSpans : List Span := [⟨"Paragraph", 0, 1⟩, ⟨"Paragraph", 1, 3⟩, ⟨"Paragraph", 3, 4⟩]

/-- The tree of the spans. -/
def unionTree : Part × Forest Part :=
  (⟨.document, 0, 4⟩,
    .tree ⟨.paragraph, 0, 1⟩ .empty (.tree ⟨.paragraph, 1, 3⟩ .empty
      (.tree ⟨.paragraph, 3, 4⟩ .empty .empty)))

theorem isBuilt_unionTree : (Outline.ofPartTree 4 unionTree).IsBuilt := by
  have hkept : keptSpans defaultIgnored unionSpans = unionSpans :=
    keptSpans_eq_self (by decide) (by decide)
  have hcover : cover 4 (unionSpans.map Span.part) =
      [⟨.paragraph, 0, 1⟩, ⟨.paragraph, 1, 3⟩, ⟨.paragraph, 3, 4⟩] := by
    decide +kernel
  have htree : partTree 4 (keptSpans defaultIgnored unionSpans) = unionTree := by
    rw [hkept, partTree, hcover]
    simp [Forest.ofParts, rooted, unionTree]
  refine ⟨defaultIgnored, unionSpans, "ab c".toList, ?_⟩
  rw [← htree]
  rfl

/-- The caret at the start of the text. -/
def unionBuffer : Buffer := .ofText (.ofChars "ab c".toList)

/-- The outline of the spans over the text. -/
def unionEngine : Engine where
  editor := some unionBuffer
  outline := some (.ofPartTree 4 unionTree)

theorem cutsWord_unionTree :
    (Outline.ofPartTree 4 unionTree).CutsWord unionBuffer.text
      ((unionEngine.scene unionBuffer).wordAt ⟨0, 0⟩) := by
  unfold Outline.CutsWord
  decide +kernel

theorem climbsBy_unionEngine :
    unionEngine.ClimbsBy (Command.climbCut 3) unionBuffer
      [.caret ⟨0, 0⟩, .spanning ⟨0, 0⟩ ⟨0, 2⟩, .spanning ⟨0, 0⟩ ⟨0, 3⟩,
        .spanning ⟨0, 0⟩ ⟨0, 4⟩] := by
  obtain ⟨u, hblocks, -, hclimbs, -⟩ := Engine.climbsBy_cutUnits (e := unionEngine) (p := ⟨0, 0⟩)
    rfl (by decide) (Engine.wordsStayInside_scene Matcher.staysInside_ascii _) (by decide)
    isBuilt_unionTree (by decide) cutsWord_unionTree
  have hunion : (Outline.ofPartTree 4 unionTree).blocksOver? unionBuffer.text
      ((unionEngine.scene unionBuffer).wordAt ⟨0, 0⟩) = some (.spanning ⟨0, 0⟩ ⟨0, 3⟩) := by
    decide +kernel
  obtain rfl := Option.some.inj (hblocks.symm.trans hunion)
  have hladder : ladder ⟨0, 0⟩ [(unionEngine.scene unionBuffer).wordAt ⟨0, 0⟩,
        .spanning ⟨0, 0⟩ ⟨0, 3⟩, unionBuffer.text.documentRange] =
      [.caret ⟨0, 0⟩, .spanning ⟨0, 0⟩ ⟨0, 2⟩, .spanning ⟨0, 0⟩ ⟨0, 3⟩,
        .spanning ⟨0, 0⟩ ⟨0, 4⟩] := by
    decide
  rw [hladder] at hclimbs
  exact hclimbs

/-- The blocks are selected before the document is, but not after it. -/
theorem selectionAfter_unionEngine :
    ∃ b o, unionEngine.editor = some b ∧ b.selection = .caret ⟨0, 0⟩ ∧
      unionEngine.origin = none ∧ unionEngine.outline = some o ∧ o.IsBuilt ∧
      o.length = b.text.length ∧ o.CutsWord b.text ((unionEngine.scene b).wordAt ⟨0, 0⟩) ∧
      unionEngine.selectionAfter [.expand, .expand] = some (.spanning ⟨0, 0⟩ ⟨0, 3⟩) ∧
      unionEngine.selectionAfter [.expand, .expand, .expand] = some b.text.documentRange ∧
      unionEngine.selectionAfter [.expand, .expand, .expand, .shrink] ≠
        unionEngine.selectionAfter [.expand, .expand] :=
  ⟨_, _, rfl, by decide, rfl, rfl, isBuilt_unionTree, by decide, cutsWord_unionTree,
    by decide +kernel, by decide +kernel, by decide +kernel⟩

end SelectionLadder
