import SelectionLadder.Proofs.Ladder.CutWords

/-!
# The union of the blocks

Beyond the nodes around the origin expanding selects the union of the blocks.  It is the smallest
run of blocks over the selection, and after it there is only the document.

* `Outline.IsBlockRun` is a range of blocks that follow each other.  `exists_infix` finds the blocks
  between two of them.
* `IsTiledTree.contains_of_isBlockRun`: the blocks over a range lie in every run of blocks that
  contains it.
* `Snapshot.spec_of_expandStructural_eq_selectUnion` says when expanding selects blocks, and
  `Scene.expand_of_selectUnion` that it then has nothing left but the document.
-/

namespace SelectionLadder

/-! ## Runs of blocks -/

/-- In an ordered list there is a segment from each element to each one that is not before it. -/
theorem exists_infix {α : Type} {before : α → α → Prop} {xs : List α} (h : xs.Pairwise before)
    {a b : α} (ha : a ∈ xs) (hb : b ∈ xs) (hab : ¬ before b a) :
    ∃ segment, segment <:+: xs ∧ segment.head? = some a ∧ segment.getLast? = some b := by
  obtain ⟨pre, post, rfl⟩ := List.append_of_mem ha
  obtain ⟨-, -, hpre⟩ := List.pairwise_append.1 h
  have hb' : b ∈ a :: post := by
    rcases List.mem_append.1 hb with hb | hb
    · exact absurd (hpre b hb a List.mem_cons_self) hab
    · exact hb
  obtain ⟨mid, last, hmid⟩ := List.append_of_mem hb'
  refine ⟨mid ++ [b], ⟨pre, last, ?_⟩, ?_, List.getLast?_concat⟩
  · rw [hmid, List.append_assoc, List.append_assoc, List.singleton_append]
  · cases mid with
    | nil => exact congrArg some (List.cons.inj hmid).1.symm
    | cons c mid => exact congrArg some (List.cons.inj hmid).1.symm

/-- The last element of an ordered list is the first one, or comes after it. -/
theorem eq_or_of_head?_of_getLast? {α : Type} {before : α → α → Prop} {xs : List α}
    (h : xs.Pairwise before) {a b : α} (ha : xs.head? = some a) (hb : xs.getLast? = some b) :
    b = a ∨ before a b := by
  cases xs with
  | nil => cases ha
  | cons x xs =>
    obtain rfl := Option.some.inj ha
    rcases List.mem_cons.1 (List.mem_of_getLast? hb) with hb | hb
    · exact Or.inl hb
    · exact Or.inr ((List.pairwise_cons.1 h).1 b hb)

namespace Outline

variable {o : Outline} {t : Text} {root : Node} {below : Forest Node} {r u v : Range}

/-- The range goes from the start of a block to the end of the same block or of a later one, and
takes in all blocks between them. -/
def IsBlockRun (o : Outline) (t : Text) (u : Range) : Prop :=
  ∃ blocks first last, blocks <:+: o.children o.root ∧ blocks.head? = some first ∧
    blocks.getLast? = some last ∧ u = t.rangeAt first.start last.stop

theorem IsTree.children_root (h : o.IsTree root below) : o.children o.root = below.roots := by
  rw [h.root_eq]
  exact h.spells.children_eq

/-- Without children of the root there are no blocks. -/
theorem IsTree.ne_empty_of_blocksOver? (h : o.IsTree root below)
    (hu : o.blocksOver? t r = some u) : below ≠ .empty := by
  rintro rfl
  simp [blocksOver?, h.blockAt?_eq, Forest.roots] at hu

/-- The blocks over a range are a run, and lie in every run of blocks that contains it. -/
theorem IsTiledTree.isBlockRun_blocksOver? (h : o.IsTiledTree root below)
    (hlength : o.length = t.length) (hbelow : below ≠ .empty) (hr : t.Has r) (hne : ¬ r.IsEmpty)
    (hu : o.blocksOver? t r = some u) :
    o.IsBlockRun t u ∧ ∀ v, o.IsBlockRun t v → v.Contains r → v.Contains u := by
  obtain ⟨m, hm, n, hn, hfirst, hfirst', hlast, hlast', hend, hblocks⟩ :=
    h.exists_blocksOver? hlength hbelow hr hne
  obtain rfl := Option.some.inj (hblocks.symm.trans hu)
  have hlt := Text.offsetAt_lt_offsetAt hr.1 hr.2 (Range.start_lt_stop hne)
  have htiled := h.tiled_below hbelow
  have hbounds : ∀ k ∈ below.roots, k.start ≤ k.stop ∧ k.stop ≤ t.length := by
    intro k hk
    rw [← hlength]
    exact (htiled.bounds (Forest.mem_preorder_of_mem_roots hk)).2
  refine ⟨?_, ?_⟩
  · have horder : ¬ n.stop ≤ m.start := by omega
    obtain ⟨blocks, hinfix, hhead, hback⟩ := exists_infix htiled.pairwise_roots hm hn horder
    exact ⟨blocks, m, n, h.children_root ▸ hinfix, hhead, hback, rfl⟩
  · rintro v ⟨blocks, first, last, hinfix, hhead, hback, rfl⟩ hcontains
    rw [h.children_root] at hinfix
    have hfirst' : first ∈ below.roots := hinfix.subset (List.mem_of_head? hhead)
    have hlast' : last ∈ below.roots := hinfix.subset (List.mem_of_getLast? hback)
    have hboundsFirst := hbounds first hfirst'
    have hboundsLast := hbounds last hlast'
    have horder : first.start ≤ last.stop := by
      rcases eq_or_of_head?_of_getLast? (htiled.pairwise_roots.sublist hinfix.sublist) hhead hback
        with rfl | horder <;> omega
    rw [Text.rangeAt_contains_iff hr horder hboundsLast.2] at hcontains
    -- A block that starts inside the selection is not the first of a run that contains it, and one
    -- that stops inside it is not the last.
    have hstart : first.start ≤ m.start := by
      by_cases heq : first = m
      · rw [heq]
      · rcases htiled.stop_le_or hfirst' hm heq with hbefore | hafter <;> omega
    have hstop : n.stop ≤ last.stop := by
      by_cases heq : last = n
      · rw [heq]
      · rcases htiled.stop_le_or hlast' hn heq with hbefore | hafter <;> omega
    exact Text.rangeAt_contains hstart (by omega) hstop

end Outline

/-! ## After the blocks -/

/-- Expanding selects blocks only where they are larger than the selection, and neither the word nor
a node is. -/
theorem Snapshot.spec_of_expandStructural_eq_selectUnion {s : Snapshot} {around : Surroundings}
    {u : Range} (h : s.expandStructural around = .selectUnion u) :
    ¬ s.word.StrictlyContains s.selection ∧
      (∀ v ∈ around.chain, ¬ v.StrictlyContains s.selection) ∧ around.blocks = some u ∧
      ¬ s.selection.IsEmpty ∧ u.StrictlyContains s.selection := by
  unfold expandStructural at h
  split at h
  · -- From a caret it never goes to blocks.
    unfold expandCaretAmong at h
    split at h
    · cases h
    · split at h <;> cases h
  · rename_i hempty
    split at h
    · cases h
    · rename_i hword
      split at h
      · cases h
      · rename_i hnone
        unfold expandToBlocks at h
        split at h
        · rename_i blocks hblocks
          split at h
          · rename_i hlarger
            obtain rfl := Decision.selectUnion.inj h
            exact ⟨hword, by simpa using hnone, hblocks, hempty, hlarger⟩
          · cases h
        · cases h

/-- If blocks are selected of which the blocks are the same, the document is next. -/
theorem Scene.expand_of_selectUnion {scene : Scene} {o : Outline} {p : Position} {r u : Range}
    (ho : scene.outline = some o) (h : (scene.snapshot r p).expand = .selectUnion u)
    (hagain : o.blocksOver? scene.text u = some u) :
    (scene.snapshot u p).expand = .selectDocument scene.text.documentRange := by
  rw [Snapshot.expand, snapshot_surroundings, ho, Option.map_some] at h ⊢
  obtain ⟨hword, hchain, -, -, hlarger⟩ := Snapshot.spec_of_expandStructural_eq_selectUnion h
  rw [snapshot_selection] at hlarger
  rw [snapshot_selection, snapshot_word] at hword
  have hword' : ¬ (scene.wordAt p).StrictlyContains u := fun hw => hword (hw.trans hlarger)
  -- The nodes are looked up at the origin, so they are the same.
  have hnone : (surroundings o scene.text p (scene.wordAt p) u).chain.find?
      (fun v => v.StrictlyContains u) = none := by
    rw [List.find?_eq_none]
    intro v hv hvu
    exact hchain v hv ((of_decide_eq_true hvu).trans hlarger)
  have hblocks : (surroundings o scene.text p (scene.wordAt p) u).blocks = some u := hagain
  simp only [Snapshot.expandStructural, Snapshot.expandToBlocks, snapshot_selection, snapshot_word,
    snapshot_document, if_neg hlarger.not_isEmpty, if_neg hword', hnone, hblocks,
    if_neg (Range.not_strictlyContains_self u)]

namespace Engine

variable {e e' : Engine} {scene : Scene} {version : Nat} {o : Outline} {p : Position} {r u : Range}

/-- What an engine decides depends on where it stands. -/
theorem StandsAt.decision_eq (hstands : e.StandsAt scene version p r)
    {decide : Snapshot → Decision} {d : Decision} (h : e.run decide = .ok (d, e')) :
    decide (scene.snapshot r p) = d := by
  obtain ⟨b, hb, rfl, -, rfl, horigin⟩ := hstands
  rw [run_eq_follow hb decide horigin rfl] at h
  exact (Prod.mk.inj (Except.ok.inj h)).1

/-- If expanding selects blocks, expanding again selects the document. -/
theorem StandsAt.expand_expand (hstands : e.StandsAt scene version p r)
    (ho : scene.outline = some o) (hbuilt : o.IsBuilt) (hlength : o.length = scene.text.length)
    (h : e.expand = .ok (.selectUnion u, e')) :
    ∃ e'', e'.expand = .ok (.selectDocument scene.text.documentRange, e'') ∧
      e''.StandsAt scene version p scene.text.documentRange := by
  have hd := hstands.decision_eq h
  have hseen := hd
  rw [Snapshot.expand, Scene.snapshot_surroundings, ho, Option.map_some] at hseen
  obtain ⟨-, -, hblocks, hne, hlarger⟩ := Snapshot.spec_of_expandStructural_eq_selectUnion hseen
  obtain ⟨root, below, htree⟩ := hbuilt.isTiledTree
  have hbelow : below ≠ .empty := htree.ne_empty_of_blocksOver? hblocks
  have hagain := htree.blocksOver?_blocksOver? hlength hbelow hstands.has hne hblocks
  have hu : scene.text.Has u := Outline.has_of_blocksOver? hblocks
  have hp : u.Holds p := hlarger.1.holds hstands.holds
  obtain ⟨e₁, hrun, hstands'⟩ := hstands.run Snapshot.expand (congrArg Decision.target hd) hu hp
  obtain rfl : e₁ = e' := (Prod.mk.inj (Except.ok.inj (hrun.symm.trans h))).2
  have hnext := Scene.expand_of_selectUnion ho hd hagain
  have hdocument := (Text.documentRange_contains hu).holds hp
  obtain ⟨e'', hrun', hstands''⟩ := hstands'.run Snapshot.expand
    (congrArg Decision.target hnext) scene.text.has_documentRange hdocument
  exact ⟨e'', hnext ▸ hrun', hstands''⟩

end Engine

/-- If the root has children, the union of the blocks over a selection is the smallest run of blocks
that contains it, and it is the union of the blocks over itself.  So if expanding selects it,
expanding again selects the document. -/
theorem blocks_smallest_run {o : Outline} {t : Text} (hbuilt : o.IsBuilt)
    (hlength : o.length = t.length) :
    (o.children o.root ≠ [] → ∀ origin word r, t.Has r → ¬ r.IsEmpty →
      ∃ u, (surroundings o t origin word r).blocks = some u ∧ u.Contains r ∧ o.IsBlockRun t u ∧
        (∀ v, o.IsBlockRun t v → v.Contains r → v.Contains u) ∧
        (surroundings o t origin word u).blocks = some u) ∧
      ∀ (e e' : Engine) (b : Buffer) (u : Range), e.editor = some b → b.text = t →
        (e.scene b).outline = some o → e.expand = .ok (.selectUnion u, e') →
        ∃ e'', e'.expand = .ok (.selectDocument t.documentRange, e'') ∧
          e''.editor.map (·.selection) = some t.documentRange := by
  obtain ⟨root, below, htree⟩ := hbuilt.isTiledTree
  refine ⟨?_, ?_⟩
  · intro hchildren origin word r hr hne
    have hbelow : below ≠ .empty := by
      rw [htree.children_root] at hchildren
      exact fun hempty => hchildren (Forest.roots_eq_nil_iff.2 hempty)
    obtain ⟨m, -, n, -, -, -, -, -, -, hblocks⟩ := htree.exists_blocksOver? hlength hbelow hr hne
    obtain ⟨hrun, hsmallest⟩ := htree.isBlockRun_blocksOver? hlength hbelow hr hne hblocks
    exact ⟨_, hblocks, htree.blocksOver?_contains hlength hbelow hr hne hblocks, hrun, hsmallest,
      htree.blocksOver?_blocksOver? hlength hbelow hr hne hblocks⟩
  · rintro e e' b u hb rfl ho h
    obtain ⟨e'', hexpand, b', hb', -, -, hselection, -⟩ :=
      (Engine.standsAt hb).expand_expand ho hbuilt hlength h
    exact ⟨e'', hexpand, by rw [hb', Option.map_some, hselection]; rfl⟩

/-- The word is selected, and a block starts inside it. -/
def wordBuffer : Buffer := unionBuffer.setSelection ⟨0, 0⟩ ⟨0, 2⟩

theorem blocks_smallest_run_wordBuffer :
    (∃ u, (surroundings (.ofPartTree 4 unionTree) wordBuffer.text ⟨0, 0⟩ wordBuffer.selection
        wordBuffer.selection).blocks = some u ∧ u.Contains wordBuffer.selection ∧
      ∀ v, (Outline.ofPartTree 4 unionTree).IsBlockRun wordBuffer.text v →
        v.Contains wordBuffer.selection → v.Contains u) ∧
      ∃ e' e'' : Engine, { unionEngine with editor := some wordBuffer }.expand =
          .ok (.selectUnion (.spanning ⟨0, 0⟩ ⟨0, 3⟩), e') ∧
        e'.expand = .ok (.selectDocument (.spanning ⟨0, 0⟩ ⟨0, 4⟩), e'') := by
  obtain ⟨hblocks, hexpand⟩ :=
    blocks_smallest_run (t := wordBuffer.text) isBuilt_unionTree (by decide)
  obtain ⟨u, hu, hcontains, -, hsmallest, -⟩ := hblocks (by decide) ⟨0, 0⟩ wordBuffer.selection
    wordBuffer.selection wordBuffer.has_selection (by decide)
  obtain ⟨e', hrun, -⟩ := Engine.run_spec (e := { unionEngine with editor := some wordBuffer })
    (b := wordBuffer) (p := ⟨0, 0⟩) (d := .selectUnion (.spanning ⟨0, 0⟩ ⟨0, 3⟩)) rfl
    Snapshot.expand (by decide) (by decide +kernel)
  obtain ⟨e'', hdocument, -⟩ := hexpand _ e' wordBuffer _ rfl rfl (by decide) hrun
  exact ⟨⟨u, hu, hcontains, hsmallest⟩, e', e'', hrun, hdocument⟩

end SelectionLadder
