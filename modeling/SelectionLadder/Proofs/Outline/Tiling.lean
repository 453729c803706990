import SelectionLadder.Outline.Build
import SelectionLadder.Proofs.Outline.Tree

/-!
# Tiling

Placing gives every node of an outline a stretch of the document.  What parsers report may cross
and overlap in any way, but the stretches do not: at every level they lie side by side.

* `Tiles` is the relation of a list of stretches that lie side by side between two offsets.
* `Forest.Tiled` carries it through a forest: the roots tile the stretch that they are placed in,
  and the roots below a node tile that node.  `tiled_place` is the induction that proves it of
  placing, whatever the parts.
* `Forest.place?` is placing that fails where a start would be moved between limits that are not
  in order.  It never fails between offsets in order (`place?_eq_some`).
* `Outline.Tiled` says what this means for an outline, and `build_tiled` that every outline built
  from spans has it and that building moves starts between limits in order only.
-/

namespace SelectionLadder

/-- The stretches lie side by side: the first one starts at `start`, each other one starts where
the one before it stops, and the last one stops at `stop`. -/
def Tiles (start stop : Nat) : List (Nat × Nat) → Prop
  | [] => start = stop
  | s :: rest => s.1 = start ∧ s.1 ≤ s.2 ∧ Tiles s.2 stop rest

theorem Tiles.append {start mid stop : Nat} {xs ys : List (Nat × Nat)} (hxs : Tiles start mid xs)
    (hys : Tiles mid stop ys) : Tiles start stop (xs ++ ys) := by
  induction xs generalizing start with
  | nil =>
    have hstart : start = mid := hxs
    exact hstart ▸ hys
  | cons s rest ih =>
    obtain ⟨hs, hle, hrest⟩ := hxs
    exact ⟨hs, hle, ih hrest⟩

/-- The stretch that a node occupies. -/
def Node.stretch (n : Node) : Nat × Nat := (n.start, n.stop)

/-! ## Tiled forests -/

/-- The roots of the forest tile the stretch from `start` to `stop`, and the roots below a node
tile the stretch of that node. -/
def Forest.Tiled (start stop : Nat) : Forest Node → Prop
  | .empty => start = stop
  | .tree n below rest =>
    n.start = start ∧ n.start ≤ n.stop ∧ (below ≠ .empty → below.Tiled n.start n.stop) ∧
      rest.Tiled n.stop stop

namespace Forest

variable {f : Forest Node} {start stop : Nat}

theorem Tiled.start_le_stop (h : f.Tiled start stop) : start ≤ stop := by
  induction f generalizing start with
  | empty => exact Nat.le_of_eq h
  | tree n below rest _ ihRest =>
    obtain ⟨hstart, hle, -, hrest⟩ := h
    have := ihRest hrest
    omega

/-- No node of a tiled forest leaves the stretch of the forest. -/
theorem Tiled.bounds (h : f.Tiled start stop) {n : Node} (hn : n ∈ f.preorder) :
    start ≤ n.start ∧ n.start ≤ n.stop ∧ n.stop ≤ stop := by
  induction f generalizing start stop with
  | empty => exact absurd hn List.not_mem_nil
  | tree m below rest ihBelow ihRest =>
    obtain ⟨hstart, hle, hbelow, hrest⟩ := h
    have hstop := hrest.start_le_stop
    rw [preorder, List.mem_cons, List.mem_append] at hn
    rcases hn with rfl | hn | hn
    · omega
    · have hne : below ≠ .empty := by
        rintro rfl
        exact List.not_mem_nil hn
      have := ihBelow (hbelow hne) hn
      omega
    · have := ihRest hrest hn
      omega

theorem Tiled.roots_tile (h : f.Tiled start stop) :
    Tiles start stop (f.roots.map Node.stretch) := by
  induction f generalizing start with
  | empty => exact h
  | tree n below rest _ ihRest =>
    obtain ⟨hstart, hle, -, hrest⟩ := h
    exact ⟨hstart, hle, ihRest hrest⟩

/-- The children of every node tile it. -/
theorem Tiled.children_tile {o : Outline} (hspells : o.Spells f) (h : f.Tiled start stop)
    {n : Node} (hn : n ∈ f.preorder) (hleaf : n.children ≠ []) :
    Tiles n.start n.stop ((o.childrenOf n).map Node.stretch) := by
  induction f generalizing start stop with
  | empty => exact absurd hn List.not_mem_nil
  | tree m below rest ihBelow ihRest =>
    have hchildren := hspells.childrenOf_eq
    have hempty := hspells.isLeaf_iff
    obtain ⟨-, -, hspellsBelow, hspellsRest⟩ := hspells
    obtain ⟨-, -, hbelow, hrest⟩ := h
    rw [preorder, List.mem_cons, List.mem_append] at hn
    rcases hn with rfl | hn | hn
    · rw [hchildren]
      exact (hbelow fun hb => hleaf (hempty.2 hb)).roots_tile
    · have hne : below ≠ .empty := by
        rintro rfl
        exact List.not_mem_nil hn
      exact ihBelow hspellsBelow (hbelow hne) hn
    · exact ihRest hspellsRest hrest hn

/-- The nodes without children tile the stretch of the whole forest: where a node has children,
they stand for it. -/
theorem Tiled.leaves_tile {o : Outline} (hspells : o.Spells f) (h : f.Tiled start stop) :
    Tiles start stop ((f.preorder.filter fun n => n.IsLeaf).map Node.stretch) := by
  induction f generalizing start stop with
  | empty => exact h
  | tree n below rest ihBelow ihRest =>
    have hleaf := hspells.isLeaf_iff
    obtain ⟨-, -, hspellsBelow, hspellsRest⟩ := hspells
    obtain ⟨rfl, hle, hbelow, hrest⟩ := h
    have htail := ihRest hspellsRest hrest
    rw [preorder, List.filter_cons, List.filter_append]
    by_cases hn : n.IsLeaf
    · have hempty : below = .empty := hleaf.1 hn
      subst hempty
      simp only [hn, decide_true, if_true, preorder, List.filter_nil, List.nil_append,
        List.map_cons]
      exact ⟨rfl, hle, htail⟩
    · have hne : below ≠ .empty := fun hb => hn (hleaf.2 hb)
      simp only [hn, decide_false, Bool.false_eq_true, if_false, List.map_append]
      exact (ihBelow hspellsBelow (hbelow hne)).append htail

/-! ## Placing -/

theorem startWithin_bounds (f : Forest Part) {start stop : Nat} (h : start ≤ stop) :
    start ≤ f.startWithin start stop ∧ f.startWithin start stop ≤ stop := by
  cases f <;> simp only [startWithin] <;> omega

/-- Placed parts tile the stretch that they are placed in, however their reported stretches lie. -/
theorem tiled_place (f : Forest Part) (hne : f ≠ .empty) {start stop : Nat} (h : start ≤ stop)
    (parent : Option NodeId) (next : Nat) :
    ((f.place start stop).numberedForest parent next).Tiled start stop := by
  induction f generalizing start stop parent next with
  | empty => exact absurd rfl hne
  | tree p below rest ihBelow ihRest =>
    obtain ⟨hstart, hstop⟩ := rest.startWithin_bounds h
    rw [place, numberedForest]
    refine ⟨rfl, hstart, ?_, ?_⟩
    · intro hbelow
      apply ihBelow _ hstart
      rintro rfl
      exact hbelow rfl
    · cases rest with
      | empty => rfl
      | tree q deeper others => exact ihRest (by simp) hstop _ _

/-- A number moved between two limits, which have to be in order. -/
def clamp? (earliest latest n : Nat) : Option Nat :=
  if earliest ≤ latest then some (max earliest (min n latest)) else none

/-- Where the first tree of a forest starts, if the limits are in order wherever there is a
reported start to move. -/
def startWithin? (earliest latest : Nat) : Forest Part → Option Nat
  | empty => some latest
  | tree p _ _ => clamp? earliest latest p.start

/-- Places the trees of a forest, if limits are in order wherever a start is moved between them. -/
def place? (start stop : Nat) : Forest Part → Option (Forest PlacedPart)
  | empty => some empty
  | tree p below rest => do
    let next ← rest.startWithin? start stop
    let placedBelow ← below.place? start next
    let placedRest ← rest.place? next stop
    return tree ⟨p, start, next⟩ placedBelow placedRest

theorem startWithin?_eq_some (f : Forest Part) {earliest latest : Nat} (h : earliest ≤ latest) :
    f.startWithin? earliest latest = some (f.startWithin earliest latest) := by
  cases f with
  | empty => rfl
  | tree p below rest => rw [startWithin?, clamp?, if_pos h, startWithin]

/-- Placing meets only limits in order. -/
theorem place?_eq_some (f : Forest Part) {start stop : Nat} (h : start ≤ stop) :
    f.place? start stop = some (f.place start stop) := by
  induction f generalizing start stop with
  | empty => rfl
  | tree p below rest ihBelow ihRest =>
    obtain ⟨hstart, hstop⟩ := rest.startWithin_bounds h
    simp only [place?, rest.startWithin?_eq_some h, Option.bind_eq_bind, Option.bind_some,
      ihBelow hstart, ihRest hstop, Option.pure_def, place]

end Forest

/-! ## Outlines built from spans -/

/-- A span has no fault if it fits the text. -/
theorem Span.fault?_eq_none_iff {s : Span} {length : Nat} :
    s.fault? length = none ↔ s.start ≤ s.stop ∧ s.stop ≤ length := by
  unfold fault?
  split
  · simp
    omega
  · split
    · simp
      omega
    · simp
      omega

/-- Spans in order of which none is ignored are kept as they are. -/
theorem keptSpans_eq_self {ignored : List String} {spans : List Span}
    (hkept : ∀ s ∈ spans, ¬ Ignores ignored s.tag)
    (hsorted : spans.Pairwise fun s s' => s.start ≤ s'.start) :
    keptSpans ignored spans = spans := by
  have hall : (spans.filter fun s => ¬ Ignores ignored s.tag) = spans :=
    List.filter_eq_self.2 fun s hs => decide_eq_true (hkept s hs)
  rw [keptSpans, hall]
  exact List.mergeSort_of_pairwise (hsorted.imp decide_eq_true)

namespace Outline

/-- The nodes of the outline tile the document at every level. -/
structure Tiled (o : Outline) : Prop where
  /-- The root occupies the whole document. -/
  root : ∃ r, o.rootNode? = some r ∧ r.start = 0 ∧ r.stop = o.length
  start_le_stop : ∀ n ∈ o.nodes.nodes, n.start ≤ n.stop
  /-- Every child that a node lists is stored under its own identifier. -/
  children_stored : ∀ n ∈ o.nodes.nodes, (o.childrenOf n).map (·.id) = n.children
  children_tile : ∀ n ∈ o.nodes.nodes, n.children ≠ [] →
    Tiles n.start n.stop ((o.childrenOf n).map Node.stretch)
  leaves_tile : Tiles 0 o.length (o.leaves.map Node.stretch)

/-- Every child that a node of a spelled forest lists is stored. -/
theorem Spells.map_id_childrenOf {o : Outline} {f : Forest Node} (h : o.Spells f) {n : Node}
    (hn : n ∈ f.preorder) : (o.childrenOf n).map (·.id) = n.children := by
  induction f with
  | empty => exact absurd hn List.not_mem_nil
  | tree m below rest ihBelow ihRest =>
    have hchildren := h.childrenOf_eq
    obtain ⟨-, hids, hbelow, hrest⟩ := h
    rw [Forest.preorder, List.mem_cons, List.mem_append] at hn
    rcases hn with rfl | hn | hn
    · rw [hchildren, hids]
    · exact ihBelow hbelow hn
    · exact ihRest hrest hn

/-- A tree that is tiled from the start of the document to its end. -/
structure IsTiledTree (o : Outline) (root : Node) (below : Forest Node) : Prop
    extends o.IsTree root below where
  tiled : (Forest.tree root below .empty).Tiled 0 o.length

theorem IsTiledTree.root_start {o : Outline} {root : Node} {below : Forest Node}
    (h : o.IsTiledTree root below) : root.start = 0 :=
  h.tiled.1

theorem IsTiledTree.root_stop {o : Outline} {root : Node} {below : Forest Node}
    (h : o.IsTiledTree root below) : root.stop = o.length :=
  h.tiled.2.2.2

theorem IsTiledTree.tiled_outline {o : Outline} {root : Node} {below : Forest Node}
    (h : o.IsTiledTree root below) : o.Tiled where
  root := ⟨root, h.rootNode?_eq, h.root_start, h.root_stop⟩
  start_le_stop := by
    intro n hn
    exact (h.tiled.bounds (h.mem_nodes_iff.1 hn)).2.1
  children_stored := by
    intro n hn
    exact h.spells.map_id_childrenOf (h.mem_nodes_iff.1 hn)
  children_tile := by
    intro n hn hleaf
    exact h.tiled.children_tile h.spells (h.mem_nodes_iff.1 hn) hleaf
  leaves_tile := by
    rw [h.leaves_eq]
    exact h.tiled.leaves_tile h.spells

/-- Built from some spans over some text. -/
def IsBuilt (o : Outline) : Prop :=
  ∃ ignored spans text, build ignored spans text = .ok o

theorem build_eq_ok {ignored : List String} {spans : List Span} {text : List Char} {o : Outline}
    (h : build ignored spans text = .ok o) :
    o = ofPartTree text.length (partTree text.length (keptSpans ignored spans)) := by
  unfold build at h
  split at h
  · exact absurd h (by simp)
  · exact (Except.ok.inj h).symm

/-- Spans that fit the text are no error. -/
theorem build_of_fits (ignored : List String) {spans : List Span} {text : List Char}
    (h : ∀ s ∈ spans, s.start ≤ s.stop ∧ s.stop ≤ text.length) :
    build ignored spans text =
      .ok (ofPartTree text.length (partTree text.length (keptSpans ignored spans))) := by
  have hnone : spans.findSome? (·.fault? text.length) = none := by
    refine List.findSome?_eq_none_iff.2 fun s hs => ?_
    exact Span.fault?_eq_none_iff.2 (h s hs)
  rw [build, hnone]

/-- Spans from which an outline is built fit the text. -/
theorem fits_of_build {ignored : List String} {spans : List Span} {text : List Char} {o : Outline}
    (h : build ignored spans text = .ok o) :
    ∀ s ∈ spans, s.start ≤ s.stop ∧ s.stop ≤ text.length := by
  unfold build at h
  split at h
  · cases h
  · rename_i hnone
    exact fun s hs => Span.fault?_eq_none_iff.1 (List.findSome?_eq_none_iff.1 hnone s hs)

/-- The placed forest below the root of a tree of parts. -/
def placedBelow (length : Nat) (tree : Part × Forest Part) : Forest PlacedPart :=
  (frame tree.1 tree.2 tree.2.framed).place 0 length

/-- The nodes below the root of a tree of parts. -/
def nodesBelow (length : Nat) (tree : Part × Forest Part) : Forest Node :=
  (placedBelow length tree).numberedForest (some ⟨0⟩) 1

/-- The root node of a tree of parts. -/
def nodeAbove (length : Nat) (tree : Part × Forest Part) : Node :=
  PlacedPart.node ⟨tree.1, 0, length⟩ none 0 (placedBelow length tree)

/-- The outline of a tree of parts is the tiled tree of what placing makes of the parts. -/
theorem isTiledTree_ofPartTree (length : Nat) (tree : Part × Forest Part) :
    (ofPartTree length tree).IsTiledTree (nodeAbove length tree) (nodesBelow length tree) := by
  refine ⟨isTree_ofTree length _ _, rfl, Nat.zero_le _, ?_, rfl⟩
  intro hne
  apply Forest.tiled_place _ _ (Nat.zero_le _)
  intro hempty
  rw [nodesBelow, placedBelow, hempty] at hne
  exact hne rfl

theorem IsBuilt.exists_eq_ofPartTree {o : Outline} (h : o.IsBuilt) :
    ∃ length tree, o = ofPartTree length tree := by
  obtain ⟨ignored, spans, text, hbuild⟩ := h
  exact ⟨_, _, build_eq_ok hbuild⟩

/-- An outline that is built from spans is a tiled tree whose nodes know their parents. -/
theorem IsBuilt.exists_linked {o : Outline} (h : o.IsBuilt) :
    ∃ root below, o.IsTiledTree root below ∧ (Forest.tree root below .empty).Linked none := by
  obtain ⟨length, tree, rfl⟩ := h.exists_eq_ofPartTree
  refine ⟨_, _, isTiledTree_ofPartTree length tree, ?_⟩
  exact Forest.linked_numberedForest none 0
    (.tree ⟨tree.1, 0, length⟩ (placedBelow length tree) .empty)

theorem IsBuilt.isTiledTree {o : Outline} (h : o.IsBuilt) :
    ∃ root below, o.IsTiledTree root below := by
  obtain ⟨root, below, htree, -⟩ := h.exists_linked
  exact ⟨root, below, htree⟩

/-- The outline of a document with these parts, if limits are in order wherever placing moves a
reported start between them. -/
def ofPartTree? (length : Nat) (tree : Part × Forest Part) : Option Outline :=
  ((frame tree.1 tree.2 tree.2.framed).place? 0 length).map (ofTree length ⟨tree.1, 0, length⟩)

/-- An outline built from spans tiles the document at every level, whatever the spans, and the
limits between which placing moves reported starts are always in order. -/
theorem build_tiled (ignored : List String) (spans : List Span) (text : List Char) (o : Outline)
    (h : build ignored spans text = .ok o) :
    o.length = text.length ∧ o.Tiled ∧
      ofPartTree? text.length (partTree text.length (keptSpans ignored spans)) = some o := by
  obtain ⟨root, below, htree⟩ := IsBuilt.isTiledTree ⟨ignored, spans, text, h⟩
  have ho := build_eq_ok h
  refine ⟨?_, htree.tiled_outline, ?_⟩
  · rw [ho]
    rfl
  · rw [ofPartTree?, Forest.place?_eq_some _ (Nat.zero_le _), Option.map_some, ho]
    rfl

/-- Spans that cross, have no characters, or repeat the document further inside. -/
def crossingSpans : List Span :=
  [⟨"Paragraph", 0, 5⟩, ⟨"Emphasis", 3, 7⟩, ⟨"Document", 2, 6⟩, ⟨"Paragraph", 4, 4⟩,
    ⟨"Emphasis", 1, 2⟩]

theorem build_tiled_crossingSpans :
    ∃ o, build defaultIgnored crossingSpans (List.replicate 8 'x') = .ok o ∧
      o.length = 8 ∧ o.Tiled ∧
      ofPartTree? 8 (partTree 8 (keptSpans defaultIgnored crossingSpans)) = some o :=
  ⟨_, rfl, build_tiled defaultIgnored crossingSpans (List.replicate 8 'x') _ rfl⟩

end Outline

end SelectionLadder
