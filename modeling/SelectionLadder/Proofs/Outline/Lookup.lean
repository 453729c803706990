import Mathlib.Data.List.Chain
import SelectionLadder.Proofs.Outline.Chain

/-!
# Looking up an offset

A path takes the first child that holds the offset, at every level.  In an outline that is built
from spans no choice is ever wrong: siblings lie side by side, so what the first child that holds
an offset leaves out does not hold it.

* `Tiled.mem_descent_iff` is the induction: the descent to an offset before the end has all nodes
  of the forest that contain the offset.
* `Tiled.isLeaf_getLast?_descent`: the descent goes on until there is nothing below.
* `Tiled.descent_length`: at the end of the document the descent is the one to the last character.
  Nodes without characters stand there as well, but a node with characters comes before them.
* `Outline.pathAt_complete` says all of this of paths.
-/

namespace SelectionLadder

/-! ## Descents in tiled forests -/

namespace Forest

variable {f : Forest Node} {start stop x : Nat} {o : Outline}

/-- Before the end of the document the descent has exactly the nodes that contain the offset.  The
induction is on the forest: a root that contains the offset shuts out the roots after it, and one
that does not shuts out all that is below it. -/
theorem Tiled.mem_descent_iff (h : f.Tiled start stop) (hx : x < o.length) {n : Node} :
    n ∈ f.descent (o.Holds · x) ↔ n ∈ f.preorder ∧ n.start ≤ x ∧ x < n.stop := by
  induction f generalizing start stop with
  | empty => simp [descent, preorder]
  | tree m below rest ihBelow ihRest =>
    have hholds : o.Holds m x ↔ m.start ≤ x ∧ x < m.stop := by
      unfold Outline.Holds
      omega
    obtain ⟨-, -, hbelow, hrest⟩ := h
    have houtsideBelow : n ∈ below.preorder → m.start ≤ n.start ∧ n.stop ≤ m.stop := by
      intro hn
      have hne : below ≠ .empty := by
        rintro rfl
        exact List.not_mem_nil hn
      have := (hbelow hne).bounds hn
      omega
    have hinBelow : n ∈ below.descent (o.Holds · x) ↔
        n ∈ below.preorder ∧ n.start ≤ x ∧ x < n.stop := by
      cases below with
      | empty => simp [descent, preorder]
      | tree m' below' rest' => exact ihBelow (hbelow (by simp))
    rw [descent, preorder, List.mem_cons, List.mem_append]
    by_cases hm : o.Holds m x
    · rw [if_pos hm, List.mem_cons, hinBelow]
      rw [hholds] at hm
      constructor
      · rintro (rfl | ⟨hn, hin⟩)
        · exact ⟨Or.inl rfl, hm⟩
        · exact ⟨Or.inr (Or.inl hn), hin⟩
      · rintro ⟨rfl | hn | hn, hin⟩
        · exact Or.inl rfl
        · exact Or.inr ⟨hn, hin⟩
        · have := hrest.bounds hn
          omega
    · rw [if_neg hm, ihRest hrest]
      rw [hholds] at hm
      constructor
      · rintro ⟨hn, hin⟩
        exact ⟨Or.inr (Or.inr hn), hin⟩
      · rintro ⟨rfl | hn | hn, hin⟩
        · exact absurd hin hm
        · have := houtsideBelow hn
          omega
        · exact ⟨hn, hin⟩

/-- A descent that starts does not stop before it is at a leaf: the roots below a node tile it, so
one of them holds the offset as well. -/
theorem Tiled.isLeaf_getLast?_descent (hspells : o.Spells f) (h : f.Tiled start stop) {n : Node}
    (hn : n ∈ (f.descent (o.Holds · x)).getLast?) : n.IsLeaf := by
  induction f generalizing start stop with
  | empty => exact absurd hn (by simp [descent])
  | tree m below rest ihBelow ihRest =>
    have hleaf := hspells.isLeaf_iff
    obtain ⟨-, -, hspellsBelow, hspellsRest⟩ := hspells
    obtain ⟨-, -, hbelow, hrest⟩ := h
    rw [descent] at hn
    split at hn
    · rename_i hm
      by_cases hempty : below = .empty
      · rw [hempty] at hn
        obtain rfl : m = n := Option.some.inj hn
        exact hleaf.2 hempty
      · obtain ⟨r, hr, hholds⟩ := (hbelow hempty).exists_root hempty hm.1 hm.2
        have hfound : (below.descent (o.Holds · x)).head? ≠ none := by
          rw [head?_descent]
          intro hnone
          exact absurd hholds (by simpa using List.find?_eq_none.1 hnone r hr)
        obtain ⟨first, others, hdescent⟩ :=
          List.ne_nil_iff_exists_cons.1 fun hnil => hfound (List.head?_eq_none_iff.2 hnil)
        apply ihBelow hspellsBelow (hbelow hempty)
        rw [hdescent] at hn ⊢
        rwa [List.getLast?_cons_cons] at hn
    · exact ihRest hspellsRest hrest hn

/-- The descent to the end of the document is the one to its last character, if the forest has
characters: the first root that stops at the end is the one with the last of them. -/
theorem Tiled.descent_length (h : f.Tiled start stop) (hstart : start < o.length)
    (hstop : stop ≤ o.length) :
    f.descent (o.Holds · o.length) = f.descent (o.Holds · (o.length - 1)) := by
  induction f generalizing start stop with
  | empty => rfl
  | tree m below rest ihBelow ihRest =>
    obtain ⟨rfl, -, hbelow, hrest⟩ := h
    have hmstop := hrest.start_le_stop
    have hholds : o.Holds m o.length ↔ o.Holds m (o.length - 1) := by
      unfold Outline.Holds
      omega
    have hinBelow : below.descent (o.Holds · o.length) =
        below.descent (o.Holds · (o.length - 1)) := by
      cases below with
      | empty => rfl
      | tree m' below' rest' => exact ihBelow (hbelow (by simp)) hstart (by omega)
    rw [descent, descent]
    by_cases hm : o.Holds m o.length
    · rw [if_pos hm, if_pos (hholds.1 hm), hinBelow]
    · rw [if_neg hm, if_neg fun hm' => hm (hholds.2 hm')]
      apply ihRest hrest _ hstop
      unfold Outline.Holds at hm
      omega

/-- Past the end of the document there is no node. -/
theorem Tiled.descent_eq_nil (h : f.Tiled start stop) (hstop : stop ≤ o.length)
    (hx : o.length < x) : f.descent (o.Holds · x) = [] := by
  rw [List.eq_nil_iff_forall_not_mem]
  intro n hn
  have hbounds := h.bounds (mem_preorder_of_mem_descent hn)
  obtain ⟨-, hless | ⟨hend, -⟩⟩ := holds_of_mem_descent hn
  · omega
  · omega

/-- On the way down each node is a child of the one before it, and knows that. -/
theorem Linked.isChain_descent {parent : Option NodeId} (h : f.Linked parent)
    (hspells : o.Spells f) (holds : Node → Prop) [DecidablePred holds] :
    (f.descent holds).IsChain fun a b => b.parent = some a.id ∧ b ∈ o.childrenOf a := by
  induction f generalizing parent with
  | empty => exact List.IsChain.nil
  | tree n below rest ihBelow ihRest =>
    have hchildren := hspells.childrenOf_eq
    obtain ⟨-, -, hspellsBelow, hspellsRest⟩ := hspells
    obtain ⟨-, hbelow, hrest⟩ := h
    rw [descent]
    split
    · rw [List.isChain_cons]
      refine ⟨?_, ihBelow hbelow hspellsBelow⟩
      intro m hm
      rw [head?_descent] at hm
      have hroot : m ∈ below.roots := List.mem_of_find?_eq_some hm
      exact ⟨hbelow.parent_of_mem_roots hroot, hchildren ▸ hroot⟩
    · exact ihRest hrest hspellsRest

end Forest

/-! ## Paths -/

namespace Outline

variable {o : Outline} {root : Node} {below : Forest Node} {x : Nat}

/-- The nodes lead from the root to a leaf, and each is the parent of the next. -/
structure IsBranch (o : Outline) (path : List Node) : Prop where
  head : path.head? = o.rootNode?
  parents : path.IsChain fun a b => b.parent = some a.id ∧ b ∈ o.childrenOf a
  leaf : ∃ n, path.getLast? = some n ∧ n.IsLeaf

/-- The node at an offset is the last one on the path there. -/
theorem nodeAt?_eq_getLast? {path : List Node} (hpath : o.pathAt x = path.map (·.id))
    (hstored : ∀ n ∈ path, o.node? n.id = some n) : o.nodeAt? x = path.getLast? := by
  obtain ⟨n, hn⟩ : ∃ n, path.getLast? = some n := by
    cases hlast : path.getLast? with
    | some n => exact ⟨n, rfl⟩
    | none =>
      rw [List.getLast?_eq_none_iff.1 hlast] at hpath
      exact absurd hpath (by simp [pathAt])
  rw [nodeAt?, hpath, List.getLast?_map, hn, Option.map_some, Option.bind_some,
    hstored n (List.mem_of_getLast? hn), Option.some_or]

namespace IsTiledTree

theorem holds_root (h : o.IsTiledTree root below) (hx : x ≤ o.length) : o.Holds root x := by
  have hstart := h.root_start
  have hstop := h.root_stop
  unfold Holds
  omega

/-- Up to the end of the document a path is the descent in the whole tree. -/
theorem pathAt_eq_descent (h : o.IsTiledTree root below) (hx : x ≤ o.length) :
    o.pathAt x = ((Forest.tree root below .empty).descent (o.Holds · x)).map (·.id) := by
  rw [h.pathAt_eq, Forest.descent, if_pos (h.holds_root hx)]

theorem nodeAt?_eq_descent (h : o.IsTiledTree root below) (hx : x ≤ o.length) :
    o.nodeAt? x = ((Forest.tree root below .empty).descent (o.Holds · x)).getLast? := by
  apply nodeAt?_eq_getLast? (h.pathAt_eq_descent hx)
  intro n hn
  exact h.spells.node?_eq (Forest.mem_preorder_of_mem_descent hn)

theorem isBranch_descent (h : o.IsTiledTree root below)
    (hlinked : (Forest.tree root below .empty).Linked none) (hx : x ≤ o.length) :
    o.IsBranch ((Forest.tree root below .empty).descent (o.Holds · x)) where
  head := by
    rw [Forest.descent, if_pos (h.holds_root hx), h.rootNode?_eq, List.head?_cons]
  parents := hlinked.isChain_descent h.spells _
  leaf := by
    cases hlast : ((Forest.tree root below .empty).descent (o.Holds · x)).getLast? with
    | some n => exact ⟨n, rfl, h.tiled.isLeaf_getLast?_descent h.spells hlast⟩
    | none =>
      rw [List.getLast?_eq_none_iff, Forest.descent, if_pos (h.holds_root hx)] at hlast
      exact absurd hlast (by simp)

theorem nodup_descent (h : o.IsTiledTree root below) (holds : Node → Prop)
    [DecidablePred holds] : ((Forest.tree root below .empty).descent holds).Nodup :=
  (List.Nodup.of_map _ h.nodup).sublist (Forest.descent_sublist _)

end IsTiledTree

/-- In an outline that is built from spans a path has exactly the nodes that contain the offset.
It leads from the root to a leaf, which is the node at the offset.  The path to the end of the
document is the one to its last character; in an empty document it leads to a leaf as well; and
past the end there is only the root. -/
theorem pathAt_complete (h : o.IsBuilt) :
    (∀ x < o.length, ∃ path, o.pathAt x = path.map (·.id) ∧ o.IsBranch path ∧ path.Nodup ∧
      (∀ n, n ∈ path ↔ n ∈ o.nodes.nodes ∧ n.start ≤ x ∧ x < n.stop) ∧
      o.nodeAt? x = path.getLast?) ∧
    (0 < o.length → o.pathAt o.length = o.pathAt (o.length - 1)) ∧
    (o.length = 0 → ∃ path, o.pathAt 0 = path.map (·.id) ∧ o.IsBranch path ∧
      o.nodeAt? 0 = path.getLast?) ∧
    ∀ x, o.length < x → o.pathAt x = [o.root] ∧ ∃ n, o.rootNode? = some n ∧
      o.nodeAt? x = some n := by
  obtain ⟨root, below, htree, hlinked⟩ := h.exists_linked
  refine ⟨?_, ?_, ?_, ?_⟩
  · intro x hx
    refine ⟨_, htree.pathAt_eq_descent (Nat.le_of_lt hx),
      htree.isBranch_descent hlinked (Nat.le_of_lt hx), htree.nodup_descent _, ?_,
      htree.nodeAt?_eq_descent (Nat.le_of_lt hx)⟩
    intro n
    rw [htree.tiled.mem_descent_iff hx, htree.mem_nodes_iff]
  · intro hpos
    rw [htree.pathAt_eq_descent (Nat.le_refl _), htree.pathAt_eq_descent (Nat.sub_le _ _),
      htree.tiled.descent_length hpos (Nat.le_refl _)]
  · intro hzero
    exact ⟨_, htree.pathAt_eq_descent (Nat.zero_le _),
      htree.isBranch_descent hlinked (Nat.zero_le _),
      htree.nodeAt?_eq_descent (Nat.zero_le _)⟩
  · intro x hx
    have hbelow : below.descent (o.Holds · x) = [] := by
      cases below with
      | empty => rfl
      | tree n deeper rest =>
        exact (htree.tiled_below (by simp)).descent_eq_nil (Nat.le_refl _) hx
    have hpath : o.pathAt x = [root].map (·.id) := by
      rw [htree.pathAt_eq, hbelow]
    refine ⟨hpath.trans (by rw [htree.root_eq, List.map_singleton]), root, htree.rootNode?_eq, ?_⟩
    apply nodeAt?_eq_getLast? hpath
    intro n hn
    rw [List.mem_singleton.1 hn]
    exact htree.spells.1

/-- Units without characters at both ends of a text. -/
def edgeSpans : List Span :=
  [⟨"Paragraph", 0, 0⟩, ⟨"Emphasis", 0, 0⟩, ⟨"Paragraph", 0, 5⟩, ⟨"Paragraph", 5, 5⟩]

theorem pathAt_complete_edgeSpans :
    ∃ o, build defaultIgnored edgeSpans "abcde".toList = .ok o ∧
      (∃ path, o.pathAt 4 = path.map (·.id) ∧ o.IsBranch path ∧ path.Nodup ∧
        (∀ n, n ∈ path ↔ n ∈ o.nodes.nodes ∧ n.start ≤ 4 ∧ 4 < n.stop) ∧
        o.nodeAt? 4 = path.getLast?) ∧
      o.pathAt 5 = o.pathAt 4 ∧ o.pathAt 6 = [o.root] := by
  refine ⟨_, rfl, ?_⟩
  obtain ⟨hinside, hend, -, hpast⟩ :=
    pathAt_complete ⟨defaultIgnored, edgeSpans, "abcde".toList, rfl⟩
  exact ⟨hinside 4 (Nat.lt_succ_self 4), hend (Nat.succ_pos 4), (hpast 6 (Nat.lt_succ_self 5)).1⟩

end Outline

end SelectionLadder
