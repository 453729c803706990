import SelectionLadder.Engine.Structure
import SelectionLadder.Proofs.Containment
import SelectionLadder.Proofs.Outline.Validity
import SelectionLadder.Proofs.Text.Tiers

/-!
# The nodes around an offset

The ranges of the nodes on the way down to an offset lie inside each other, and at the top of them
stands a block, which is a child of the root.

* `Outline.chainAt` is the list that commands look at, from the deepest node upwards.  In a tiled
  tree it is the descent of the tree, read backwards (`IsTiledTree.chainAt_eq`).
* `IsSound.holds_of_mem_chainAt` and `IsTiledTree.pairwise_chainAt`: all ranges of the chain hold
  the position that was looked up, and each lies in those after it.
* `IsTiledTree.blocksOver?_of_getLast?`: the blocks at the two ends of a block are that block.
-/

namespace SelectionLadder

/-! ## Tiled forests -/

namespace Forest

variable {f : Forest Node} {start stop : Nat}

/-- On the way down each node lies in the one before it. -/
theorem Tiled.pairwise_descent (h : f.Tiled start stop) (holds : Node → Prop)
    [DecidablePred holds] :
    (f.descent holds).Pairwise fun a b => a.start ≤ b.start ∧ b.stop ≤ a.stop := by
  induction f generalizing start stop with
  | empty => exact List.Pairwise.nil
  | tree n below rest ihBelow ihRest =>
    obtain ⟨-, -, hbelow, hrest⟩ := h
    rw [descent]
    split
    · cases below with
      | empty => exact List.pairwise_singleton _ _
      | tree m deeper others =>
        have htiled := hbelow (by simp)
        rw [List.pairwise_cons]
        refine ⟨?_, ihBelow htiled⟩
        intro b hb
        have := htiled.bounds (mem_preorder_of_mem_descent hb)
        omega
    · exact ihRest hrest

/-- Every offset of a tiled stretch lies in a root, and so does its end if the document ends
there. -/
theorem Tiled.exists_root (h : f.Tiled start stop) (hne : f ≠ .empty) {o : Outline} {x : Nat}
    (hstart : start ≤ x) (hstop : x < stop ∨ x = o.length ∧ stop = o.length) :
    ∃ n ∈ f.roots, o.Holds n x := by
  induction f generalizing start with
  | empty => exact absurd rfl hne
  | tree n below rest _ ihRest =>
    obtain ⟨rfl, -, -, hrest⟩ := h
    by_cases hx : x < n.stop
    · exact ⟨n, List.mem_cons_self, hstart, Or.inl hx⟩
    · cases rest with
      | empty =>
        have hend : n.stop = stop := hrest
        refine ⟨n, List.mem_cons_self, hstart, ?_⟩
        rw [hend]
        exact hstop
      | tree m deeper others =>
        obtain ⟨r, hr, hholds⟩ := ihRest hrest (by simp) (by omega)
        exact ⟨r, List.mem_cons_of_mem n hr, hholds⟩

/-- A root is the first one that holds an offset which is less than its end: the roots before it
stop where it starts or earlier. -/
theorem Tiled.find?_roots (h : f.Tiled start stop) {o : Outline} (hlength : stop ≤ o.length)
    {n : Node} (hn : n ∈ f.roots) {x : Nat} (hstart : n.start ≤ x) (hstop : x < n.stop) :
    f.roots.find? (fun m => o.Holds m x) = some n := by
  induction f generalizing start with
  | empty => exact absurd hn List.not_mem_nil
  | tree m below rest _ ihRest =>
    obtain ⟨hm, hle, hbelow, hrest⟩ := h
    rw [roots, List.find?_cons]
    by_cases hmn : n = m
    · subst hmn
      have hholds : o.Holds n x := ⟨hstart, Or.inl hstop⟩
      simp [hholds]
    · have hmem : n ∈ rest.roots := (List.mem_cons.1 hn).resolve_left hmn
      have hbounds := hrest.bounds (mem_preorder_of_mem_roots hmem)
      have hnot : ¬ o.Holds m x := by
        rintro ⟨-, hless | ⟨hend, -⟩⟩
        · omega
        · omega
      simp only [hnot, decide_false]
      exact ihRest hrest hmem

end Forest

/-! ## Ranges of stretches -/

namespace Text

variable {t : Text}

theorem rangeAt_start {m n : Nat} (h : m ≤ n) : (t.rangeAt m n).start = t.positionAt m := by
  rw [rangeAt, Range.spanning_of_le (t.positionAt_mono h)]

theorem rangeAt_stop {m n : Nat} (h : m ≤ n) : (t.rangeAt m n).stop = t.positionAt n := by
  rw [rangeAt, Range.spanning_of_le (t.positionAt_mono h)]

/-- Whatever the offsets, the range between them is a range of the text. -/
theorem has_rangeAt (t : Text) (m n : Nat) : t.Has (t.rangeAt m n) := by
  unfold rangeAt Range.spanning
  split
  · exact ⟨t.inside_positionAt m, t.inside_positionAt n⟩
  · exact ⟨t.inside_positionAt n, t.inside_positionAt m⟩

/-- The range between two offsets holds the positions between them. -/
theorem rangeAt_holds {m n : Nat} {p : Position} (hp : t.Inside p) (hm : m ≤ t.offsetAt p)
    (hn : t.offsetAt p ≤ n) : (t.rangeAt m n).Holds p := by
  have hstart := t.positionAt_mono hm
  have hstop := t.positionAt_mono hn
  rw [positionAt_offsetAt_of_inside hp] at hstart hstop
  refine ⟨?_, ?_⟩
  · rw [rangeAt_start (hm.trans hn)]
    exact hstart
  · rw [rangeAt_stop (hm.trans hn)]
    exact hstop

theorem rangeAt_contains {m n m' n' : Nat} (hm : m ≤ m') (hmn : m' ≤ n') (hn : n' ≤ n) :
    (t.rangeAt m n).Contains (t.rangeAt m' n') := by
  have hle : m ≤ n := hm.trans (hmn.trans hn)
  refine ⟨?_, ?_⟩
  · rw [rangeAt_start hle, rangeAt_start hmn]
    exact t.positionAt_mono hm
  · rw [rangeAt_stop hle, rangeAt_stop hmn]
    exact t.positionAt_mono hn

end Text

/-! ## The chain of an offset -/

namespace Outline

variable {o : Outline} {t : Text} {r : Range} {p : Position}

/-- The ranges of the nodes on the path to an offset, from the deepest upwards and without the
root. -/
def chainAt (o : Outline) (t : Text) (offset : Nat) : List Range :=
  ((o.pathAt offset).tail.reverse).filterMap (o.rangeOf? t)

/-- The nodes on a descent hold the offset and are found under their own identifiers.  The
induction is on the steps that are left. -/
theorem IsSound.holds_of_mem_descend (h : o.IsSound) {offset depth : Nat} {id : NodeId}
    {found : NodeId} (hfound : found ∈ o.descend offset depth id) :
    ∃ n, o.node? found = some n ∧ o.Holds n offset := by
  induction depth generalizing id with
  | zero => exact absurd hfound List.not_mem_nil
  | succ depth ih =>
    rw [descend] at hfound
    split at hfound
    · exact absurd hfound List.not_mem_nil
    · rename_i child hchild
      rcases List.mem_cons.1 hfound with rfl | hfound
      · have hmem : child ∈ o.children id := List.mem_of_find?_eq_some hchild
        have hholds : o.Holds child offset := by simpa using List.find?_some hchild
        refine ⟨child, ?_, hholds⟩
        unfold children at hmem
        cases hparent : o.node? id with
        | none =>
          rw [hparent] at hmem
          exact absurd hmem List.not_mem_nil
        | some parent =>
          rw [hparent] at hmem
          exact h parent (mem_nodes_of_node? hparent) child hmem
      · exact ih hfound

/-- In a sound outline the ranges of a chain are those of nodes that hold the offset. -/
theorem IsSound.exists_of_mem_chainAt (h : o.IsSound) {offset : Nat}
    (hr : r ∈ o.chainAt t offset) :
    ∃ n, o.Holds n offset ∧ r = t.rangeAt n.start n.stop := by
  obtain ⟨id, hid, hrange⟩ := List.mem_filterMap.1 hr
  rw [List.mem_reverse, pathAt, List.tail_cons] at hid
  obtain ⟨root, -, hpath⟩ : ∃ root, o.rootNode? = some root ∧
      id ∈ o.descend offset o.nodes.size root.id := by
    cases hroot : o.rootNode? with
    | none =>
      rw [hroot] at hid
      exact absurd hid List.not_mem_nil
    | some root =>
      rw [hroot] at hid
      exact ⟨root, rfl, hid⟩
  obtain ⟨n, hn, hholds⟩ := h.holds_of_mem_descend hpath
  rw [rangeOf?, hn] at hrange
  exact ⟨n, hholds, (Option.some.inj hrange).symm⟩

/-- They hold the position that was looked up. -/
theorem IsSound.holds_of_mem_chainAt (h : o.IsSound) (hp : t.Inside p)
    (hr : r ∈ o.chainAt t (t.offsetAt p)) : r.Holds p := by
  obtain ⟨n, ⟨hstart, hstop⟩, rfl⟩ := h.exists_of_mem_chainAt hr
  exact Text.rangeAt_holds hp hstart (by omega)

/-- Before the end of the document they go on after that position. -/
theorem IsSound.lt_stop_of_mem_chainAt (h : o.IsSound) (hlength : o.length = t.length)
    (hp : t.Inside p) (hend : t.offsetAt p < t.length) (hr : r ∈ o.chainAt t (t.offsetAt p)) :
    p < r.stop := by
  obtain ⟨n, ⟨hstart, hstop⟩, rfl⟩ := h.exists_of_mem_chainAt hr
  rw [Text.rangeAt_stop (by omega), ← Text.offsetAt_lt_offsetAt_iff hp (t.inside_positionAt _),
    Text.offsetAt_positionAt]
  omega

theorem has_of_mem_chainAt {offset : Nat} (hr : r ∈ o.chainAt t offset) : t.Has r := by
  obtain ⟨id, -, hid⟩ := List.mem_filterMap.1 hr
  obtain ⟨n, -, rfl⟩ := Option.map_eq_some_iff.1 hid
  exact t.has_rangeAt _ _

variable {root : Node} {below : Forest Node}

theorem IsTree.chainAt_eq (h : o.IsTree root below) (offset : Nat) :
    o.chainAt t offset =
      ((below.descent (o.Holds · offset)).map fun n => t.rangeAt n.start n.stop).reverse := by
  have hrange : ∀ n ∈ below.descent (o.Holds · offset),
      (o.rangeOf? t ∘ fun n => n.id) n = some (t.rangeAt n.start n.stop) := by
    intro n hn
    rw [Function.comp_apply, rangeOf?,
      h.spells.2.2.1.node?_eq (Forest.mem_preorder_of_mem_descent hn), Option.map_some]
  rw [chainAt, h.pathAt_eq, List.map_cons, List.tail_cons, List.filterMap_reverse,
    List.filterMap_map, List.filterMap_congr hrange, List.filterMap_eq_map']

/-- The block at an offset is the first root below that holds it. -/
theorem IsTree.blockAt?_eq (h : o.IsTree root below) (offset : Nat) :
    o.blockAt? t offset =
      (below.roots.find? fun n => o.Holds n offset).map fun n => t.rangeAt n.start n.stop := by
  rw [blockAt?, h.pathAt_eq, ← Forest.head?_descent]
  cases hdescent : below.descent (o.Holds · offset) with
  | nil => rfl
  | cons n rest =>
    have hn : n ∈ below.descent (o.Holds · offset) := by
      rw [hdescent]
      exact List.mem_cons_self
    have hnode := h.spells.2.2.1.node?_eq (Forest.mem_preorder_of_mem_descent hn)
    simp only [List.map_cons, List.getElem?_cons_succ, List.getElem?_cons_zero,
      Option.bind_some, rangeOf?, hnode, Option.map_some, List.head?_cons]

/-- At the top of the chain stands the block. -/
theorem IsTree.getLast?_chainAt (h : o.IsTree root below) (offset : Nat) :
    (o.chainAt t offset).getLast? = o.blockAt? t offset := by
  rw [h.chainAt_eq, h.blockAt?_eq, List.getLast?_reverse, List.head?_map, Forest.head?_descent]

namespace IsTiledTree

variable {offset : Nat}

/-- The children of the root tile the document. -/
theorem tiled_below (h : o.IsTiledTree root below) (hne : below ≠ .empty) :
    below.Tiled 0 o.length := by
  have hbelow := h.tiled.2.2.1 hne
  rwa [h.root_start, h.root_stop] at hbelow

/-- Each range of a chain lies in those after it. -/
theorem pairwise_chainAt (h : o.IsTiledTree root below) :
    (o.chainAt t offset).Pairwise fun u v => v.Contains u := by
  have hdescent : (below.descent (o.Holds · offset)).Pairwise fun a b =>
      a.start ≤ b.start ∧ b.stop ≤ a.stop := by
    cases below with
    | empty => exact List.Pairwise.nil
    | tree n deeper rest => exact (h.tiled_below (by simp)).pairwise_descent _
  rw [h.chainAt_eq, List.pairwise_reverse, List.pairwise_map]
  apply hdescent.imp_of_mem
  intro a b _ hb hab
  have hmem : b ∈ below.preorder := Forest.mem_preorder_of_mem_descent hb
  have hbounds := h.tiled.bounds (List.mem_cons_of_mem root (List.mem_append_left _ hmem))
  exact Text.rangeAt_contains hab.1 hbounds.2.1 hab.2

/-- The blocks over a range are the one that holds its first character and the one that holds its
last. -/
theorem blocksOver?_eq (h : o.IsTiledTree root below) {m n : Node} (hm : m ∈ below.roots)
    (hn : n ∈ below.roots)
    (hfirst : m.start ≤ t.offsetAt r.start ∧ t.offsetAt r.start < m.stop)
    (hlast : n.start ≤ max (t.offsetAt r.stop - 1) (t.offsetAt r.start) ∧
      max (t.offsetAt r.stop - 1) (t.offsetAt r.start) < n.stop) :
    o.blocksOver? t r =
      some ((t.rangeAt m.start m.stop).union (t.rangeAt n.start n.stop)) := by
  have hbelow : below ≠ .empty := by
    rintro rfl
    exact List.not_mem_nil hm
  have htiled := h.tiled_below hbelow
  have hblock : ∀ k ∈ below.roots, ∀ x, k.start ≤ x ∧ x < k.stop →
      o.blockAt? t x = some (t.rangeAt k.start k.stop) := by
    intro k hk x hx
    rw [h.blockAt?_eq, htiled.find?_roots (Nat.le_refl _) hk hx.1 hx.2, Option.map_some]
  simp only [blocksOver?, Option.bind_eq_bind]
  rw [hblock m hm _ hfirst, hblock n hn _ hlast]
  rfl

/-- The blocks over a block are that block: both its first and its last offset lie in no other. -/
theorem blocksOver?_of_getLast? (h : o.IsTiledTree root below) (hlength : o.length = t.length)
    (hr : (o.chainAt t offset).getLast? = some r) (hne : ¬ r.IsEmpty) :
    o.blocksOver? t r = some r := by
  rw [h.getLast?_chainAt, h.blockAt?_eq] at hr
  obtain ⟨n, hn, rfl⟩ := Option.map_eq_some_iff.1 hr
  have hroot : n ∈ below.roots := List.mem_of_find?_eq_some hn
  have hbelow : below ≠ .empty := by
    rintro rfl
    exact List.not_mem_nil hroot
  have hbounds := (h.tiled_below hbelow).bounds (Forest.mem_preorder_of_mem_roots hroot)
  have hlt : n.start < n.stop := by
    rcases Nat.lt_or_eq_of_le hbounds.2.1 with hlt | heq
    · exact hlt
    · refine absurd ?_ hne
      rw [heq, Text.rangeAt, Range.spanning_self]
      exact Range.isEmpty_caret _
  have hfirst : t.offsetAt (t.rangeAt n.start n.stop).start = n.start := by
    rw [Text.rangeAt_start hbounds.2.1, Text.offsetAt_positionAt_of_le (by omega)]
  have hlast : t.offsetAt (t.rangeAt n.start n.stop).stop = n.stop := by
    rw [Text.rangeAt_stop hbounds.2.1, Text.offsetAt_positionAt_of_le (by omega)]
  rw [h.blocksOver?_eq hroot hroot (by omega) (by omega), Range.union_self]

/-- Where no node is found there is none below the root, and there are no blocks. -/
theorem blocksOver?_of_chainAt_eq_nil (h : o.IsTiledTree root below)
    (hnil : o.chainAt t offset = []) (hoffset : offset ≤ o.length) (r : Range) :
    o.blocksOver? t r = none := by
  have hempty : below = .empty := by
    by_contra hne
    have hend : offset < o.length ∨ offset = o.length ∧ o.length = o.length := by omega
    obtain ⟨n, hn, hholds⟩ := (h.tiled_below hne).exists_root hne (Nat.zero_le _) hend
    have hlast := h.getLast?_chainAt (t := t) offset
    rw [hnil, h.blockAt?_eq] at hlast
    have hnone : below.roots.find? (fun n => o.Holds n offset) = none :=
      Option.map_eq_none_iff.1 hlast.symm
    exact absurd hholds (by simpa using List.find?_eq_none.1 hnone n hn)
  have hblock : ∀ x, o.blockAt? t x = none := by
    intro x
    rw [h.blockAt?_eq, hempty]
    rfl
  simp only [blocksOver?, hblock, Option.bind_eq_bind, Option.bind_none]

end IsTiledTree

end Outline

end SelectionLadder
