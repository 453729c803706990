import Mathlib.Data.List.Nodup
import Mathlib.Data.List.Perm.Subperm
import SelectionLadder.Outline.Validity
import SelectionLadder.Proofs.Except
import SelectionLadder.Proofs.Outline.Tiling

/-!
# What validation is for

A query goes from a node to the identifiers of its children, and to the nodes stored under them.
It comes to the right nodes if every child is stored under the identifier that it has itself.

* `Outline.IsSound` says this of all stored nodes.  Outlines that are built from spans are sound
  (`IsBuilt.isSound`).
* `Outline.HasTree` says that the nodes that can be reached from the root are those of a tree, and
  `Outline.Stores` that there are no others.
* `Meets.step` is the step of the check: the trees of the children of a node, which come off the
  stack after it, go below the node.  `Ends.exists_hasTree` is the run: a check that comes to the
  end of its stack has met a tree.
* `Stores.perm_keys`: the keys are that of the root and the identifiers of the other nodes.
* `exists_stores_of_validate`: as many nodes are met as are stored, so an outline that passes the
  check stores the nodes of one tree.  Such an outline is sound (`isSound_of_validate`).
-/

namespace SelectionLadder.Outline

variable {o : Outline}

/-- Every child of a stored node is stored under the identifier that it has. -/
def IsSound (o : Outline) : Prop :=
  ∀ n ∈ o.nodes.nodes, ∀ child ∈ o.childrenOf n, o.node? child.id = some child

theorem mem_nodes_of_node? {id : NodeId} {n : Node} (h : o.node? id = some n) :
    n ∈ o.nodes.nodes :=
  List.mem_map.2 ⟨(id, n), o.nodes.find?_eq_some_iff.1 h, rfl⟩

theorem IsTree.isSound {root : Node} {below : Forest Node} (h : o.IsTree root below) :
    o.IsSound := by
  intro n _ child hchild
  obtain ⟨id, -, hid⟩ := List.mem_filterMap.1 hchild
  exact h.spells.node?_eq (h.mem_nodes_iff.1 (mem_nodes_of_node? hid))

/-- Outlines that are built from spans are sound. -/
theorem IsBuilt.isSound (h : o.IsBuilt) : o.IsSound := by
  obtain ⟨root, below, htree⟩ := h.isTiledTree
  exact htree.isSound

/-! ## Trees below a root -/

/-- The forest is what the outline has below the node: the node lists its roots, and all nodes in
it are stored under their own identifiers and know their parents. -/
structure HasBelow (o : Outline) (n : Node) (below : Forest Node) : Prop where
  lists : n.children = below.roots.map (·.id)
  spells : o.Spells below
  linked : below.Linked (some n.id)

/-- What can be reached from the root is one tree, and the identifiers in it differ.  The root may
have another identifier than the one that it is stored under. -/
structure HasTree (o : Outline) (root : Node) (below : Forest Node) : Prop
    extends o.HasBelow root below where
  rootNode?_eq : o.rootNode? = some root
  nodup : ((Forest.tree root below .empty).preorder.map (·.id)).Nodup

/-- The outline stores the nodes of this tree and no others. -/
structure Stores (o : Outline) (root : Node) (below : Forest Node) : Prop
    extends o.HasTree root below where
  perm : o.nodes.nodes.Perm (Forest.tree root below .empty).preorder

theorem HasBelow.childrenOf_eq {n : Node} {below : Forest Node} (h : o.HasBelow n below) :
    o.childrenOf n = below.roots := by
  rw [childrenOf, h.lists, h.spells.filterMap_roots]

theorem Stores.isSound {root : Node} {below : Forest Node} (h : o.Stores root below) :
    o.IsSound := by
  intro n hn child hchild
  apply h.spells.node?_eq
  rw [h.perm.mem_iff, Forest.preorder_tree_empty, List.mem_cons] at hn
  rcases hn with rfl | hn
  · rw [h.childrenOf_eq] at hchild
    exact Forest.mem_preorder_of_mem_roots hchild
  · exact h.spells.childrenOf_subset hn hchild

/-- The outline of a tree whose nodes know their parents stores the tree. -/
theorem IsTree.stores {root : Node} {below : Forest Node} (h : o.IsTree root below)
    (hlinked : below.Linked (some root.id)) : o.Stores root below :=
  ⟨⟨⟨h.spells.2.1, h.spells.2.2.1, hlinked⟩, h.rootNode?_eq, h.nodup⟩, h.perm⟩

/-! ## Checked children -/

theorem checkedChild_eq_ok {parent id : NodeId} {child : Node} :
    o.checkedChild parent id = .ok child ↔
      o.node? id = some child ∧ child.id = id ∧ child.parent = some parent := by
  unfold checkedChild node
  cases hnode : o.node? id with
  | none => simp [bind, Except.bind]
  | some n =>
    by_cases hmisplaced : n.id ≠ id ∨ n.parent ≠ some parent
    · simp only [bind, Except.bind, if_pos hmisplaced, throw, throwThe, MonadExceptOf.throw,
        reduceCtorEq, false_iff, Option.some.injEq]
      rintro ⟨rfl, hid, hparent⟩
      exact hmisplaced.elim (fun h => h hid) fun h => h hparent
    · simp only [bind, Except.bind, if_neg hmisplaced, pure, Except.pure, Except.ok.injEq,
        Option.some.injEq]
      rw [not_or, not_not, not_not] at hmisplaced
      constructor
      · rintro rfl
        exact ⟨rfl, hmisplaced⟩
      · exact fun h => h.1

/-- Children pass the check if they are stored under the identifiers that are listed, have these
identifiers themselves and know their parent. -/
theorem mapM_checkedChild_eq_ok {parent : NodeId} {ids : List NodeId} {below : List Node} :
    ids.mapM (o.checkedChild parent) = .ok below ↔ below.map (·.id) = ids ∧
      ∀ child ∈ below, o.node? child.id = some child ∧ child.parent = some parent := by
  rw [Except.mapM_eq_ok]
  constructor
  · intro h
    induction h with
    | nil => exact ⟨rfl, by simp⟩
    | cons hchild _ ih =>
      obtain ⟨hnode, rfl, hparent⟩ := checkedChild_eq_ok.1 hchild
      exact ⟨by rw [List.map_cons, ih.1], List.forall_mem_cons.2 ⟨⟨hnode, hparent⟩, ih.2⟩⟩
  · rintro ⟨rfl, hall⟩
    rw [List.forall₂_map_left_iff, List.forall₂_same]
    intro child hchild
    exact checkedChild_eq_ok.2 ⟨(hall child hchild).1, rfl, (hall child hchild).2⟩

theorem mapM_checkedChild_ne_unreachable {parent : NodeId} {ids : List NodeId} {count : Nat} :
    ids.mapM (o.checkedChild parent) ≠ .error (.unreachable count) := by
  induction ids with
  | nil => simp [pure, Except.pure]
  | cons id ids ih =>
    intro h
    rw [List.mapM_cons] at h
    cases hchild : o.checkedChild parent id with
    | error e =>
      simp only [hchild, bind, Except.bind] at h
      obtain rfl := Except.error.inj h
      unfold checkedChild node at hchild
      cases hnode : o.node? id <;> simp [hnode, bind, Except.bind] at hchild
      split at hchild <;> simp [throw, throwThe, MonadExceptOf.throw, pure, Except.pure] at hchild
    | ok child =>
      cases hrest : ids.mapM (o.checkedChild parent) with
      | error e =>
        simp only [hchild, hrest, bind, Except.bind] at h
        obtain rfl := Except.error.inj h
        exact ih hrest
      | ok rest => simp [hchild, hrest, bind, Except.bind, pure, Except.pure] at h

/-! ## Steps of a check -/

/-- The stretch of the node is one of the document. -/
def FitsDocument (o : Outline) (n : Node) : Prop := n.start ≤ n.stop ∧ n.stop ≤ o.length

/-- A node that fits and is met for the first time makes way for its checked children. -/
theorem check_cons {met : Nat} {openIds : List NodeId} {n : Node} {stack below : List Node}
    (hfits : o.FitsDocument n) (hopen : n.id ∈ openIds)
    (hbelow : n.children.mapM (o.checkedChild n.id) = .ok below) :
    o.check met openIds (n :: stack) =
      o.check (met + 1) (close openIds n.id) (below.reverse ++ stack) := by
  have hgood : ¬ (n.start > n.stop ∨ n.stop > o.length) := by
    unfold FitsDocument at hfits
    omega
  rw [check, if_neg hgood, if_pos hopen, hbelow]

/-- The check comes to the end of its stack. -/
def Ends (result : Except OutlineError Unit) : Prop :=
  result = .ok () ∨ ∃ count, result = .error (.unreachable count)

/-- The step of a check that comes to the end. -/
theorem Ends.of_check_cons {met : Nat} {openIds : List NodeId} {n : Node} {stack : List Node}
    (h : Ends (o.check met openIds (n :: stack))) :
    o.FitsDocument n ∧ n.id ∈ openIds ∧
      ∃ below, n.children.mapM (o.checkedChild n.id) = .ok below := by
  rw [check] at h
  split at h
  · simp [Ends] at h
  rename_i hgood
  split at h
  case isFalse => simp [Ends] at h
  case isTrue hopen =>
    refine ⟨by unfold FitsDocument; omega, hopen, ?_⟩
    split at h
    · rename_i e hbelow
      rcases h with h | ⟨count, h⟩
      · simp at h
      · obtain rfl := Except.error.inj h
        exact absurd hbelow mapM_checkedChild_ne_unreachable
    · rename_i below hbelow
      exact ⟨below, hbelow⟩

/-! ## What a check meets -/

/-- Below each root of the forest are the nodes that the outline has below it. -/
def Grown (o : Outline) : Forest Node → Prop
  | .empty => True
  | .tree n below rest => o.HasBelow n below ∧ o.Grown rest

theorem grown_append_iff {f g : Forest Node} : o.Grown (f ++ g) ↔ o.Grown f ∧ o.Grown g := by
  induction f with
  | empty => simp only [Forest.empty_append, Grown, true_and]
  | tree n below rest _ ihRest => simp only [Forest.tree_append, Grown, ihRest, and_assoc]

/-- A grown forest hangs below a node if its roots are the checked children of the node. -/
theorem Grown.hasBelow {f : Forest Node} (h : o.Grown f) {n : Node}
    (hroots : n.children.mapM (o.checkedChild n.id) = .ok f.roots) : o.HasBelow n f := by
  obtain ⟨hids, hstored⟩ := mapM_checkedChild_eq_ok.1 hroots
  clear hroots
  suffices hrest : o.Spells f ∧ f.Linked (some n.id) from ⟨hids.symm, hrest.1, hrest.2⟩
  clear hids
  induction f with
  | empty => exact ⟨trivial, trivial⟩
  | tree m below rest _ ihRest =>
    obtain ⟨hm, hgrown⟩ := h
    obtain ⟨hnode, hparent⟩ := hstored m List.mem_cons_self
    obtain ⟨hspells, hlinked⟩ := ihRest hgrown fun c hc => hstored c (List.mem_cons_of_mem _ hc)
    exact ⟨⟨hnode, hm.lists, hm.spells, hspells⟩, hparent, hm.linked, hlinked⟩

/-- What a check meets from a stack on: a forest with the nodes of the stack as its roots, the top
of the stack last. -/
structure Meets (o : Outline) (openIds : List NodeId) (stack : List Node) (f : Forest Node) :
    Prop where
  roots : f.roots = stack.reverse
  grown : o.Grown f
  nodup : (f.preorder.map (·.id)).Nodup
  opened : ∀ n ∈ f.preorder, n.id ∈ openIds
  fits : ∀ n ∈ f.preorder, o.FitsDocument n

/-- The step: a check closes the identifier of a node and puts its children onto the stack, so the
trees of the children come last, and go below the node. -/
theorem Meets.step {openIds : List NodeId} {n : Node} {stack below : List Node} {f : Forest Node}
    (hopen : n.id ∈ openIds) (hfits : o.FitsDocument n)
    (hbelow : n.children.mapM (o.checkedChild n.id) = .ok below)
    (h : o.Meets (close openIds n.id) (below.reverse ++ stack) f) :
    ∃ g, o.Meets openIds (n :: stack) g ∧ g.size = f.size + 1 := by
  have hroots := h.roots
  rw [List.reverse_append, List.reverse_reverse] at hroots
  obtain ⟨others, inner, rfl, hothers, hinner⟩ := Forest.roots_eq_append hroots
  obtain ⟨hgrownOthers, hgrownInner⟩ := grown_append_iff.1 h.grown
  have hperm : (others ++ .tree n inner .empty).preorder.Perm
      (n :: (others ++ inner).preorder) := by
    rw [Forest.preorder_append, Forest.preorder_append, Forest.preorder_tree_empty]
    exact List.perm_middle
  have hclosed : ∀ m ∈ (others ++ inner).preorder, m.id ∈ openIds ∧ m.id ≠ n.id := by
    intro m hm
    simpa [close] using h.opened m hm
  refine ⟨others ++ .tree n inner .empty, ?_, ?_⟩
  · constructor
    case roots =>
      rw [Forest.roots_append, hothers, List.reverse_cons]
      rfl
    case grown =>
      exact grown_append_iff.2 ⟨hgrownOthers, hgrownInner.hasBelow (hinner ▸ hbelow), trivial⟩
    case nodup =>
      rw [(hperm.map _).nodup_iff, List.map_cons, List.nodup_cons]
      refine ⟨?_, h.nodup⟩
      intro hmem
      obtain ⟨m, hm, hid⟩ := List.mem_map.1 hmem
      exact (hclosed m hm).2 hid
    case opened =>
      intro m hm
      rcases List.mem_cons.1 (hperm.mem_iff.1 hm) with rfl | hm
      · exact hopen
      · exact (hclosed m hm).1
    case fits =>
      intro m hm
      rcases List.mem_cons.1 (hperm.mem_iff.1 hm) with rfl | hm
      · exact hfits
      · exact h.fits m hm
  · rw [Forest.size_eq_length_preorder, hperm.length_eq, List.length_cons,
      Forest.size_eq_length_preorder]

/-- A check that comes to the end has met a forest, and its verdict depends on the number of nodes
met only.  The induction is on the open identifiers, of which each step closes one. -/
theorem Ends.exists_meets {met : Nat} {openIds : List NodeId} {stack : List Node}
    (h : Ends (o.check met openIds stack)) :
    ∃ f, o.Meets openIds stack f ∧ o.check met openIds stack = o.check (met + f.size) [] [] := by
  induction hlength : openIds.length using Nat.strongRecOn generalizing met openIds stack with
  | _ length ih =>
    cases stack with
    | nil =>
      refine ⟨.empty, ⟨rfl, trivial, List.nodup_nil, ?_, ?_⟩, ?_⟩
      · simp [Forest.preorder]
      · simp [Forest.preorder]
      · rw [Forest.size, Nat.add_zero, check, check]
    | cons n stack =>
      obtain ⟨hfits, hopen, below, hbelow⟩ := h.of_check_cons
      have hstep : o.check met openIds (n :: stack) = _ := check_cons hfits hopen hbelow
      rw [hstep] at h ⊢
      have hshorter := length_close_lt hopen
      obtain ⟨f, hmeets, hverdict⟩ := ih _ (by omega) h rfl
      obtain ⟨g, hg, hsize⟩ := hmeets.step hopen hfits hbelow
      refine ⟨g, hg, ?_⟩
      rw [hverdict, hsize, Nat.add_assoc, Nat.add_comm 1]

/-! ## The tree of an outline -/

theorem HasTree.mem_nodes {root : Node} {below : Forest Node} (h : o.HasTree root below) {n : Node}
    (hn : n ∈ (Forest.tree root below .empty).preorder) : n ∈ o.nodes.nodes := by
  rw [Forest.preorder_tree_empty, List.mem_cons] at hn
  rcases hn with rfl | hn
  · exact mem_nodes_of_node? h.rootNode?_eq
  · exact mem_nodes_of_node? (h.spells.node?_eq hn)

theorem HasTree.subperm {root : Node} {below : Forest Node} (h : o.HasTree root below) :
    (Forest.tree root below .empty).preorder.Subperm o.nodes.nodes :=
  (List.Nodup.of_map _ h.nodup).subperm fun _ hn => h.mem_nodes hn

theorem HasTree.size_le {root : Node} {below : Forest Node} (h : o.HasTree root below) :
    (Forest.tree root below .empty).size ≤ o.nodes.size := by
  have hlength := h.subperm.length_le
  rwa [NodeMap.nodes, List.length_map, ← Forest.size_eq_length_preorder] at hlength

/-- The nodes below the root have other identifiers than the root and than each other. -/
theorem HasTree.nodup_below {root : Node} {below : Forest Node} (h : o.HasTree root below) :
    root.id ∉ below.preorder.map (·.id) ∧ (below.preorder.map (·.id)).Nodup := by
  have hnodup := h.nodup
  rwa [Forest.preorder_tree_empty, List.map_cons, List.nodup_cons] at hnodup

/-- The keys of the nodes in the tree. -/
theorem HasTree.nodup_keys {root : Node} {below : Forest Node} (h : o.HasTree root below) :
    (o.root :: below.preorder.map (·.id)).Nodup := by
  have hnodup := h.nodup_below
  rw [List.nodup_cons]
  refine ⟨?_, hnodup.2⟩
  intro hmem
  obtain ⟨n, hn, hid⟩ := List.mem_map.1 hmem
  have hsame : o.node? o.root = some n := hid ▸ h.spells.node?_eq hn
  obtain rfl := Option.some.inj (h.rootNode?_eq.symm.trans hsame)
  exact hnodup.1 (List.mem_map_of_mem hn)

theorem mem_keys_iff {id : NodeId} : id ∈ o.nodes.keys ↔ ∃ n, o.node? id = some n := by
  constructor
  · intro h
    obtain ⟨⟨key, n⟩, hentry, rfl⟩ := List.mem_map.1 h
    exact ⟨n, o.nodes.find?_eq_some_iff.2 hentry⟩
  · rintro ⟨n, hn⟩
    exact List.mem_map.2 ⟨(id, n), o.nodes.find?_eq_some_iff.1 hn, rfl⟩

theorem Stores.size_eq {root : Node} {below : Forest Node} (h : o.Stores root below) :
    o.nodes.size = below.size + 1 := by
  have hlength := h.perm.length_eq
  rwa [Forest.preorder_tree_empty, List.length_cons, ← Forest.size_eq_length_preorder,
    NodeMap.nodes, List.length_map] at hlength

/-- The root is stored under its key, the other nodes under their own identifiers. -/
theorem Stores.perm_keys {root : Node} {below : Forest Node} (h : o.Stores root below) :
    o.nodes.keys.Perm (o.root :: below.preorder.map (·.id)) := by
  refine List.Perm.symm ((h.nodup_keys.subperm ?_).perm_of_length_le ?_)
  · intro id hid
    rw [mem_keys_iff]
    rcases List.mem_cons.1 hid with rfl | hid
    · exact ⟨root, h.rootNode?_eq⟩
    · obtain ⟨n, hn, rfl⟩ := List.mem_map.1 hid
      exact ⟨n, h.spells.node?_eq hn⟩
  · have hsize := h.size_eq
    rw [NodeMap.size, Forest.size_eq_length_preorder] at hsize
    have hlength : o.nodes.keys.length = (o.root :: below.preorder.map (·.id)).length := by
      rw [NodeMap.keys, List.length_map, List.length_cons, List.length_map, hsize]
    exact Nat.le_of_eq hlength

/-- A validation that comes to the end has met a tree, and its verdict depends on how many nodes
that has. -/
theorem Ends.exists_hasTree (h : Ends o.validate) :
    ∃ root below, o.HasTree root below ∧
      (∀ n ∈ (Forest.tree root below .empty).preorder, o.FitsDocument n) ∧
      o.validate = o.check (Forest.tree root below .empty).size [] [] := by
  unfold validate node at h ⊢
  cases hroot : o.node? o.root with
  | none => simp [hroot, Ends] at h
  | some root =>
    simp only [hroot] at h ⊢
    obtain ⟨f, hmeets, hverdict⟩ := h.exists_meets
    have hroots : f.roots = [root] := hmeets.roots
    cases f with
    | empty => exact absurd hroots (by simp [Forest.roots])
    | tree a below rest =>
      obtain ⟨rfl, hrest⟩ := List.cons.inj hroots
      obtain rfl : rest = .empty := Forest.roots_eq_nil_iff.1 hrest
      refine ⟨a, below, ⟨hmeets.grown.1, hroot, hmeets.nodup⟩, hmeets.fits, ?_⟩
      rw [hverdict, Nat.zero_add]

/-- An outline that passes the check stores one tree, as many nodes as are stored having been
met. -/
theorem exists_stores_of_validate (h : o.validate = .ok ()) :
    ∃ root below, o.Stores root below ∧ ∀ n ∈ o.nodes.nodes, o.FitsDocument n := by
  obtain ⟨root, below, htree, hfits, hverdict⟩ := Ends.exists_hasTree (Or.inl h)
  have hsize : (Forest.tree root below .empty).size = o.nodes.size := by
    rw [h, check] at hverdict
    by_contra hne
    rw [if_neg hne] at hverdict
    exact absurd hverdict (by simp)
  have hperm : (Forest.tree root below .empty).preorder.Perm o.nodes.nodes := by
    apply htree.subperm.perm_of_length_le
    have hlength : o.nodes.nodes.length = (Forest.tree root below .empty).preorder.length := by
      rw [← Forest.size_eq_length_preorder, hsize, NodeMap.nodes, List.length_map, NodeMap.size]
    exact Nat.le_of_eq hlength
  exact ⟨root, below, ⟨htree, hperm.symm⟩, fun n hn => hfits n (hperm.mem_iff.2 hn)⟩

/-- An outline that passes the check is sound. -/
theorem isSound_of_validate (h : o.validate = .ok ()) : o.IsSound := by
  obtain ⟨root, below, hstores, -⟩ := exists_stores_of_validate h
  exact hstores.isSound

end SelectionLadder.Outline
