import SelectionLadder.Proofs.Outline.Lookup
import SelectionLadder.Proofs.Outline.Validity
import SelectionLadder.Proofs.Wire.Decoding

/-!
# Queries of a checked outline

An outline that passes the check stores one tree (`Stores`), and the queries recurse on it.

* `Stores.walk_eq`: the walk visits each node once, the root first.
* `Stores.pathAt_eq`: a path is the descent in the tree.  This needs a root that is stored under
  its own identifier; the check asks this of all nodes but the root.
* `Walks` and `Descends` are the two loops without the bounds that `visit` and `descend` have.  The
  bounds are never met (`Stores.walks`, `Stores.exists_descends`).
* `pathAt_follows` says where the paths of a decoded outline lead, and `pathAt_strayRoot` is an
  outline in which they lead nowhere.
-/

namespace SelectionLadder

/-! ## Where a descent stops -/

namespace Forest

variable {f : Forest Node} {o : Outline} {x : Nat}

/-- A descent that does not start has no root to start with. -/
theorem not_holds_of_descent_eq_nil (h : f.descent (o.Holds · x) = []) :
    ∀ r ∈ f.roots, ¬ o.Holds r x := by
  have hnone : f.roots.find? (fun r => o.Holds r x) = none := by
    rw [← head?_descent, h, List.head?_nil]
  simpa using hnone

/-- A descent stops only at a node of which no child holds the offset. -/
theorem not_holds_of_getLast?_descent (hspells : o.Spells f) {n : Node}
    (hn : (f.descent (o.Holds · x)).getLast? = some n) :
    ∀ child ∈ o.childrenOf n, ¬ o.Holds child x := by
  induction f with
  | empty => exact absurd hn (by simp [descent])
  | tree m below rest ihBelow ihRest =>
    have hchildren := hspells.childrenOf_eq
    obtain ⟨-, -, hspellsBelow, hspellsRest⟩ := hspells
    rw [descent] at hn
    split at hn
    case isFalse => exact ihRest hspellsRest hn
    case isTrue =>
      cases hdescent : below.descent (o.Holds · x) with
      | nil =>
        rw [hdescent] at hn
        obtain rfl : m = n := Option.some.inj hn
        rw [hchildren]
        exact not_holds_of_descent_eq_nil hdescent
      | cons first others =>
        rw [hdescent, List.getLast?_cons_cons, ← hdescent] at hn
        exact ihBelow hspellsBelow hn

end Forest

namespace Outline

variable {o : Outline} {root : Node} {below : Forest Node} {x : Nat}

/-! ## Queries without bounds -/

/-- The descent from a node without a bound on its steps: each time to the first child that holds
the offset, until there is none. -/
inductive Descends (o : Outline) (x : Nat) : NodeId → List NodeId → Prop where
  | stop {id : NodeId} (h : o.childAt? id x = none) : Descends o x id []
  | step {id : NodeId} {child : Node} {path : List NodeId} (h : o.childAt? id x = some child)
    (hpath : Descends o x child.id path) : Descends o x id (child.id :: path)

/-- The walk from a stack on that visits what is on the stack, no matter what it has visited
before. -/
inductive Walks (o : Outline) : List Node → List Node → Prop where
  | done : Walks o [] []
  | visit {n : Node} {stack visited : List Node} (h : Walks o (o.childrenOf n ++ stack) visited) :
    Walks o (n :: stack) (n :: visited)

/-- A descent that does not use up its steps would not go on with more of them. -/
theorem descends_descend {depth : Nat} {id : NodeId} (h : (o.descend x depth id).length < depth) :
    o.Descends x id (o.descend x depth id) := by
  induction depth generalizing id with
  | zero => exact absurd h (Nat.not_lt_zero _)
  | succ depth ih =>
    rw [descend] at h ⊢
    cases hchild : o.childAt? id x with
    | none => exact .stop hchild
    | some child =>
      simp only [hchild, List.length_cons] at h
      exact .step hchild (ih (by omega))

/-- A walk over the roots of a spelled forest visits the forest in preorder. -/
theorem Spells.walks {f : Forest Node} (h : o.Spells f) {stack visited : List Node}
    (hwalks : o.Walks stack visited) : o.Walks (f.roots ++ stack) (f.preorder ++ visited) := by
  induction f generalizing stack visited with
  | empty => exact hwalks
  | tree n below rest ihBelow ihRest =>
    have hchildren := h.childrenOf_eq
    obtain ⟨-, -, hbelow, hrest⟩ := h
    rw [Forest.roots, Forest.preorder, List.cons_append, List.cons_append, List.append_assoc]
    apply Walks.visit
    rw [hchildren]
    exact ihBelow hbelow (ihRest hrest hwalks)

/-! ## Walks of an outline that stores a tree -/

theorem Stores.walks (h : o.Stores root below) : o.Walks [root] (root :: below.preorder) := by
  apply Walks.visit
  rw [h.childrenOf_eq]
  simpa using h.spells.walks .done

/-- Visiting each identifier only once leaves nothing out. -/
theorem Stores.walk_eq (h : o.Stores root below) : o.walk = root :: below.preorder := by
  have hown : ∀ n ∈ root :: below.preorder, n.id ∈ o.ownIds := by
    intro n hn
    rw [← Forest.preorder_tree_empty] at hn
    exact List.mem_map_of_mem (h.mem_nodes hn)
  have hopen : ∀ n ∈ below.preorder, n.id ∈ close o.ownIds root.id := by
    intro n hn
    have hne : n.id ≠ root.id := fun hid => h.nodup_below.1 (hid ▸ List.mem_map_of_mem hn)
    simpa [close, hne] using hown n (List.mem_cons_of_mem _ hn)
  have hvisit := h.spells.visit_roots h.nodup_below.2 _ hopen []
  rw [walk, h.rootNode?_eq, Option.toList_some, visit, if_pos (hown root List.mem_cons_self),
    h.childrenOf_eq, hvisit, visit, List.append_nil]

/-- Every node without children is a leaf once. -/
theorem Stores.leaves_perm (h : o.Stores root below) :
    o.leaves.Perm (o.nodes.nodes.filter fun n => n.IsLeaf) := by
  rw [leaves, h.walk_eq, ← Forest.preorder_tree_empty]
  exact (h.perm.filter _).symm

/-! ## Paths of an outline that stores a tree -/

/-- With a root that is stored under its own identifier there is nothing left to ask of a tree. -/
theorem Stores.isTree (h : o.Stores root below) (hid : root.id = o.root) :
    o.IsTree root below where
  root_eq := hid.symm
  spells := ⟨by rw [hid]; exact h.rootNode?_eq, h.lists, h.spells, trivial⟩
  perm := h.perm
  nodup := h.nodup

/-- A root that is stored under another identifier than its own has no children there. -/
theorem Stores.children_root_eq_nil (h : o.Stores root below) (hid : root.id ≠ o.root) :
    o.children root.id = [] := by
  have hnone : o.node? root.id = none := by
    rw [Option.eq_none_iff_forall_ne_some]
    intro n hn
    have hkey := h.perm_keys.mem_iff.1 (mem_keys_iff.2 ⟨n, hn⟩)
    exact h.nodup_below.1 ((List.mem_cons.1 hkey).resolve_left hid)
  rw [children, hnone]
  rfl

/-- The steps down from the root, if it is stored under its own identifier; else there are none. -/
theorem Stores.descend_root (h : o.Stores root below) (x : Nat) :
    o.descend x o.nodes.size root.id =
      if root.id = o.root then (below.descent (o.Holds · x)).map (·.id) else [] := by
  have hsize := h.size_eq
  split
  · rename_i hid
    exact h.spells.descend_eq x (h.isTree hid).spells.children_eq (by omega)
  · rename_i hid
    rw [hsize, descend, childAt?, h.children_root_eq_nil hid]
    rfl

theorem Stores.pathAt_eq (h : o.Stores root below) (x : Nat) :
    o.pathAt x = o.root :: o.descend x o.nodes.size root.id := by
  rw [pathAt, h.rootNode?_eq]
  rfl

/-- A path is a descent that would not go on with more steps. -/
theorem Stores.exists_descends (h : o.Stores root below) (x : Nat) :
    ∃ path, o.pathAt x = o.root :: path ∧ o.Descends x root.id path := by
  refine ⟨_, h.pathAt_eq x, descends_descend ?_⟩
  have hlength : (below.descent (o.Holds · x)).length ≤ below.preorder.length :=
    below.descent_sublist.length_le
  have hsize := h.size_eq
  rw [Forest.size_eq_length_preorder] at hsize
  rw [h.descend_root]
  split
  · rw [List.length_map]
    omega
  · rw [List.length_nil]
    omega

/-- The nodes lead from the root on, each time to a child that the node before it lists and that
holds the offset, as far as there is one. -/
structure Follows (o : Outline) (x : Nat) (path : List Node) : Prop where
  head : path.head? = o.rootNode?
  steps : path.IsChain fun a b => b.id ∈ a.children ∧ b ∈ o.childrenOf a ∧ o.Holds b x
  stops : ∀ n, path.getLast? = some n → ∀ child ∈ o.childrenOf n, ¬ o.Holds child x

theorem Stores.map_id_childrenOf (h : o.Stores root below) {n : Node} (hn : n ∈ o.nodes.nodes) :
    (o.childrenOf n).map (·.id) = n.children := by
  rw [h.perm.mem_iff, Forest.preorder_tree_empty, List.mem_cons] at hn
  rcases hn with rfl | hn
  · rw [h.childrenOf_eq, h.lists]
  · exact h.spells.map_id_childrenOf hn

theorem Stores.follows (h : o.Stores root below) (x : Nat) :
    o.Follows x (root :: below.descent (o.Holds · x)) where
  head := by rw [h.rootNode?_eq, List.head?_cons]
  steps := by
    have hchain : (root :: below.descent (o.Holds · x)).IsChain
        fun a b => b.parent = some a.id ∧ b ∈ o.childrenOf a := by
      rw [List.isChain_cons]
      refine ⟨?_, h.linked.isChain_descent h.spells _⟩
      intro first hfirst
      rw [Forest.head?_descent] at hfirst
      have hroots : first ∈ below.roots := List.mem_of_find?_eq_some hfirst
      exact ⟨h.linked.parent_of_mem_roots hroots, h.childrenOf_eq ▸ hroots⟩
    apply hchain.imp_of_mem_tail_imp
    intro a b ha hb hab
    have hstored : a ∈ o.nodes.nodes := by
      rw [h.perm.mem_iff, Forest.preorder_tree_empty]
      exact (below.descent_sublist.cons_cons root).subset ha
    have hholds := Forest.holds_of_mem_descent hb
    refine ⟨?_, hab.2, hholds⟩
    rw [← h.map_id_childrenOf hstored]
    exact List.mem_map_of_mem hab.2
  stops := by
    intro n hn
    cases hdescent : below.descent (o.Holds · x) with
    | nil =>
      rw [hdescent] at hn
      obtain rfl : root = n := Option.some.inj hn
      rw [h.childrenOf_eq]
      exact Forest.not_holds_of_descent_eq_nil hdescent
    | cons first others =>
      rw [hdescent, List.getLast?_cons_cons, ← hdescent] at hn
      exact Forest.not_holds_of_getLast?_descent h.spells hn

/-- Where the paths of a decoded outline lead.  All nodes but the root are stored under their own
identifiers, so their children are found there.  If the root is as well, each path follows the
children that hold the offset as far as they go.  If it is not, no path gets past the root, though
a walk does. -/
theorem pathAt_follows {j : Json} (h : ofJson j = .ok o) :
    ∃ root, o.rootNode? = some root ∧
      (∀ n ∈ o.nodes.nodes, n ≠ root → o.children n.id = o.childrenOf n) ∧
      (root.id = o.root → o.children root.id = o.childrenOf root ∧
        ∀ x, ∃ path, o.pathAt x = path.map (·.id) ∧ o.Follows x path) ∧
      (root.id ≠ o.root → o.children root.id = [] ∧ ∀ x, o.pathAt x = [o.root]) := by
  obtain ⟨-, -, -, -, -, -, -, hvalid⟩ := ofJson_eq_ok.1 h
  obtain ⟨root, below, hstores, -⟩ := exists_stores_of_validate hvalid
  refine ⟨root, hstores.rootNode?_eq, ?_, ?_, ?_⟩
  · intro n hn hne
    rw [hstores.perm.mem_iff, Forest.preorder_tree_empty, List.mem_cons] at hn
    rw [children, hstores.spells.node?_eq (hn.resolve_left hne)]
    rfl
  · intro hid
    have hroot : o.node? root.id = some root := hid ▸ hstores.rootNode?_eq
    refine ⟨by rw [children, hroot]; rfl, ?_⟩
    intro x
    refine ⟨_, ?_, hstores.follows x⟩
    rw [hstores.pathAt_eq, hstores.descend_root, if_pos hid, List.map_cons, hid]
  · intro hid
    refine ⟨hstores.children_root_eq_nil hid, ?_⟩
    intro x
    rw [hstores.pathAt_eq, hstores.descend_root, if_neg hid]

/-- An outline of a root and a child.  The root is stored under `1` and has another identifier if
`id` is not `1`. -/
def rootedAt (id : NodeId) : Outline where
  root := ⟨1⟩
  nodes := ⟨[(⟨1⟩, ⟨id, none, [⟨3⟩], .document, 0, 2, 0, 2⟩),
    (⟨3⟩, ⟨⟨3⟩, some id, [], .paragraph, 0, 2, 0, 2⟩)], by simp⟩
  length := 2

theorem ofJson_toJson_rootedAt {id : NodeId} (hid : id.value < NodeId.count)
    (hvalid : (rootedAt id).validate = .ok ()) :
    ofJson (rootedAt id).toJson = .ok (rootedAt id) := by
  have hthree : (⟨3⟩ : NodeId).value < NodeId.count := by decide
  have hzero : 0 < UInt64.size := by decide
  have htwo : 2 < UInt64.size := by decide
  have hroot : (⟨id, none, [⟨3⟩], .document, 0, 2, 0, 2⟩ : Node).IsEncodable :=
    ⟨hid, by simp, by simpa using hthree, hzero, htwo, hzero, htwo⟩
  have hchild : (⟨⟨3⟩, some id, [], .paragraph, 0, 2, 0, 2⟩ : Node).IsEncodable :=
    ⟨hthree, by simpa using hid, by simp, hzero, htwo, hzero, htwo⟩
  have hnodes : (rootedAt id).nodes.IsEncodable := by
    simp only [NodeMap.IsEncodable, rootedAt, List.forall_mem_cons]
    exact ⟨⟨by decide, hroot⟩, ⟨hthree, hchild⟩, by simp⟩
  exact ofJson_toJson ⟨show 1 < NodeId.count by decide, hnodes, htwo⟩ hvalid

theorem pathAt_follows_rootedAt :
    ofJson (rootedAt ⟨1⟩).toJson = .ok (rootedAt ⟨1⟩) ∧
      ∃ path, (rootedAt ⟨1⟩).pathAt 0 = path.map (·.id) ∧ (rootedAt ⟨1⟩).Follows 0 path := by
  have hdecoded : ofJson (rootedAt ⟨1⟩).toJson = .ok (rootedAt ⟨1⟩) :=
    ofJson_toJson_rootedAt (by decide) (by decide +kernel)
  obtain ⟨root, hroot, -, hpaths, -⟩ := pathAt_follows hdecoded
  obtain rfl := Option.some.inj hroot
  exact ⟨hdecoded, (hpaths rfl).2 0⟩

/-- The decoder accepts a root that is stored under another identifier than its own.  The child of
such a root is a leaf and holds the offset, but the path there stops at the root. -/
theorem pathAt_strayRoot :
    ofJson (rootedAt ⟨2⟩).toJson = .ok (rootedAt ⟨2⟩) ∧
      ∃ root child, (rootedAt ⟨2⟩).rootNode? = some root ∧
        child ∈ (rootedAt ⟨2⟩).childrenOf root ∧ child ∈ (rootedAt ⟨2⟩).leaves ∧
        (rootedAt ⟨2⟩).Holds child 0 ∧ (rootedAt ⟨2⟩).pathAt 0 = [(rootedAt ⟨2⟩).root] := by
  have hvalid : (rootedAt ⟨2⟩).validate = .ok () := by decide +kernel
  obtain ⟨root, below, hstores, -⟩ := exists_stores_of_validate hvalid
  refine ⟨ofJson_toJson_rootedAt (by decide) hvalid, _,
    ⟨⟨3⟩, some ⟨2⟩, [], .paragraph, 0, 2, 0, 2⟩, rfl, by decide, ?_, by decide, by decide⟩
  rw [hstores.leaves_perm.mem_iff]
  decide

end Outline

end SelectionLadder
