import Mathlib.Data.List.Basic
import Mathlib.Data.List.Nodup
import SelectionLadder.Outline.Basic

/-!
# Outlines that are trees

An outline names nodes by identifiers, so a query follows identifiers from node to node.  When the
nodes are those of a tree, each query is a recursion on that tree.  This module proves that, and
every fact about an outline that is built from spans is then an induction on a forest.

* `Outline.Spells` says that an outline stores the nodes of a forest, and `Outline.IsTree` that it
  has no others and that their identifiers differ.
* `IsTree.walk_eq` and `IsTree.leaves_eq`: the walk is the preorder of the tree.
* `IsTree.pathAt_eq`: a path is the root and then `Forest.descent`, which is the descent on the
  forest itself.
* `isTree_ofTree`: the outline of a placed tree is a tree, the one that `Forest.numberedForest`
  makes.
* `Forest.Linked` says that nodes know their parents; numbered nodes do (`linked_numberedForest`).
-/

namespace SelectionLadder

/-! ## Forests of nodes -/

namespace Forest

variable {α : Type}

theorem mem_preorder_of_mem_roots {f : Forest α} {a : α} (h : a ∈ f.roots) : a ∈ f.preorder := by
  induction f with
  | empty => exact absurd h List.not_mem_nil
  | tree b below rest _ ihRest =>
    rw [preorder, List.mem_cons, List.mem_append]
    rcases List.mem_cons.1 h with hab | hrest
    · exact Or.inl hab
    · exact Or.inr (Or.inr (ihRest hrest))

theorem eq_empty_of_size {f : Forest α} (h : f.size = 0) : f = .empty := by
  cases f with
  | empty => rfl
  | tree a below rest => exact absurd h (by simp [size])

theorem roots_eq_nil_iff {f : Forest α} : f.roots = [] ↔ f = .empty := by
  cases f <;> simp [roots]

theorem empty_append (f : Forest α) : empty ++ f = f := rfl

theorem tree_append (a : α) (below rest f : Forest α) :
    tree a below rest ++ f = tree a below (rest ++ f) := rfl

theorem append_empty (f : Forest α) : f ++ empty = f := by
  induction f with
  | empty => rfl
  | tree a below rest _ ihRest => rw [tree_append, ihRest]

theorem append_assoc (f g h : Forest α) : f ++ g ++ h = f ++ (g ++ h) := by
  induction f with
  | empty => rfl
  | tree a below rest _ ihRest => rw [tree_append, tree_append, tree_append, ihRest]

theorem roots_append (f g : Forest α) : (f ++ g).roots = f.roots ++ g.roots := by
  induction f with
  | empty => rfl
  | tree a below rest _ ihRest => rw [tree_append, roots, roots, ihRest, List.cons_append]

theorem preorder_tree_empty (a : α) (below : Forest α) :
    (tree a below .empty).preorder = a :: below.preorder := by
  rw [preorder, preorder, List.append_nil]

/-- A forest whose roots are those of two lists comes apart between them. -/
theorem roots_eq_append {f : Forest α} {xs ys : List α}
    (h : f.roots = xs ++ ys) : ∃ f₁ f₂, f = f₁ ++ f₂ ∧ f₁.roots = xs ∧ f₂.roots = ys := by
  induction xs generalizing f with
  | nil => exact ⟨.empty, f, rfl, rfl, h⟩
  | cons x xs ih =>
    cases f with
    | empty => exact absurd h (by simp [roots])
    | tree a below rest =>
      obtain ⟨rfl, hrest⟩ := List.cons.inj h
      obtain ⟨f₁, f₂, rfl, rfl, rfl⟩ := ih hrest
      exact ⟨.tree a below f₁, f₂, rfl, rfl, rfl⟩

/-- The forest of the same shape with other values. -/
def map {β : Type} (change : α → β) : Forest α → Forest β
  | empty => empty
  | tree a below rest => tree (change a) (below.map change) (rest.map change)

section Map

variable {β : Type} {change : α → β}

theorem roots_map (f : Forest α) : (f.map change).roots = f.roots.map change := by
  induction f with
  | empty => rfl
  | tree a below rest _ ihRest => rw [map, roots, roots, ihRest, List.map_cons]

theorem preorder_map (f : Forest α) : (f.map change).preorder = f.preorder.map change := by
  induction f with
  | empty => rfl
  | tree a below rest ihBelow ihRest =>
    rw [map, preorder, preorder, ihBelow, ihRest, List.map_cons, List.map_append]

theorem map_id (f : Forest α) : f.map id = f := by
  induction f with
  | empty => rfl
  | tree a below rest ihBelow ihRest => rw [map, ihBelow, ihRest, id]

theorem map_map {γ : Type} (f : Forest α) (change' : β → γ) :
    (f.map change).map change' = f.map (change' ∘ change) := by
  induction f with
  | empty => rfl
  | tree a below rest ihBelow ihRest => rw [map, map, map, ihBelow, ihRest, Function.comp]

theorem map_append (f g : Forest α) : (f ++ g).map change = f.map change ++ g.map change := by
  induction f with
  | empty => rfl
  | tree a below rest _ ihRest => rw [tree_append, map, map, ihRest, tree_append]

theorem map_eq_empty_iff {f : Forest α} : f.map change = .empty ↔ f = .empty := by
  cases f <;> simp [map]

/-- A forest whose values change to those of two forests comes apart in the same way. -/
theorem map_eq_append {f : Forest α} {g h : Forest β} (hf : f.map change = g ++ h) :
    ∃ f₁ f₂, f = f₁ ++ f₂ ∧ f₁.map change = g ∧ f₂.map change = h := by
  induction g generalizing f with
  | empty => exact ⟨empty, f, rfl, rfl, hf⟩
  | tree b below rest _ ihRest =>
    cases f with
    | empty => cases hf
    | tree a belowA restA =>
      obtain ⟨rfl, hbelow, hrest⟩ := tree.inj hf
      obtain ⟨f₁, f₂, rfl, rfl, rfl⟩ := ihRest hrest
      exact ⟨tree a belowA f₁, f₂, rfl, by rw [map, hbelow], rfl⟩

end Map

/-- The roots on the way down to the deepest node that passes a test: at each level the first root
that passes it. -/
def descent (holds : α → Prop) [DecidablePred holds] : Forest α → List α
  | empty => []
  | tree a below rest => if holds a then a :: below.descent holds else rest.descent holds

variable {holds : α → Prop} [DecidablePred holds]

/-- A descent takes nodes in document order. -/
theorem descent_sublist (f : Forest α) : (f.descent holds).Sublist f.preorder := by
  induction f with
  | empty => exact List.Sublist.refl _
  | tree a below rest ihBelow ihRest =>
    rw [descent, preorder]
    split
    · exact (ihBelow.trans (List.sublist_append_left _ _)).cons_cons a
    · exact (ihRest.trans (List.sublist_append_right _ _)).cons a

theorem mem_preorder_of_mem_descent {f : Forest α} {a : α} (h : a ∈ f.descent holds) :
    a ∈ f.preorder :=
  f.descent_sublist.subset h

theorem holds_of_mem_descent {f : Forest α} {a : α} (h : a ∈ f.descent holds) : holds a := by
  induction f with
  | empty => exact absurd h List.not_mem_nil
  | tree b below rest ihBelow ihRest =>
    rw [descent] at h
    split at h
    · rename_i hb
      rcases List.mem_cons.1 h with hab | hbelow
      · exact hab ▸ hb
      · exact ihBelow hbelow
    · exact ihRest h

/-- The descent starts with the first root that passes the test. -/
theorem head?_descent (f : Forest α) :
    (f.descent holds).head? = f.roots.find? fun a => holds a := by
  induction f with
  | empty => rfl
  | tree a below rest _ ihRest =>
    rw [descent, roots, List.find?_cons]
    by_cases ha : holds a
    · simp [ha]
    · simp [ha, ihRest]

end Forest

/-! ## Look-up by key -/

section Lookup

variable {α β : Type} [BEq α] [LawfulBEq α] {entries : List (α × β)} {key : α} {value : β}

theorem mem_of_lookup_eq_some (h : entries.lookup key = some value) : (key, value) ∈ entries := by
  obtain ⟨before, after, rfl, -⟩ := List.lookup_eq_some_iff.1 h
  simp

/-- The only value under a key is the one that is found. -/
theorem lookup_eq_some_of_mem (h : (key, value) ∈ entries)
    (hunique : ∀ other, (key, other) ∈ entries → other = value) :
    entries.lookup key = some value := by
  cases hfound : entries.lookup key with
  | none =>
    have hne := List.lookup_eq_none_iff.1 hfound _ h
    simp at hne
  | some other => rw [hunique other (mem_of_lookup_eq_some hfound)]

/-- Under keys that differ everything is found. -/
theorem lookup_eq_some_iff_mem (hkeys : (entries.map (·.1)).Nodup) :
    entries.lookup key = some value ↔ (key, value) ∈ entries := by
  constructor
  · exact mem_of_lookup_eq_some
  · intro h
    refine lookup_eq_some_of_mem h fun other hother => ?_
    exact congrArg Prod.snd (List.inj_on_of_nodup_map hkeys hother h rfl)

end Lookup

/-! ## Outlines that store a forest -/

/-- The nodes stored in a map are found under their keys. -/
theorem NodeMap.find?_eq_some_iff (m : NodeMap) {id : NodeId} {n : Node} :
    m.find? id = some n ↔ (id, n) ∈ m.entries :=
  lookup_eq_some_iff_mem m.nodup_keys

/-- Every node of the forest is stored under its own identifier, and lists the identifiers of the
roots right below it. -/
def Outline.Spells (o : Outline) : Forest Node → Prop
  | .empty => True
  | .tree n below rest =>
    o.node? n.id = some n ∧ n.children = below.roots.map (·.id) ∧ o.Spells below ∧ o.Spells rest

/-- The outline stores the nodes of one tree and no others, and their identifiers differ. -/
structure Outline.IsTree (o : Outline) (root : Node) (below : Forest Node) : Prop where
  root_eq : o.root = root.id
  spells : o.Spells (.tree root below .empty)
  perm : o.nodes.nodes.Perm (Forest.tree root below .empty).preorder
  nodup : ((Forest.tree root below .empty).preorder.map (·.id)).Nodup

namespace Outline

variable {o : Outline} {f : Forest Node}

theorem spells_append_iff {g : Forest Node} : o.Spells (f ++ g) ↔ o.Spells f ∧ o.Spells g := by
  induction f with
  | empty => simp only [Forest.empty_append, Spells, true_and]
  | tree n below rest _ ihRest => simp only [Forest.tree_append, Spells, ihRest, and_assoc]

/-- The identifiers of the roots lead to the roots. -/
theorem Spells.filterMap_roots (h : o.Spells f) :
    (f.roots.map (·.id)).filterMap o.node? = f.roots := by
  induction f with
  | empty => rfl
  | tree n below rest _ ihRest =>
    obtain ⟨hn, -, -, hrest⟩ := h
    rw [Forest.roots, List.map_cons, List.filterMap_cons_some hn, ihRest hrest]

theorem Spells.node?_eq (h : o.Spells f) {n : Node} (hn : n ∈ f.preorder) :
    o.node? n.id = some n := by
  induction f with
  | empty => exact absurd hn List.not_mem_nil
  | tree m below rest ihBelow ihRest =>
    obtain ⟨hm, -, hbelow, hrest⟩ := h
    rw [Forest.preorder, List.mem_cons, List.mem_append] at hn
    rcases hn with hnm | hn | hn
    · exact hnm ▸ hm
    · exact ihBelow hbelow hn
    · exact ihRest hrest hn

/-- The children of the first node are the roots right below it. -/
theorem Spells.childrenOf_eq {n : Node} {below rest : Forest Node}
    (h : o.Spells (.tree n below rest)) : o.childrenOf n = below.roots := by
  obtain ⟨-, hchildren, hbelow, -⟩ := h
  rw [childrenOf, hchildren, hbelow.filterMap_roots]

theorem Spells.children_eq {n : Node} {below rest : Forest Node}
    (h : o.Spells (.tree n below rest)) : o.children n.id = below.roots := by
  rw [children, h.1]
  exact h.childrenOf_eq

/-- In a spelled forest the children of each node are nodes of the forest. -/
theorem Spells.childrenOf_subset {f : Forest Node} (h : o.Spells f) {n : Node}
    (hn : n ∈ f.preorder) : o.childrenOf n ⊆ f.preorder := by
  induction f with
  | empty => exact absurd hn List.not_mem_nil
  | tree m below rest ihBelow ihRest =>
    have hchildren := h.childrenOf_eq
    obtain ⟨-, -, hbelow, hrest⟩ := h
    intro child hchild
    rw [Forest.preorder, List.mem_cons, List.mem_append] at hn ⊢
    rcases hn with rfl | hn | hn
    · rw [hchildren] at hchild
      exact Or.inr (Or.inl (Forest.mem_preorder_of_mem_roots hchild))
    · exact Or.inr (Or.inl (ihBelow hbelow hn hchild))
    · exact Or.inr (Or.inr (ihRest hrest hn hchild))

theorem Spells.isLeaf_iff {n : Node} {below rest : Forest Node}
    (h : o.Spells (.tree n below rest)) : n.IsLeaf ↔ below = .empty := by
  rw [Node.IsLeaf, h.2.1, List.map_eq_nil_iff, Forest.roots_eq_nil_iff]

/-! ## Walks -/

/-- A walk with the roots of a forest on top of its stack visits the forest in preorder, if no
identifier of the forest occurs twice or is closed already.  It then goes on with the rest of the
stack, and the identifiers of the forest are closed.  The induction is on the forest: the roots
below the first node come onto the stack above the remaining roots. -/
theorem Spells.visit_roots (hspells : o.Spells f) (hnodup : (f.preorder.map (·.id)).Nodup)
    (openIds : List NodeId) (hopen : ∀ n ∈ f.preorder, n.id ∈ openIds) (stack : List Node) :
    visit o.childrenOf openIds (f.roots ++ stack) =
      f.preorder ++
        visit o.childrenOf (openIds.filter fun id => id ∉ f.preorder.map (·.id)) stack := by
  induction f generalizing openIds stack with
  | empty => simp [Forest.roots, Forest.preorder]
  | tree n below rest ihBelow ihRest =>
    have hn : n.id ∈ openIds := hopen n List.mem_cons_self
    have hchildren : o.childrenOf n = below.roots := hspells.childrenOf_eq
    obtain ⟨-, -, hbelow, hrest⟩ := hspells
    simp only [Forest.preorder, List.map_cons, List.map_append, List.nodup_cons,
      List.nodup_append, List.mem_append] at hnodup
    obtain ⟨hnew, hnodupBelow, hnodupRest, hdisjoint⟩ := hnodup
    have hopenBelow : ∀ m ∈ below.preorder, m.id ∈ close openIds n.id := by
      intro m hm
      have hne : m.id ≠ n.id := by
        intro h
        exact hnew (Or.inl (h ▸ List.mem_map_of_mem hm))
      simp only [close, List.mem_filter, decide_eq_true_eq]
      exact ⟨hopen m (by simp [Forest.preorder, hm]), hne⟩
    have hopenRest : ∀ m ∈ rest.preorder,
        m.id ∈ (close openIds n.id).filter fun id => id ∉ below.preorder.map (·.id) := by
      intro m hm
      have hne : m.id ≠ n.id := by
        intro h
        exact hnew (Or.inr (h ▸ List.mem_map_of_mem hm))
      have hnot : m.id ∉ below.preorder.map (·.id) := by
        intro h
        exact hdisjoint _ h _ (List.mem_map_of_mem hm) rfl
      simp only [close, List.mem_filter, decide_eq_true_eq]
      exact ⟨⟨hopen m (by simp [Forest.preorder, hm]), hne⟩, hnot⟩
    rw [Forest.roots, List.cons_append, visit, if_pos hn, hchildren,
      ihBelow hbelow hnodupBelow _ hopenBelow, ihRest hrest hnodupRest _ hopenRest,
      Forest.preorder, List.cons_append, List.append_assoc]
    congr 4
    simp only [close, List.filter_filter]
    apply List.filter_congr
    intro id _
    simp only [List.map_cons, List.map_append, List.mem_cons, List.mem_append, not_or]
    by_cases h1 : id = n.id
    · simp [h1]
    · simp [h1, Bool.and_comm]

variable {root : Node} {below : Forest Node}

theorem IsTree.rootNode?_eq (h : o.IsTree root below) : o.rootNode? = some root := by
  rw [rootNode?, h.root_eq]
  exact h.spells.1

theorem IsTree.mem_nodes_iff (h : o.IsTree root below) {n : Node} :
    n ∈ o.nodes.nodes ↔ n ∈ (Forest.tree root below .empty).preorder :=
  h.perm.mem_iff

/-- The walk visits the nodes of the tree in preorder. -/
theorem IsTree.walk_eq (h : o.IsTree root below) :
    o.walk = (Forest.tree root below .empty).preorder := by
  have hopen : ∀ n ∈ (Forest.tree root below .empty).preorder, n.id ∈ o.ownIds := by
    intro n hn
    exact List.mem_map_of_mem (h.mem_nodes_iff.2 hn)
  have hvisit := h.spells.visit_roots h.nodup o.ownIds hopen []
  rw [walk, h.rootNode?_eq]
  simpa [Forest.roots, visit] using hvisit

theorem IsTree.leaves_eq (h : o.IsTree root below) :
    o.leaves = (Forest.tree root below .empty).preorder.filter fun n => n.IsLeaf := by
  rw [leaves, h.walk_eq]

/-! ## Paths -/

/-- The descent to the first of some nodes that holds the offset, and on from there. -/
def descendAmong (o : Outline) (offset depth : Nat) (nodes : List Node) : List NodeId :=
  match nodes.find? fun n => o.Holds n offset with
  | none => []
  | some n => n.id :: o.descend offset depth n.id

theorem descend_succ (o : Outline) (offset depth : Nat) (id : NodeId) :
    o.descend offset (depth + 1) id = o.descendAmong offset depth (o.children id) := rfl

theorem descendAmong_cons (o : Outline) (offset depth : Nat) (n : Node) (ns : List Node) :
    o.descendAmong offset depth (n :: ns) =
      if o.Holds n offset then n.id :: o.descend offset depth n.id
      else o.descendAmong offset depth ns := by
  unfold descendAmong
  rw [List.find?_cons]
  by_cases hn : o.Holds n offset
  · simp [hn]
  · simp [hn]

/-- A descent that follows identifiers is the descent on the forest, if it may take enough steps.
One step looks at the roots in turn, so the induction is over what is left of them. -/
theorem Spells.descendAmong_eq (hspells : o.Spells f) (offset : Nat) {depth : Nat}
    (hdepth : f.size ≤ depth + 1) :
    o.descendAmong offset depth f.roots = (f.descent (o.Holds · offset)).map (·.id) := by
  induction f generalizing depth with
  | empty => rfl
  | tree n below rest ihBelow ihRest =>
    have hchildren : o.children n.id = below.roots := hspells.children_eq
    obtain ⟨-, -, hbelow, hrest⟩ := hspells
    rw [Forest.size] at hdepth
    rw [Forest.roots, descendAmong_cons, Forest.descent]
    by_cases hn : o.Holds n offset
    · rw [if_pos hn, if_pos hn, List.map_cons]
      cases depth with
      | zero =>
        obtain rfl : below = .empty := Forest.eq_empty_of_size (by omega)
        rfl
      | succ d =>
        rw [descend_succ, hchildren, ihBelow hbelow (by omega)]
    · rw [if_neg hn, if_neg hn]
      exact ihRest hrest (by omega)

/-- So is the descent from a node to the forest of its children. -/
theorem Spells.descend_eq (hspells : o.Spells f) (offset : Nat) {id : NodeId}
    (hid : o.children id = f.roots) {depth : Nat} (hdepth : f.size ≤ depth) :
    o.descend offset depth id = (f.descent (o.Holds · offset)).map (·.id) := by
  cases depth with
  | zero =>
    obtain rfl : f = .empty := Forest.eq_empty_of_size (by omega)
    rfl
  | succ d =>
    rw [descend_succ, hid, hspells.descendAmong_eq offset hdepth]

/-- The nodes on the way from the root to the deepest node that holds the offset. -/
theorem IsTree.pathAt_eq (h : o.IsTree root below) (offset : Nat) :
    o.pathAt offset = (root :: below.descent (o.Holds · offset)).map (·.id) := by
  have hsize : below.size ≤ o.nodes.size := by
    have hlength := h.perm.length_eq
    simp only [NodeMap.nodes, List.length_map, ← Forest.size_eq_length_preorder,
      Forest.size] at hlength
    rw [NodeMap.size]
    omega
  rw [pathAt, h.rootNode?_eq, h.root_eq, List.map_cons]
  exact congrArg (root.id :: ·)
    (h.spells.2.2.1.descend_eq offset h.spells.children_eq hsize)

end Outline

/-! ## The outline of a placed tree -/

/-- The node of a placed part that gets the number `next`, above a forest that is numbered from
the number after it. -/
def PlacedPart.node (p : PlacedPart) (parent : Option NodeId) (next : Nat)
    (below : Forest PlacedPart) : Node where
  id := ⟨next⟩
  parent
  children := below.rootIds (next + 1)
  kind := p.part.kind
  contentStart := p.part.start
  contentStop := p.part.stop
  start := p.start
  stop := p.stop

namespace Forest

/-- The nodes of a forest that is numbered from `next`, as a forest of the same shape. -/
def numberedForest (parent : Option NodeId) (next : Nat) : Forest PlacedPart → Forest Node
  | empty => empty
  | tree p below rest =>
    tree (p.node parent next below) (below.numberedForest (some ⟨next⟩) (next + 1))
      (rest.numberedForest parent (next + below.size + 1))

theorem preorder_numberedForest (parent : Option NodeId) (next : Nat) (f : Forest PlacedPart) :
    (f.numberedForest parent next).preorder = f.numbered parent next := by
  induction f generalizing parent next with
  | empty => rfl
  | tree p below rest ihBelow ihRest =>
    rw [numberedForest, preorder, numbered, ihBelow, ihRest, PlacedPart.node]

theorem map_id_roots_numberedForest (parent : Option NodeId) (next : Nat)
    (f : Forest PlacedPart) :
    (f.numberedForest parent next).roots.map (·.id) = f.rootIds next := by
  induction f generalizing parent next with
  | empty => rfl
  | tree p below rest _ ihRest =>
    rw [numberedForest, roots, List.map_cons, rootIds, ihRest, PlacedPart.node]

/-- An outline that stores every node of a numbered forest under its own identifier spells that
forest. -/
theorem spells_numberedForest {o : Outline} (parent : Option NodeId) (next : Nat)
    (f : Forest PlacedPart) (h : ∀ n ∈ f.numbered parent next, o.node? n.id = some n) :
    o.Spells (f.numberedForest parent next) := by
  induction f generalizing parent next with
  | empty => trivial
  | tree p below rest ihBelow ihRest =>
    simp only [numbered, List.mem_cons, List.mem_append] at h
    refine ⟨h _ (Or.inl rfl), (map_id_roots_numberedForest _ _ below).symm, ?_, ?_⟩
    · exact ihBelow _ _ fun n hn => h n (Or.inr (Or.inl hn))
    · exact ihRest _ _ fun n hn => h n (Or.inr (Or.inr hn))

/-- The roots name `parent` as their parent, and the roots below a node name that node. -/
def Linked (parent : Option NodeId) : Forest Node → Prop
  | empty => True
  | tree n below rest => n.parent = parent ∧ below.Linked (some n.id) ∧ rest.Linked parent

theorem Linked.parent_of_mem_roots {f : Forest Node} {parent : Option NodeId}
    (h : f.Linked parent) {n : Node} (hn : n ∈ f.roots) : n.parent = parent := by
  induction f with
  | empty => exact absurd hn List.not_mem_nil
  | tree m below rest _ ihRest =>
    obtain ⟨hm, -, hrest⟩ := h
    rcases List.mem_cons.1 hn with rfl | hn
    · exact hm
    · exact ihRest hrest hn

/-- In a linked forest that is spelled the children of each node know it as their parent. -/
theorem Linked.parent_of_mem_childrenOf {o : Outline} {f : Forest Node} {parent : Option NodeId}
    (h : f.Linked parent) (hspells : o.Spells f) {n child : Node} (hn : n ∈ f.preorder)
    (hchild : child ∈ o.childrenOf n) : child.parent = some n.id := by
  induction f generalizing parent with
  | empty => exact absurd hn List.not_mem_nil
  | tree m below rest ihBelow ihRest =>
    have hchildren := hspells.childrenOf_eq
    obtain ⟨-, -, hspellsBelow, hspellsRest⟩ := hspells
    obtain ⟨-, hbelow, hrest⟩ := h
    rw [preorder, List.mem_cons, List.mem_append] at hn
    rcases hn with rfl | hn | hn
    · exact hbelow.parent_of_mem_roots (hchildren ▸ hchild)
    · exact ihBelow hbelow hspellsBelow hn
    · exact ihRest hrest hspellsRest hn

theorem linked_append_iff {f g : Forest Node} {parent : Option NodeId} :
    (f ++ g).Linked parent ↔ f.Linked parent ∧ g.Linked parent := by
  induction f with
  | empty => simp only [empty_append, Linked, true_and]
  | tree n below rest _ ihRest => simp only [tree_append, Linked, ihRest, and_assoc]

theorem linked_numberedForest (parent : Option NodeId) (next : Nat) (f : Forest PlacedPart) :
    (f.numberedForest parent next).Linked parent := by
  induction f generalizing parent next with
  | empty => trivial
  | tree p below rest ihBelow ihRest => exact ⟨rfl, ihBelow _ _, ihRest _ _⟩

end Forest

/-- The outline of a placed tree is the tree of its numbered nodes. -/
theorem Outline.isTree_ofTree (length : Nat) (root : PlacedPart) (below : Forest PlacedPart) :
    (ofTree length root below).IsTree (root.node none 0 below)
      (below.numberedForest (some ⟨0⟩) 1) := by
  have hnodes : (ofTree length root below).nodes.nodes =
      (Forest.tree root below .empty).numbered none 0 := by
    simp [ofTree, NodeMap.ofNodes, NodeMap.nodes, Function.comp_def]
  have hspells : (ofTree length root below).Spells
      ((Forest.tree root below .empty).numberedForest none 0) := by
    apply Forest.spells_numberedForest
    intro n hn
    exact (NodeMap.find?_eq_some_iff _).2 (List.mem_map.2 ⟨n, hn, rfl⟩)
  have hpreorder := Forest.preorder_numberedForest none 0 (Forest.tree root below .empty)
  refine ⟨rfl, hspells, ?_, ?_⟩
  · rw [hnodes, ← hpreorder]
    rfl
  · have hnodup := Forest.nodup_numbered none 0 (Forest.tree root below .empty)
    rw [← hpreorder] at hnodup
    exact hnodup

end SelectionLadder
