import SelectionLadder.Proofs.Outline.Content
import SelectionLadder.Proofs.Outline.OneTree
import SelectionLadder.Proofs.Wire.Decoding

/-!
# Identifiers are names

Building numbers the nodes of an outline from zero on and stores them in document order.  Any other
identifiers do as well, if they differ, and so does any other order of the entries.

`IsCopy name o o'` says that `o'` is `o` under new names, its entries in any order.  The main lemma
is `Stores.copy`: a copy of a stored tree is a stored tree.

* With the old names, only the order can be another one, and what passes the check and can be
  encoded does so in any order.
* A copy of an outline that is built from spans passes the check as well
  (`IsCopy.validate_eq_of_isBuilt`), and it can be encoded (`IsCopy.isEncodable_of_build`).
-/

namespace SelectionLadder

variable {name : NodeId → NodeId}

/-- The node under new names. -/
def Node.rename (name : NodeId → NodeId) (n : Node) : Node :=
  { n with id := name n.id, parent := n.parent.map name, children := n.children.map name }

theorem Forest.Linked.rename {f : Forest Node} {parent : Option NodeId} (h : f.Linked parent) :
    (f.map (Node.rename name)).Linked (parent.map name) := by
  induction f generalizing parent with
  | empty => trivial
  | tree n below rest ihBelow ihRest =>
    obtain ⟨rfl, hbelow, hrest⟩ := h
    exact ⟨rfl, ihBelow hbelow, ihRest hrest⟩

namespace Outline

variable {o o' : Outline} {root : Node} {below f : Forest Node}

/-- The second outline is the first one under new names, its entries in any order. -/
structure IsCopy (name : NodeId → NodeId) (o o' : Outline) : Prop where
  root_eq : o'.root = name o.root
  perm : o'.nodes.entries.Perm (o.nodes.entries.map fun e => (name e.1, e.2.rename name))
  length_eq : o'.length = o.length

theorem IsCopy.node?_eq (h : IsCopy name o o') {id : NodeId} {n : Node} (hn : o.node? id = some n) :
    o'.node? (name id) = some (n.rename name) := by
  have hentry : (id, n) ∈ o.nodes.entries := o.nodes.find?_eq_some_iff.1 hn
  apply o'.nodes.find?_eq_some_iff.2
  exact h.perm.mem_iff.2 (List.mem_map.2 ⟨(id, n), hentry, rfl⟩)

theorem IsCopy.perm_nodes (h : IsCopy name o o') :
    o'.nodes.nodes.Perm (o.nodes.nodes.map (Node.rename name)) := by
  have hperm := h.perm.map (·.2)
  rw [List.map_map] at hperm
  rw [NodeMap.nodes, NodeMap.nodes, List.map_map]
  exact hperm

theorem IsCopy.perm_keys (h : IsCopy name o o') : o'.nodes.keys.Perm (o.nodes.keys.map name) := by
  have hperm := h.perm.map (·.1)
  rw [List.map_map] at hperm
  rw [NodeMap.keys, NodeMap.keys, List.map_map]
  exact hperm

theorem Spells.copy (hspells : o.Spells f) (h : IsCopy name o o') :
    o'.Spells (f.map (Node.rename name)) := by
  induction f with
  | empty => trivial
  | tree n below rest ihBelow ihRest =>
    obtain ⟨hn, hlists, hbelow, hrest⟩ := hspells
    refine ⟨h.node?_eq hn, ?_, ihBelow hbelow, ihRest hrest⟩
    show n.children.map name = _
    rw [Forest.roots_map, hlists, List.map_map, List.map_map]
    rfl

/-- The keys of the copy of a tree differ. -/
theorem IsCopy.nodup_names (h : IsCopy name o o') (hstores : o.Stores root below) :
    name o.root ∉ below.preorder.map (fun n => name n.id) ∧
      (below.preorder.map fun n => name n.id).Nodup := by
  have hkeys := (h.perm_keys.trans (hstores.perm_keys.map name)).nodup_iff.1 o'.nodes.nodup_keys
  rw [List.map_cons, List.map_map, List.nodup_cons] at hkeys
  exact hkeys

/-- A copy of a stored tree is stored, if the root's own identifier is still a new one. -/
theorem Stores.copy (hstores : o.Stores root below) (h : IsCopy name o o')
    (hroot : ∀ n ∈ below.preorder, name n.id ≠ name root.id) :
    o'.Stores (root.rename name) (below.map (Node.rename name)) where
  lists := by
    show root.children.map name = _
    rw [Forest.roots_map, hstores.lists, List.map_map, List.map_map]
    rfl
  spells := hstores.spells.copy h
  linked := hstores.linked.rename
  rootNode?_eq := by
    rw [rootNode?, h.root_eq]
    exact h.node?_eq hstores.rootNode?_eq
  nodup := by
    rw [Forest.preorder_tree_empty, Forest.preorder_map, List.map_cons, List.map_map,
      List.nodup_cons]
    refine ⟨?_, (h.nodup_names hstores).2⟩
    intro hmem
    obtain ⟨n, hn, heq⟩ := List.mem_map.1 hmem
    exact hroot n hn heq
  perm := by
    refine h.perm_nodes.trans ((hstores.perm.map _).trans ?_)
    rw [← Forest.preorder_map]
    exact List.Perm.refl _

/-- If the nodes of an outline lie in the document, so do those of a copy. -/
theorem IsCopy.fitsDocument (h : IsCopy name o o') (hfits : ∀ n ∈ o.nodes.nodes, o.FitsDocument n) :
    ∀ n ∈ o'.nodes.nodes, o'.FitsDocument n := by
  intro n hn
  obtain ⟨m, hm, rfl⟩ := List.mem_map.1 (h.perm_nodes.mem_iff.1 hn)
  show m.start ≤ m.stop ∧ m.stop ≤ o'.length
  rw [h.length_eq]
  exact hfits m hm

/-! ## Entries in another order -/

theorem map_rename_id (entries : List (NodeId × Node)) :
    (entries.map fun e => (id e.1, e.2.rename id)) = entries := by
  simp [Node.rename]

theorem IsCopy.perm_entries (h : IsCopy id o o') : o'.nodes.entries.Perm o.nodes.entries :=
  map_rename_id o.nodes.entries ▸ h.perm

/-- The same tree is stored in any order. -/
theorem Stores.reorder (hstores : o.Stores root below) (h : IsCopy id o o') :
    o'.Stores root below := by
  have hsame : Node.rename id = id := by
    funext n
    simp [Node.rename]
  have hmap : below.map (Node.rename id) = below := by
    rw [hsame, Forest.map_id]
  have hroot : ∀ n ∈ below.preorder, n.id ≠ root.id := fun n hn heq =>
    hstores.nodup_below.1 (List.mem_map.2 ⟨n, hn, heq⟩)
  have hcopy := hstores.copy h hroot
  rwa [hmap, hsame] at hcopy

theorem IsCopy.validate_eq_of_validate (h : IsCopy id o o') (hvalid : o.validate = .ok ()) :
    o'.validate = .ok () := by
  obtain ⟨root, below, hstores, hfits⟩ := exists_stores_of_validate hvalid
  exact ((hstores.reorder h).formsTree (h.fitsDocument hfits)).validate_eq

/-- All queries are answered in the same way. -/
structure AnswersLike (o o' : Outline) : Prop where
  rootNode?_eq : o'.rootNode? = o.rootNode?
  node?_eq : ∀ id, o'.node? id = o.node? id
  size_eq : o'.nodes.size = o.nodes.size
  children_eq : ∀ id, o'.children id = o.children id
  pathAt_eq : ∀ x, o'.pathAt x = o.pathAt x
  nodeAt?_eq : ∀ x, o'.nodeAt? x = o.nodeAt? x
  leaves_eq : o'.leaves = o.leaves

theorem children_congr (hnode : o'.node? = o.node?) : o'.children = o.children := by
  have hchildrenOf : o'.childrenOf = o.childrenOf := by
    funext n
    rw [childrenOf, childrenOf, hnode]
  funext id
  rw [children, children, hnode, hchildrenOf]

theorem descend_congr (hnode : o'.node? = o.node?) (hlength : o'.length = o.length) (x depth : Nat)
    (id : NodeId) : o'.descend x depth id = o.descend x depth id := by
  induction depth generalizing id with
  | zero => rfl
  | succ depth ih =>
    have hholds : (fun n => decide (o'.Holds n x)) = fun n => decide (o.Holds n x) := by
      funext n
      exact decide_eq_decide.2 (by rw [Holds, Holds, hlength])
    have hchild : o'.childAt? id x = o.childAt? id x := by
      rw [childAt?, childAt?, children_congr hnode, hholds]
    simp only [descend, hchild, ih]

/-- The answers do not depend on the order, if a tree is stored. -/
theorem Stores.answersLike (hstores : o.Stores root below) (h : IsCopy id o o') :
    o.AnswersLike o' := by
  have hnode : o'.node? = o.node? := by
    funext id
    apply Option.ext
    intro n
    show o'.nodes.find? id = some n ↔ o.nodes.find? id = some n
    rw [NodeMap.find?_eq_some_iff, NodeMap.find?_eq_some_iff, h.perm_entries.mem_iff]
  have hroot : o'.rootNode? = o.rootNode? := by
    rw [rootNode?, rootNode?, hnode, h.root_eq]
    rfl
  have hsize : o'.nodes.size = o.nodes.size := h.perm_entries.length_eq
  have hpath : ∀ x, o'.pathAt x = o.pathAt x := by
    intro x
    simp only [pathAt, hroot, h.root_eq, hsize, descend_congr hnode h.length_eq, id]
  constructor
  case rootNode?_eq => exact hroot
  case node?_eq => exact fun id => by rw [hnode]
  case size_eq => exact hsize
  case children_eq => exact fun id => by rw [children_congr hnode]
  case pathAt_eq => exact hpath
  case nodeAt?_eq => exact fun x => by rw [nodeAt?, nodeAt?, hpath, hnode, hroot]
  case leaves_eq => rw [leaves, leaves, (hstores.reorder h).walk_eq, hstores.walk_eq]

theorem IsCopy.isEncodable_of_isEncodable (h : IsCopy id o o') (ho : o.IsEncodable) :
    o'.IsEncodable where
  root_lt := by
    rw [h.root_eq]
    exact ho.root_lt
  nodes := fun e he => ho.nodes e (h.perm_entries.mem_iff.1 he)
  length_lt := by
    rw [h.length_eq]
    exact ho.length_lt

/-! ## Copies of outlines that are built -/

/-- A copy of an outline that is built from spans passes the check. -/
theorem IsCopy.validate_eq_of_isBuilt (h : IsCopy name o o') (hbuilt : o.IsBuilt) :
    o'.validate = .ok () := by
  obtain ⟨root, below, htree, -, hlinked, -⟩ := hbuilt.exists_linked
  have hstores := htree.toIsTree.stores hlinked
  refine ((hstores.copy h ?_).formsTree (h.fitsDocument ?_)).validate_eq
  · -- The root's own identifier is its key, and the keys of the copy differ.
    have hnames := (h.nodup_names hstores).1
    rw [htree.root_eq] at hnames
    exact fun n hn heq => hnames (List.mem_map.2 ⟨n, hn, heq⟩)
  · intro n hn
    exact (htree.tiled.bounds (htree.mem_nodes_iff.1 hn)).2

/-- If the new identifiers have 128 bits, and the text is not too long, it can be encoded. -/
theorem IsCopy.isEncodable_of_build (h : IsCopy name o o') {ignored : List String}
    {spans : List Span} {text : List Char} (hbuild : build ignored spans text = .ok o)
    (htext : text.length < UInt64.size) (hname : ∀ id, (name id).value < NodeId.count) :
    o'.IsEncodable where
  root_lt := by
    rw [h.root_eq]
    exact hname _
  nodes := by
    intro e he
    obtain ⟨⟨id, n⟩, hn, rfl⟩ := List.mem_map.1 (h.perm.mem_iff.1 he)
    refine ⟨hname id, ?_⟩
    have hstored : n ∈ o.nodes.nodes := List.mem_map_of_mem hn
    obtain ⟨hcontentStart, hcontentStop⟩ := content_le_of_build hbuild hstored
    obtain ⟨root, below, htree⟩ := IsBuilt.isTiledTree ⟨ignored, spans, text, hbuild⟩
    have hbounds := htree.tiled.bounds (htree.mem_nodes_iff.1 hstored)
    have hlength : o.length = text.length := by
      rw [build_eq_ok hbuild]
      rfl
    constructor
    case id_lt => exact hname _
    case parent_lt =>
      intro parent hparent
      obtain ⟨p, -, rfl⟩ := Option.map_eq_some_iff.1 hparent
      exact hname p
    case children_lt =>
      intro child hchild
      obtain ⟨c, -, rfl⟩ := List.mem_map.1 hchild
      exact hname c
    case contentStart_lt => exact Nat.lt_of_le_of_lt hcontentStart htext
    case contentStop_lt => exact Nat.lt_of_le_of_lt hcontentStop htext
    case start_lt =>
      show n.start < UInt64.size
      omega
    case stop_lt =>
      show n.stop < UInt64.size
      omega
  length_lt := by
    rw [h.length_eq, build_eq_ok hbuild]
    exact htext

end Outline

end SelectionLadder
