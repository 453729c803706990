import SelectionLadder.Outline.Node

/-!
# Outlines

An outline is the structure of one document: a set of nodes, each stored under an identifier, of
which one is the root.  A node names its children, so an outline that comes from outside need not
be a tree; `Outline.Validity` decides whether it is.  `Outline.ofTree` numbers the nodes of a
placed tree in preorder.

The queries follow the identifiers.  `pathAt` descends from the root to the deepest node that
holds an offset, and `walk` visits everything that can be reached, each identifier once.
-/

namespace SelectionLadder

/-- The structure of a document with `length` characters. -/
structure Outline where
  root : NodeId
  nodes : NodeMap
  length : Nat
deriving DecidableEq, Inhabited

namespace Outline

/-- The outline of a document that is a placed tree. -/
def ofTree (length : Nat) (root : PlacedPart) (below : Forest PlacedPart) : Outline where
  root := ⟨0⟩
  nodes := .ofNodes ((Forest.tree root below .empty).numbered none 0) (Forest.nodup_numbered _ _ _)
  length

/-! ## Queries -/

/-- The node stored under an identifier. -/
def node? (o : Outline) (id : NodeId) : Option Node := o.nodes.find? id

/-- The node stored under the root's identifier. -/
def rootNode? (o : Outline) : Option Node := o.node? o.root

/-- The nodes that a node lists as its children, as far as they exist. -/
def childrenOf (o : Outline) (n : Node) : List Node := n.children.filterMap o.node?

/-- The children of the node stored under an identifier. -/
def children (o : Outline) (id : NodeId) : List Node :=
  ((o.node? id).map o.childrenOf).getD []

/-- The offset lies in the node.  Nodes are half-open, but the end of the document belongs to the
nodes that stop there. -/
def Holds (o : Outline) (n : Node) (offset : Nat) : Prop :=
  n.start ≤ offset ∧ (offset < n.stop ∨ (offset = o.length ∧ n.stop = o.length))

instance (o : Outline) (n : Node) (offset : Nat) : Decidable (o.Holds n offset) :=
  inferInstanceAs (Decidable (_ ∧ _))

/-- The first child of a node that holds the offset. -/
def childAt? (o : Outline) (id : NodeId) (offset : Nat) : Option Node :=
  (o.children id).find? fun child => o.Holds child offset

/-- At most `depth` steps down from a node, each to the first child that holds the offset. -/
def descend (o : Outline) (offset : Nat) : Nat → NodeId → List NodeId
  | 0, _ => []
  | depth + 1, id =>
    match o.childAt? id offset with
    | none => []
    | some child => child.id :: o.descend offset depth child.id

/-- The identifiers from the root down to the deepest node that holds the offset. -/
def pathAt (o : Outline) (offset : Nat) : List NodeId :=
  o.root :: ((o.rootNode?.map fun n => o.descend offset o.nodes.size n.id).getD [])

/-- The deepest node that holds the offset, or the root. -/
def nodeAt? (o : Outline) (offset : Nat) : Option Node :=
  ((o.pathAt offset).getLast?.bind o.node?).or o.rootNode?

/-! ## Walks -/

/-- The open identifiers after one is closed. -/
def close (openIds : List NodeId) (id : NodeId) : List NodeId := openIds.filter (· ≠ id)

theorem length_close_lt {openIds : List NodeId} {id : NodeId} (h : id ∈ openIds) :
    (close openIds id).length < openIds.length :=
  List.length_filter_lt_length_iff_exists.2 ⟨id, h, by simp⟩

/-- Visits the nodes of a stack and the nodes below them, a node before those below it.  Only
identifiers that are still open are visited, and a visit closes the node's own. -/
def visit (below : Node → List Node) (openIds : List NodeId) : List Node → List Node
  | [] => []
  | n :: stack =>
    if n.id ∈ openIds then
      n :: visit below (close openIds n.id) (below n ++ stack)
    else visit below openIds stack
termination_by stack => (openIds.length, stack.length)
decreasing_by
  · exact Prod.Lex.left _ _ (length_close_lt ‹_›)
  · exact Prod.Lex.right _ (Nat.lt_succ_self _)

/-- The identifiers that the nodes themselves have. -/
def ownIds (o : Outline) : List NodeId := o.nodes.nodes.map (·.id)

/-- All nodes below the root in document order, the root first. -/
def walk (o : Outline) : List Node := visit o.childrenOf o.ownIds o.rootNode?.toList

/-- The nodes without children in document order. -/
def leaves (o : Outline) : List Node := o.walk.filter fun n => n.IsLeaf

end Outline

end SelectionLadder
