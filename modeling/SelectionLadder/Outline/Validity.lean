import SelectionLadder.Outline.Basic

/-!
# Validity of outlines

An outline is valid if its nodes form one tree under the root: every child that is listed exists,
knows its parent and is listed once, every node can be reached, and every node occupies a stretch
of the document.
-/

namespace SelectionLadder

/-- Why nodes do not form a tree. -/
inductive OutlineError where
  /-- No node is stored under the identifier. -/
  | notFound (id : NodeId)
  /-- The node's stretch is reversed or stops after the document does. -/
  | badStretch (node : Node) (length : Nat)
  /-- The node is met a second time. -/
  | repeated (id : NodeId)
  /-- The node stored under `child` has another identifier or names another parent. -/
  | misplaced (child parent : NodeId)
  /-- So many nodes have not been met. -/
  | unreachable (count : Nat)
deriving DecidableEq

/-- What the error says. -/
def OutlineError.message : OutlineError → String
  | notFound id => s!"Node not found: {id.display}"
  | badStretch n length =>
    s!"Malformed structure graph: node {n.id.display} spans {n.start}..{n.stop}" ++
      s!" in a document of length {length}"
  | repeated id => s!"Malformed structure graph: node {id.display} is reached more than once"
  | misplaced child parent =>
    s!"Malformed structure graph: node {child.display} is listed under {parent.display}" ++
      " but names another parent"
  | unreachable count =>
    s!"Malformed structure graph: {count} nodes are not reachable from the root"

namespace Outline

/-- The node stored under an identifier. -/
def node (o : Outline) (id : NodeId) : Except OutlineError Node :=
  match o.node? id with
  | some n => .ok n
  | none => .error (.notFound id)

/-- The child listed under an identifier, which must have that identifier and know its parent. -/
def checkedChild (o : Outline) (parent id : NodeId) : Except OutlineError Node := do
  let child ← o.node id
  if child.id ≠ id ∨ child.parent ≠ some parent then throw (.misplaced id parent)
  return child

/-- Checks the nodes of a stack and the nodes below them, the last child of a node first.  Each
node must still be open; `met` counts the nodes that have been closed. -/
def check (o : Outline) (met : Nat) (openIds : List NodeId) :
    List Node → Except OutlineError Unit
  | [] => if met = o.nodes.size then .ok () else .error (.unreachable (o.nodes.size - met))
  | n :: stack =>
    if n.start > n.stop ∨ n.stop > o.length then .error (.badStretch n o.length)
    else if n.id ∈ openIds then
      match n.children.mapM (o.checkedChild n.id) with
      | .error e => .error e
      | .ok below => o.check (met + 1) (close openIds n.id) (below.reverse ++ stack)
    else .error (.repeated n.id)
termination_by openIds.length
decreasing_by exact length_close_lt ‹_›

/-- Checks that the nodes form one tree under the root. -/
def validate (o : Outline) : Except OutlineError Unit :=
  match o.node o.root with
  | .error e => .error e
  | .ok root => o.check 0 o.ownIds [root]

end Outline

end SelectionLadder
