import SelectionLadder.NodeId
import SelectionLadder.Outline.Placement

/-!
# Nodes

The nodes of an outline are stored under identifiers.  A `NodeMap` has at most one node under each
identifier; which one that is does not depend on the identifier that the node itself has.

`Forest.numbered` makes nodes of a placed forest and numbers them in preorder, so that all
identifiers are different.
-/

namespace SelectionLadder

/-- A unit of a document within its structure. -/
structure Node where
  id : NodeId
  parent : Option NodeId
  children : List NodeId
  kind : Kind
  /-- Where the parser has found the unit. -/
  contentStart : Nat
  contentStop : Nat
  /-- The stretch that the unit occupies together with the text around it. -/
  start : Nat
  stop : Nat
deriving DecidableEq, Repr, Inhabited

/-- The node has no children. -/
def Node.IsLeaf (n : Node) : Prop := n.children = []

instance (n : Node) : Decidable n.IsLeaf := inferInstanceAs (Decidable (_ = []))

/-- How many offsets the node occupies. -/
def Node.spanLength (n : Node) : Nat := n.stop - n.start

/-! ## Stored nodes -/

/-- Nodes by identifier. -/
structure NodeMap where
  entries : List (NodeId × Node)
  nodup_keys : (entries.map (·.1)).Nodup
deriving DecidableEq

namespace NodeMap

/-- No nodes. -/
def empty : NodeMap := ⟨[], by simp⟩

instance : Inhabited NodeMap := ⟨empty⟩

/-- The node stored under an identifier. -/
def find? (m : NodeMap) (id : NodeId) : Option Node := m.entries.lookup id

/-- The identifiers under which nodes are stored. -/
def keys (m : NodeMap) : List NodeId := m.entries.map (·.1)

/-- The nodes that are stored. -/
def nodes (m : NodeMap) : List Node := m.entries.map (·.2)

/-- How many nodes are stored. -/
def size (m : NodeMap) : Nat := m.entries.length

/-- Stores a node under an identifier, in place of the one stored there before. -/
def insert (m : NodeMap) (id : NodeId) (n : Node) : NodeMap where
  entries := m.entries.filter (fun e => e.1 ≠ id) ++ [(id, n)]
  nodup_keys := by
    rw [List.map_append, List.nodup_append]
    refine ⟨m.nodup_keys.sublist (List.filter_sublist.map _), by simp, ?_⟩
    intro a ha b hb
    obtain ⟨e, he, rfl⟩ := List.mem_map.1 ha
    simp only [List.map_cons, List.map_nil, List.mem_singleton] at hb
    simpa [hb] using (List.mem_filter.1 he).2

/-- Stores nodes under the identifiers that they have themselves, which differ. -/
def ofNodes (nodes : List Node) (h : (nodes.map (·.id)).Nodup) : NodeMap where
  entries := nodes.map fun n => (n.id, n)
  nodup_keys := by simpa [Function.comp_def] using h

end NodeMap

/-! ## Numbering -/

/-- The identifiers of the roots of a forest that is numbered from `next`. -/
def Forest.rootIds (next : Nat) : Forest PlacedPart → List NodeId
  | .empty => []
  | .tree _ below rest => ⟨next⟩ :: rest.rootIds (next + below.size + 1)

/-- The nodes of a forest that is numbered from `next`, each before those below it. -/
def Forest.numbered (parent : Option NodeId) (next : Nat) : Forest PlacedPart → List Node
  | .empty => []
  | .tree p below rest =>
    { id := ⟨next⟩
      parent
      children := below.rootIds (next + 1)
      kind := p.part.kind
      contentStart := p.part.start
      contentStop := p.part.stop
      start := p.start
      stop := p.stop } ::
    (below.numbered (some ⟨next⟩) (next + 1) ++ rest.numbered parent (next + below.size + 1))

/-- Numbering uses the numbers from `next` on, one after the other. -/
theorem Forest.map_id_numbered (parent : Option NodeId) (next : Nat) (f : Forest PlacedPart) :
    (f.numbered parent next).map (·.id) = (List.range' next f.size).map NodeId.mk := by
  induction f generalizing parent next with
  | empty => rfl
  | tree p below rest ihBelow ihRest =>
    have hsize : below.size + 1 + rest.size = (below.size + rest.size) + 1 := by omega
    rw [numbered, size, hsize, List.range'_succ, ← List.range'_append_1]
    simp only [List.map_cons, List.map_append, ihBelow, ihRest]
    rw [show next + 1 + below.size = next + below.size + 1 by omega]

theorem Forest.nodup_numbered (parent : Option NodeId) (next : Nat) (f : Forest PlacedPart) :
    ((f.numbered parent next).map (·.id)).Nodup := by
  rw [map_id_numbered, List.nodup_iff_pairwise_ne, List.pairwise_map]
  exact (List.pairwise_lt_range' ..).imp fun h hab => Nat.ne_of_lt h (NodeId.mk.inj hab)

end SelectionLadder
