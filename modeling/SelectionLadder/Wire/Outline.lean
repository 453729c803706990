import SelectionLadder.Wire.Choice

/-!
# Outlines on the wire

An outline is encoded with its nodes under the written forms of their identifiers.  An outline
that is decoded has to be valid.
-/

namespace SelectionLadder

/-! ## Identifiers -/

/-- Decodes an identifier. -/
def NodeId.ofJson (j : Json) : Except Wire.Error NodeId := do
  match NodeId.ofString? (← Wire.string j) with
  | some id => return id
  | none => throw .undecodable

/-- The encoded form of an identifier. -/
def NodeId.toJson (id : NodeId) : Json := .string id.display

/-- Decodes an identifier that may be null. -/
def NodeId.ofJsonOrNull : Json → Except Wire.Error (Option NodeId)
  | .null => .ok none
  | j => (NodeId.ofJson j).map some

/-! ## Nodes -/

/-- The encoded form of a node. -/
def Node.toJson (n : Node) : Json :=
  .object
    [("id", n.id.toJson),
     ("parent", (n.parent.map NodeId.toJson).getD .null),
     ("children", .array (n.children.map NodeId.toJson)),
     ("kind", n.kind.toJson),
     ("content_from", .nat n.contentStart),
     ("content_to", .nat n.contentStop),
     ("span_from", .nat n.start),
     ("span_to", .nat n.stop)]

/-- The fields of a node; the root need not mention that it has no parent. -/
def Node.fields : List Wire.Field :=
  [⟨"id", none⟩, ⟨"parent", some .null⟩, ⟨"children", none⟩, ⟨"kind", none⟩,
   ⟨"content_from", none⟩, ⟨"content_to", none⟩, ⟨"span_from", none⟩, ⟨"span_to", none⟩]

/-- Decodes a node. -/
def Node.ofJson (j : Json) : Except Wire.Error Node := do
  match ← Wire.record Node.fields j with
  | [id, parent, children, kind, contentStart, contentStop, start, stop] =>
    return {
      id := ← NodeId.ofJson id
      parent := ← NodeId.ofJsonOrNull parent
      children := ← Wire.list NodeId.ofJson children
      kind := ← Kind.ofJson kind
      contentStart := ← Wire.natural contentStart
      contentStop := ← Wire.natural contentStop
      start := ← Wire.natural start
      stop := ← Wire.natural stop }
  | _ => throw .undecodable

/-! ## Outlines -/

namespace Outline

/-- The encoded form of an outline. -/
def toJson (o : Outline) : Json :=
  .object
    [("root", o.root.toJson),
     ("nodes", .object (o.nodes.entries.map fun e => (e.1.display, e.2.toJson))),
     ("document_len", .nat o.length)]

/-- Decodes the nodes of an outline.  One identifier can be written in several ways; the last
node under it counts. -/
def nodesOfJson : Json → Except Wire.Error NodeMap
  | .object members =>
    members.foldlM
      (fun nodes m => do return nodes.insert (← NodeId.ofJson (.string m.1)) (← Node.ofJson m.2))
      .empty
  | _ => .error .undecodable

/-- Decodes an outline and checks that it is valid. -/
def ofJson (j : Json) : Except Wire.Error Outline := do
  match ← Wire.record [⟨"root", none⟩, ⟨"nodes", none⟩, ⟨"document_len", none⟩] j with
  | [root, nodes, length] =>
    let o : Outline :=
      ⟨← NodeId.ofJson root, ← nodesOfJson nodes, ← Wire.natural length⟩
    o.validate.mapError .outline
    return o
  | _ => throw .undecodable

end Outline

end SelectionLadder
