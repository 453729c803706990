import SelectionLadder.Proofs.Json.Values
import SelectionLadder.Proofs.Outline.Renaming

/-!
# Encoded outlines

Whatever way an outline has come to be, it is the one that its encoded form decodes to, and its
encoded form is the value that its text gives.

`Outline.Arises` lists the ways.  The nodes of an outline that is built from spans get identifiers
that are not known in advance, and the order in which the entries of an outline are sent is not
fixed; both are left open.  The main result is `Arises.decodes_as_sent`.
-/

namespace SelectionLadder

/-! ## Encoded forms are proper -/

theorem NodeId.isProper_toJson (id : NodeId) : id.toJson.IsProper := .string _

theorem Kind.isProper_toJson (k : Kind) : k.toJson.IsProper := by
  cases k with
  | heading level =>
    have hlevel : level.toNat < UInt64.size := Nat.lt_trans level.toNat_lt (by decide)
    exact .object (by simp) (by simpa using Json.IsProper.nat hlevel)
  | other tag => exact .object (by simp) (by simpa using Json.IsProper.string tag)
  | _ => exact .string _

namespace Node

theorem isProper_toJson {n : Node} (h : n.IsEncodable) : n.toJson.IsProper := by
  have hparent : ((n.parent.map NodeId.toJson).getD .null).IsProper := by
    cases n.parent with
    | none => exact .null
    | some parent => exact parent.isProper_toJson
  have hchildren : (Json.array (n.children.map NodeId.toJson)).IsProper := by
    refine .array fun item hitem => ?_
    obtain ⟨child, -, rfl⟩ := List.mem_map.1 hitem
    exact child.isProper_toJson
  refine .object (by simp) ?_
  simp only [List.forall_mem_cons, List.not_mem_nil, false_imp_iff, implies_true, and_true]
  exact ⟨n.id.isProper_toJson, hparent, hchildren, n.kind.isProper_toJson,
    .nat h.contentStart_lt, .nat h.contentStop_lt, .nat h.start_lt, .nat h.stop_lt⟩

end Node

namespace Outline

variable {o : Outline}

/-- Identifiers that differ are different names of members. -/
theorem nodup_display (h : o.nodes.IsEncodable) :
    (o.nodes.entries.map fun e => e.1.display).Nodup := by
  have hkeys : (o.nodes.keys.map NodeId.display).Nodup := by
    apply o.nodes.nodup_keys.map_on
    intro a ha b hb heq
    obtain ⟨e, he, rfl⟩ := List.mem_map.1 ha
    obtain ⟨e', he', rfl⟩ := List.mem_map.1 hb
    exact NodeId.eq_of_display_eq (h e he).1 (h e' he').1 heq
  rwa [NodeMap.keys, List.map_map] at hkeys

theorem isProper_toJson (h : o.IsEncodable) : o.toJson.IsProper := by
  have hnodes :
      (Json.object (o.nodes.entries.map fun e => (e.1.display, e.2.toJson))).IsProper := by
    refine .object ?_ ?_
    · rw [List.map_map]
      exact nodup_display h.nodes
    · intro m hm
      obtain ⟨e, he, rfl⟩ := List.mem_map.1 hm
      exact Node.isProper_toJson (h.nodes e he).2
  refine .object (by simp) ?_
  simp only [List.forall_mem_cons, List.not_mem_nil, false_imp_iff, implies_true, and_true]
  exact ⟨o.root.isProper_toJson, hnodes, .nat h.length_lt⟩

/-! ## There and back -/

/-- How an outline comes to be.  It is built from spans, for a text whose length is a number of 64
bits, and its nodes have got any identifiers of 128 bits that differ; or it is decoded. -/
inductive Arises : Outline → Prop where
  | built {ignored : List String} {spans : List Span} {text : List Char} {plan o : Outline}
    {name : NodeId → NodeId} (hbuild : build ignored spans text = .ok plan)
    (htext : text.length < UInt64.size) (hname : ∀ id, (name id).value < NodeId.count)
    (hcopy : IsCopy name plan o) : Arises o
  | decoded {j : Json} {o : Outline} (h : ofJson j = .ok o) : Arises o

theorem Arises.isEncodable (h : o.Arises) : o.IsEncodable := by
  cases h with
  | built hbuild htext hname hcopy => exact hcopy.isEncodable_of_build hbuild htext hname
  | decoded h => exact isEncodable_of_ofJson h

theorem Arises.validate_eq (h : o.Arises) : o.validate = .ok () := by
  cases h with
  | built hbuild _ _ hcopy => exact hcopy.validate_eq_of_isBuilt ⟨_, _, _, hbuild⟩
  | decoded h => exact (exists_ofJson_iff.1 ⟨_, h⟩).2

/-- In whatever order and layout the entries of an outline are sent, the text is read as its encoded
form, which decodes to the outline that was sent: with the same root, length and nodes, and the
same answers. -/
theorem Arises.decodes_as_sent (h : o.Arises) {sent : Outline} (hsent : IsCopy id o sent) :
    sent.validate = .ok () ∧
      Json.ofText? (String.ofList sent.toJson.compact) = some sent.toJson ∧
      Json.ofText? sent.toJson.pretty = some sent.toJson ∧ ofJson sent.toJson = .ok sent ∧
      sent.root = o.root ∧ sent.length = o.length ∧
      sent.nodes.entries.Perm o.nodes.entries ∧ o.AnswersLike sent := by
  have hencodable := hsent.isEncodable_of_isEncodable h.isEncodable
  have hvalid := hsent.validate_eq_of_validate h.validate_eq
  obtain ⟨root, below, hstores, -⟩ := exists_stores_of_validate h.validate_eq
  have hproper := isProper_toJson hencodable
  exact ⟨hvalid, Json.ofText?_compact hproper, Json.ofText?_pretty hproper,
    ofJson_toJson hencodable hvalid, hsent.root_eq, hsent.length_eq, hsent.perm_entries,
    hstores.answersLike hsent⟩

/-- The outline with its entries the other way round. -/
def turned (o : Outline) : Outline :=
  { o with nodes := ⟨o.nodes.entries.reverse, by simpa using o.nodes.nodup_keys⟩ }

theorem isCopy_turned (o : Outline) : IsCopy id o o.turned where
  root_eq := rfl
  perm := by
    rw [map_rename_id]
    exact List.reverse_perm _
  length_eq := rfl

/-- Identifiers `1` and `3` for the first two nodes. -/
def oneThree (id : NodeId) : NodeId := if id = ⟨0⟩ then ⟨1⟩ else ⟨3⟩

/-- A document that is one paragraph. -/
theorem build_paragraph :
    build [] [⟨"Document", 0, 2⟩, ⟨"Paragraph", 0, 2⟩] ['a', 'b'] =
      .ok (ofPartTree 2 (⟨.document, 0, 2⟩, .tree ⟨.paragraph, 0, 2⟩ .empty .empty)) := by
  have hkept : keptSpans [] [⟨"Document", 0, 2⟩, ⟨"Paragraph", 0, 2⟩] =
      [⟨"Document", 0, 2⟩, ⟨"Paragraph", 0, 2⟩] := keptSpans_eq_self (by decide) (by decide)
  have hcover : cover 2 ([⟨"Document", 0, 2⟩, ⟨"Paragraph", 0, 2⟩].map Span.part) =
      [⟨.document, 0, 2⟩, ⟨.paragraph, 0, 2⟩] := by decide
  show Except.ok (ofPartTree 2 (partTree 2 (keptSpans _ _))) = _
  rw [hkept, partTree, hcover]
  simp [Forest.ofParts, rooted]

theorem decodes_as_sent_rootedAt :
    (rootedAt ⟨1⟩).Arises ∧ ofJson (rootedAt ⟨1⟩).turned.toJson = .ok (rootedAt ⟨1⟩).turned ∧
      (rootedAt ⟨2⟩).Arises ∧ (rootedAt ⟨2⟩).AnswersLike (rootedAt ⟨2⟩).turned := by
  have hname : ∀ id, (oneThree id).value < NodeId.count := by
    intro id
    unfold oneThree
    split <;> decide
  have hbuilt : (rootedAt ⟨1⟩).Arises :=
    .built build_paragraph (by decide) hname ⟨rfl, List.Perm.refl _, rfl⟩
  have hdecoded : ofJson (rootedAt ⟨2⟩).toJson = .ok (rootedAt ⟨2⟩) :=
    ofJson_toJson_rootedAt (by decide) (by decide +kernel)
  obtain ⟨-, -, -, hback, -⟩ := hbuilt.decodes_as_sent (isCopy_turned _)
  obtain ⟨-, -, -, -, -, -, -, hanswers⟩ :=
    (Arises.decoded hdecoded).decodes_as_sent (isCopy_turned _)
  exact ⟨hbuilt, hback, .decoded hdecoded, hanswers⟩

end Outline

end SelectionLadder
