import SelectionLadder.Proofs.Outline.Grouping
import SelectionLadder.Proofs.Outline.Provenance

/-!
# A leading document

A parser that reports the document itself as the first of its spans need not be given a root: the
node of that span is one.

* `keptSpans_cons`: a span at the start of the text stays the first one when spans are put in order.
* `ofParts_cover_document`: a document part covers nothing and is followed by no part of its kind,
  so all other parts go below it.  `partTree_document` says that this tree is taken as it is.
* `Outline.IsHeadedBy` says of an outline that its root is the node of the first span, and that the
  other spans have one node each below it.  `isHeadedBy_ofPartTree` proves it of spans that report
  the document first, and no other document and no text after it.
-/

namespace SelectionLadder

namespace Shuffles

variable {α : Type} {xs ys zs : List α}

theorem mem_or_mem (h : Shuffles xs ys zs) {a : α} (ha : a ∈ zs) : a ∈ xs ∨ a ∈ ys := by
  induction h with
  | nil => exact Or.inl ha
  | left b _ ih =>
    rcases List.mem_cons.1 ha with rfl | ha
    · exact Or.inl List.mem_cons_self
    · exact (ih ha).imp_left (List.mem_cons_of_mem b)
  | right b _ ih =>
    rcases List.mem_cons.1 ha with rfl | ha
    · exact Or.inr List.mem_cons_self
    · exact (ih ha).imp_right (List.mem_cons_of_mem b)

/-- If nothing is kept of the second list, what is kept of the whole is kept of the first one. -/
theorem filter_eq {keep : α → Bool} (h : Shuffles xs ys zs) (hys : ∀ a ∈ ys, ¬ keep a) :
    zs.filter keep = xs.filter keep := by
  induction h with
  | nil => rfl
  | left a _ ih => rw [List.filter_cons, List.filter_cons, ih hys]
  | right a _ ih =>
    rw [List.filter_cons_of_neg (hys a List.mem_cons_self)]
    exact ih fun b hb => hys b (List.mem_cons_of_mem a hb)

end Shuffles

/-- A span at the start of the text stays before all spans that are reported after it. -/
theorem keptSpans_cons {ignored : List String} {first : Span} (spans : List Span)
    (hkept : ¬ Ignores ignored first.tag) (hstart : first.start = 0) :
    keptSpans ignored (first :: spans) = first :: keptSpans ignored spans := by
  unfold keptSpans
  rw [List.filter_cons_of_pos (by simpa using hkept)]
  obtain ⟨before, after, hsorted, hrest, hbefore⟩ := List.mergeSort_cons Span.start_le_trans
    Span.start_le_total first (spans.filter fun s => ¬ Ignores ignored s.tag)
  have hnone : before = [] := by
    refine List.eq_nil_iff_forall_not_mem.2 fun s hs => ?_
    simpa [hstart] using hbefore s hs
  rw [hsorted, hrest, hnone, List.nil_append, List.nil_append]

/-! ## One tree -/

section

variable {length : Nat} {ps : List Part}

/-- Covering adds text only. -/
theorem mem_or_kind_of_mem_cover {q : Part} (hq : q ∈ cover length ps) :
    q ∈ ps ∨ q.kind = .text := by
  obtain ⟨fillers, hshuffles, htext⟩ := shuffles_cover length ps
  exact (hshuffles.mem_or_mem hq).imp_right (htext q)

/-- A document part that starts with the text leaves all of it to be covered. -/
theorem cover_document (stop : Nat) :
    cover length (⟨.document, 0, stop⟩ :: ps) = ⟨.document, 0, stop⟩ :: cover length ps := by
  simp [cover, coverFrom, textBetween]

/-- All parts go below a document part that no other one follows. -/
theorem ofParts_cover_document (length : Nat) (hps : ∀ q ∈ ps, q.kind ≠ .document) :
    Forest.ofParts (cover length (⟨.document, 0, length⟩ :: ps)) =
      .tree ⟨.document, 0, length⟩ (.ofParts (cover length ps)) .empty := by
  have hbelow : ∀ q ∈ cover length ps, decide (q.kind ≠ .document) = true := by
    intro q hq
    rcases mem_or_kind_of_mem_cover hq with hq | htext
    · exact decide_eq_true (hps q hq)
    · simp [htext]
  rw [cover_document, Forest.ofParts_cons, List.takeWhile_eq_self_iff.2 hbelow,
    List.dropWhile_eq_nil_iff.2 hbelow]
  congr 1
  rw [Forest.ofParts]

variable {first : Span} {spans : List Span}

/-- No document is put above a tree whose root is the document. -/
theorem partTree_document (hfirst : first.part = ⟨.document, 0, length⟩)
    (hspans : ∀ s ∈ spans, s.part.kind ≠ .document) :
    Forest.ofParts (cover length ((first :: spans).map Span.part)) =
        .tree first.part (.ofParts (cover length (spans.map Span.part))) .empty ∧
      partTree length (first :: spans) =
        (first.part, .ofParts (cover length (spans.map Span.part))) := by
  have hparts : ∀ q ∈ spans.map Span.part, q.kind ≠ .document := List.forall_mem_map.2 hspans
  have hforest := ofParts_cover_document length hparts
  rw [List.map_cons, partTree, List.map_cons, hfirst, hforest]
  exact ⟨rfl, by simp [rooted]⟩

end

/-! ## The outline -/

namespace Outline

/-- The outline has one node for each span, and other nodes are text.  The node of the first span
is the root, and those of the other spans lie below it, in the order of the spans. -/
def IsHeadedBy (o : Outline) (first : Span) (spans : List Span) : Prop :=
  ∃ root nodes, o.rootNode? = some root ∧ o.walk = root :: nodes ∧ root.part = first.part ∧
    (nodes.filter fun n => n.kind ≠ .text).map Node.part = spans.map Span.part

theorem isHeadedBy_ofPartTree {length : Nat} {first : Span} {spans : List Span}
    (hfirst : first.part = ⟨.document, 0, length⟩)
    (hspans : ∀ s ∈ spans, s.part.kind ≠ .document ∧ s.part.kind ≠ .text) :
    (ofPartTree length (partTree length (first :: spans))).IsHeadedBy first spans := by
  obtain ⟨-, htree⟩ := partTree_document hfirst fun s hs => (hspans s hs).1
  have hbuilt := isTiledTree_ofPartTree length (partTree length (first :: spans))
  obtain ⟨own, margins, hnodes, hown, hmargins⟩ :=
    madeOf_nodesBelow length (partTree length (first :: spans))
  obtain ⟨fillers, hcover, hfillers⟩ := shuffles_cover length (spans.map Span.part)
  rw [htree, Forest.preorder_ofParts] at hown
  -- Margins and fillers are text, and no span is.
  have hown_nodes : ((nodesBelow length (partTree length (first :: spans))).preorder.filter
      fun n => n.kind ≠ .text) = own.filter fun n => n.kind ≠ .text :=
    hnodes.filter_eq fun m hm => by simp [(hmargins m hm).1]
  have hreported : ((cover length (spans.map Span.part)).filter fun q => q.kind ≠ .text) =
      spans.map Span.part := by
    rw [hcover.filter_eq fun q hq => by simp [hfillers q hq]]
    refine List.filter_eq_self.2 (List.forall_mem_map.2 fun s hs => ?_)
    exact decide_eq_true (hspans s hs).2
  refine ⟨_, _, hbuilt.rootNode?_eq, hbuilt.walk_eq.trans (Forest.preorder_tree_empty _ _), ?_, ?_⟩
  · have hroot : (partTree length (first :: spans)).1 = first.part := by rw [htree]
    exact hroot
  · rw [hown_nodes, ← hreported, ← hown, List.filter_map]
    rfl

end Outline

end SelectionLadder
