import SelectionLadder.Proofs.Outline.Provenance

/-!
# Where contents lie

No node of an outline that is built from spans has content past the end of the document.  Spans do
not go on after it, and the text that the builder adds lies between the ends of spans and of the
document.

`Part.Within` says it of a part.  Each step of building keeps it: `within_cover`, `within_frame`
and, by induction on the forest, `within_framed`.
-/

namespace SelectionLadder

/-- The part does not go on after so many characters. -/
def Part.Within (length : Nat) (p : Part) : Prop := p.start ≤ length ∧ p.stop ≤ length

variable {length : Nat}

theorem within_textBetween {start stop : Nat} (hstop : stop ≤ length) :
    ∀ q ∈ textBetween start stop, q.Within length := by
  intro q hq
  obtain ⟨hlt, rfl⟩ := mem_textBetween hq
  exact ⟨(Nat.le_of_lt hlt).trans hstop, hstop⟩

theorem within_coverFrom {cursor : Nat} {ps : List Part} (h : ∀ p ∈ ps, p.Within length) :
    ∀ q ∈ coverFrom length cursor ps, q.Within length := by
  induction ps generalizing cursor with
  | nil => exact within_textBetween (Nat.le_refl _)
  | cons p ps ih =>
    obtain ⟨hp, hps⟩ := List.forall_mem_cons.1 h
    rw [coverFrom, List.forall_mem_append, List.forall_mem_cons]
    exact ⟨within_textBetween hp.1, hp, ih hps⟩

namespace Forest

theorem preorder_leavesOf (ps : List Part) : (leavesOf ps).preorder = ps := by
  induction ps with
  | nil => rfl
  | cons p ps ih => rw [leavesOf, preorder, ih, preorder, List.nil_append]

/-- The first root of a forest is in it. -/
theorem mem_preorder_of_firstRoot? {f : Forest Part} {p : Part} (h : f.firstRoot? = some p) :
    p ∈ f.preorder := by
  cases f with
  | empty => cases h
  | tree q below rest =>
    obtain rfl := Option.some.inj h
    exact List.mem_cons_self

theorem within_frame {p : Part} {children inner : Forest Part} (hp : p.Within length)
    (hchildren : ∀ q ∈ children.preorder, q.Within length)
    (hinner : ∀ q ∈ inner.preorder, q.Within length) :
    ∀ q ∈ (frame p children inner).preorder, q.Within length := by
  unfold frame
  split
  · exact hinner
  · rename_i first hfirst
    have hstart := hchildren first (mem_preorder_of_firstRoot? hfirst)
    rw [preorder_append, preorder_append, preorder_leavesOf, preorder_leavesOf,
      List.forall_mem_append, List.forall_mem_append]
    exact ⟨⟨within_textBetween hstart.1, hinner⟩, within_textBetween hp.2⟩

theorem within_framed {f : Forest Part} (h : ∀ p ∈ f.preorder, p.Within length) :
    ∀ q ∈ f.framed.preorder, q.Within length := by
  induction f with
  | empty => exact h
  | tree p below rest ihBelow ihRest =>
    rw [preorder, List.forall_mem_cons, List.forall_mem_append] at h
    obtain ⟨hp, hbelow, hrest⟩ := h
    rw [framed, preorder, List.forall_mem_cons, List.forall_mem_append]
    exact ⟨hp, within_frame hp hbelow (ihBelow hbelow), ihRest hrest⟩

end Forest

namespace Outline

variable {o : Outline}

/-- The parts of a tree are those of the cover, and perhaps a document above them. -/
theorem within_partTree {spans : List Span} (h : ∀ s ∈ spans, s.part.Within length) :
    (partTree length spans).1.Within length ∧
      ∀ p ∈ (partTree length spans).2.preorder, p.Within length := by
  have hcover : ∀ p ∈ cover length (spans.map Span.part), p.Within length := by
    apply within_coverFrom
    simpa using h
  rcases preorder_partTree length spans with hpreorder | hrooted
  · rw [← List.forall_mem_cons, hpreorder]
    exact hcover
  · rw [hrooted, Forest.preorder_ofParts]
    exact ⟨⟨Nat.zero_le _, Nat.le_refl _⟩, hcover⟩

/-- The nodes of an outline were made of the parts of a tree and of the text around them. -/
theorem map_part_nodes (length : Nat) (tree : Part × Forest Part) :
    ((ofPartTree length tree).nodes.nodes.map Node.part).Perm
      (tree.1 :: (frame tree.1 tree.2 tree.2.framed).preorder) := by
  have hperm := (isTiledTree_ofPartTree length tree).perm.map Node.part
  rw [Forest.preorder_tree_empty, List.map_cons] at hperm
  have hbelow : (nodesBelow length tree).map Node.part = frame tree.1 tree.2 tree.2.framed := by
    rw [nodesBelow, placedBelow, Forest.map_part_numberedForest, Forest.map_part_place]
  rw [← hbelow, Forest.preorder_map]
  exact hperm

/-- Spans from which an outline is built lie in the text. -/
theorem within_keptSpans {ignored : List String} {spans : List Span} {text : List Char}
    (h : build ignored spans text = .ok o) :
    ∀ s ∈ keptSpans ignored spans, s.part.Within text.length := by
  intro s hs
  obtain ⟨hforward, hstop⟩ :=
    fits_of_build h s (List.mem_filter.1 (List.mem_mergeSort.1 hs)).1
  exact ⟨hforward.trans hstop, hstop⟩

/-- No content goes on after the document. -/
theorem content_le_of_build {ignored : List String} {spans : List Span} {text : List Char}
    (h : build ignored spans text = .ok o) {n : Node} (hn : n ∈ o.nodes.nodes) :
    n.contentStart ≤ text.length ∧ n.contentStop ≤ text.length := by
  obtain ⟨hroot, hbelow⟩ := within_partTree (within_keptSpans h)
  have hparts := List.forall_mem_cons.2
    ⟨hroot, Forest.within_frame hroot hbelow (Forest.within_framed hbelow)⟩
  rw [build_eq_ok h] at hn
  exact hparts n.part ((map_part_nodes _ _).mem_iff.1 (List.mem_map_of_mem hn))

end Outline

end SelectionLadder
