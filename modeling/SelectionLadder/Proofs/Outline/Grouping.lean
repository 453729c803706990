import Mathlib.Data.List.TakeWhile
import SelectionLadder.Outline.Part
import SelectionLadder.Proofs.Outline.Tree

/-!
# Grouping is canonical

`Forest.ofParts` makes a forest of a flat list of parts.  It loses, repeats and moves no part, and
what it makes is determined by how kinds lie in it:

* siblings, and the roots, are of one kind (`Forest.SiblingsAlike`),
* no part lies below a part of its own kind (`Forest.NestsApart`).

`eq_ofParts_iff` says that `ofParts ps` is the one forest with both properties whose preorder is
`ps`.
-/

namespace SelectionLadder

namespace Forest

/-- The roots are of one kind, and so are the roots below each part. -/
def SiblingsAlike : Forest Part → Prop
  | empty => True
  | tree p below rest =>
    (∀ q ∈ rest.roots, q.kind = p.kind) ∧ below.SiblingsAlike ∧ rest.SiblingsAlike

/-- No part lies below a part of its own kind. -/
def NestsApart : Forest Part → Prop
  | empty => True
  | tree p below rest =>
    (∀ q ∈ below.preorder, q.kind ≠ p.kind) ∧ below.NestsApart ∧ rest.NestsApart

variable {p q : Part} {ps : List Part} {f : Forest Part}

theorem ofParts_cons (p : Part) (ps : List Part) :
    ofParts (p :: ps) =
      tree p (ofParts (ps.takeWhile fun q => q.kind ≠ p.kind))
        (ofParts (ps.dropWhile fun q => q.kind ≠ p.kind)) := by
  rw [ofParts]

theorem preorder_ofParts (ps : List Part) : (ofParts ps).preorder = ps := by
  induction ps using ofParts.induct with
  | case1 => rw [ofParts, preorder]
  | case2 p ps ihBelow ihRest =>
    rw [ofParts_cons, preorder, ihBelow, ihRest, List.takeWhile_append_dropWhile]

/-- What is left of a list after a group starts with the dividing kind. -/
theorem kind_eq_of_head?_dropWhile {k : Kind}
    (h : (ps.dropWhile fun q => q.kind ≠ k).head? = some q) : q.kind = k := by
  have hhead := List.head?_dropWhile_not (fun q : Part => decide (q.kind ≠ k)) ps
  rw [h] at hhead
  simpa using hhead

/-- All roots are of the kind of the first part. -/
theorem kind_eq_of_mem_roots_ofParts (h : q ∈ (ofParts ps).roots) :
    ∃ p, ps.head? = some p ∧ q.kind = p.kind := by
  induction ps using ofParts.induct with
  | case1 =>
    rw [ofParts] at h
    exact absurd h List.not_mem_nil
  | case2 p ps _ ihRest =>
    refine ⟨p, rfl, ?_⟩
    rw [ofParts_cons, roots, List.mem_cons] at h
    rcases h with rfl | h
    · rfl
    · obtain ⟨r, hr, hqr⟩ := ihRest h
      rw [hqr, kind_eq_of_head?_dropWhile hr]

theorem siblingsAlike_ofParts (ps : List Part) : (ofParts ps).SiblingsAlike := by
  induction ps using ofParts.induct with
  | case1 =>
    rw [ofParts]
    trivial
  | case2 p ps ihBelow ihRest =>
    rw [ofParts_cons]
    refine ⟨?_, ihBelow, ihRest⟩
    intro q hq
    obtain ⟨r, hr, hqr⟩ := kind_eq_of_mem_roots_ofParts hq
    rw [hqr, kind_eq_of_head?_dropWhile hr]

theorem nestsApart_ofParts (ps : List Part) : (ofParts ps).NestsApart := by
  induction ps using ofParts.induct with
  | case1 =>
    rw [ofParts]
    trivial
  | case2 p ps ihBelow ihRest =>
    rw [ofParts_cons]
    refine ⟨?_, ihBelow, ihRest⟩
    intro q hq
    rw [preorder_ofParts] at hq
    simpa using List.mem_takeWhile_imp hq

/-- In the preorder of a tree and the trees after it, a group stops where the next root stands:
everything below the first root is of another kind than the roots are. -/
theorem group_preorder {below rest : Forest Part} (hbelow : ∀ q ∈ below.preorder, q.kind ≠ p.kind)
    (hrest : ∀ q ∈ rest.roots, q.kind = p.kind) :
    ((below.preorder ++ rest.preorder).takeWhile fun q => q.kind ≠ p.kind) = below.preorder ∧
      ((below.preorder ++ rest.preorder).dropWhile fun q => q.kind ≠ p.kind) = rest.preorder := by
  have hpass : ∀ q ∈ below.preorder, decide (q.kind ≠ p.kind) = true := by
    intro q hq
    exact decide_eq_true (hbelow q hq)
  rw [List.takeWhile_append_of_pos hpass, List.dropWhile_append_of_pos hpass]
  cases rest with
  | empty => simp [preorder]
  | tree r deeper others =>
    have hr : r.kind = p.kind := hrest r List.mem_cons_self
    simp [preorder, hr]

/-- A forest whose siblings are alike and that nests apart is what grouping makes of its
preorder. -/
theorem eq_ofParts_preorder (hsiblings : f.SiblingsAlike) (hnests : f.NestsApart) :
    f = ofParts f.preorder := by
  induction f with
  | empty => rw [preorder, ofParts]
  | tree p below rest ihBelow ihRest =>
    obtain ⟨hroots, hsiblingsBelow, hsiblingsRest⟩ := hsiblings
    obtain ⟨hkinds, hnestsBelow, hnestsRest⟩ := hnests
    obtain ⟨htake, hdrop⟩ := group_preorder hkinds hroots
    rw [preorder, ofParts_cons, htake, hdrop, ← ihBelow hsiblingsBelow hnestsBelow,
      ← ihRest hsiblingsRest hnestsRest]

/-- Grouping makes the one forest of the parts, in their order, whose siblings are alike and that
nests apart. -/
theorem eq_ofParts_iff :
    f = ofParts ps ↔ f.preorder = ps ∧ f.SiblingsAlike ∧ f.NestsApart := by
  constructor
  · rintro rfl
    exact ⟨preorder_ofParts ps, siblingsAlike_ofParts ps, nestsApart_ofParts ps⟩
  · rintro ⟨rfl, hsiblings, hnests⟩
    exact eq_ofParts_preorder hsiblings hnests

end Forest

end SelectionLadder
