import Mathlib.Algebra.GroupWithZero.Nat
import SelectionLadder.Proofs.Outline.Grouping

/-!
# Grouping with a stack

A forest can also be made of a flat list by taking groups from a stack: a group is divided once,
each of its dividers is linked to the part that the group goes below, and the groups between the
dividers are put on the stack.  Then groups are divided in an order that has little to do with the
order of the document.

* Parts are numbered by their places in the list, and `Forest.links` says which part of a forest is
  linked to which.
* `linksOf` runs the stack.  It ends because dividing a group leaves fewer parts.
* `below_linksOf` compares the two: every part is linked to the same parts in the same order.  The
  step is `Group.below_divide`, which is about one group; what else is on the stack does not matter.
-/

namespace SelectionLadder

/-- Which part another one is linked to, or none for the roots, and the number of the latter. -/
abbrev Links := List (Option Nat × Nat)

/-- The parts that are linked to a part, in order. -/
def Links.below (links : Links) (above : Option Nat) : List Nat :=
  (links.filter fun link => link.1 = above).map (·.2)

/-- The links of a forest whose parts are numbered from `next`, each before those below it. -/
def Forest.links {α : Type} (above : Option Nat) (next : Nat) : Forest α → Links
  | .empty => []
  | .tree _ below rest =>
    (above, next) ::
      (below.links (some next) (next + 1) ++ rest.links above (next + below.size + 1))

/-- Parts that are still to be divided, the number of the first of them, and the part that they go
below. -/
structure Group where
  above : Option Nat
  first : Nat
  parts : List Part

namespace Group

/-- The numbers of the parts of the dividing kind, of which the first part is one, and the parts up
to the next of them. -/
def dividers (divider : Kind) (first : Nat) : List Part → List (Nat × List Part)
  | [] => []
  | _ :: ps =>
    (first, ps.takeWhile fun q => q.kind ≠ divider) ::
      dividers divider (first + (ps.takeWhile fun q => q.kind ≠ divider).length + 1)
        (ps.dropWhile fun q => q.kind ≠ divider)
termination_by ps => ps.length
decreasing_by exact Nat.lt_succ_of_le (List.dropWhile_sublist _).length_le

/-- A group is divided by the kind of its first part. -/
def divide (g : Group) : List (Nat × List Part) :=
  match g.parts with
  | [] => []
  | p :: _ => dividers p.kind g.first g.parts

/-- The group behind a divider, unless it is empty. -/
def behind (d : Nat × List Part) : List Group :=
  if d.2 = [] then [] else [⟨some d.1, d.1 + 1, d.2⟩]

/-- A bound on the work that a group makes. -/
def work (g : Group) : Nat := 2 * g.parts.length + 1

theorem work_behind_le (d : Nat × List Part) :
    ((behind d).map work).sum ≤ 2 * d.2.length + 1 := by
  unfold behind
  split
  · exact Nat.zero_le _
  · exact Nat.le_refl _

theorem work_dividers_le (divider : Kind) (first : Nat) (ps : List Part) :
    (((dividers divider first ps).flatMap behind).map work).sum ≤ 2 * ps.length := by
  induction first, ps using dividers.induct divider with
  | case1 first =>
    rw [dividers]
    exact Nat.le_refl 0
  | case2 first p ps ih =>
    have hlength := congrArg List.length
      (List.takeWhile_append_dropWhile (p := fun q : Part => decide (q.kind ≠ divider)) (l := ps))
    have hfirst := work_behind_le (first, ps.takeWhile fun q => q.kind ≠ divider)
    rw [List.length_append] at hlength
    rw [dividers, List.flatMap_cons, List.map_append, List.sum_append, List.length_cons]
    simp only at hfirst
    omega

/-- Dividing a group leaves less work. -/
theorem work_divide_lt (g : Group) : ((g.divide.flatMap behind).map work).sum < g.work := by
  unfold divide work
  split
  · exact Nat.succ_pos _
  · exact Nat.lt_succ_of_le (work_dividers_le _ _ _)

/-- The links of the forest of a group. -/
def links (g : Group) : Links := (Forest.ofParts g.parts).links g.above g.first

end Group

/-- The links that a stack of groups leads to. -/
def linksOf : List Group → Links
  | [] => []
  | g :: stack =>
    g.divide.map (fun d => (g.above, d.1)) ++
      linksOf ((g.divide.flatMap Group.behind).reverse ++ stack)
termination_by stack => (stack.map Group.work).sum
decreasing_by
  have hless := g.work_divide_lt
  simp only [List.map_append, List.map_reverse, List.sum_append, List.sum_reverse, List.map_cons,
    List.sum_cons]
  omega

/-! ## Links of a forest -/

namespace Links

theorem below_append (xs ys : Links) (above : Option Nat) :
    Links.below (xs ++ ys) above = xs.below above ++ ys.below above := by
  simp [below]

theorem below_cons (link : Option Nat × Nat) (links : Links) (above : Option Nat) :
    Links.below (link :: links) above =
      (if link.1 = above then [link.2] else []) ++ links.below above := by
  unfold below
  rw [List.filter_cons]
  by_cases h : link.1 = above <;> simp [h]

theorem below_eq_nil {links : Links} {above : Option Nat} (h : ∀ link ∈ links, link.1 ≠ above) :
    links.below above = [] := by
  rw [below, List.map_eq_nil_iff, List.filter_eq_nil_iff]
  simpa using h

end Links

/-- A forest links to its own parts and to the part that it goes below. -/
theorem Forest.above_of_mem_links {α : Type} {f : Forest α} {above : Option Nat} {next : Nat}
    {link : Option Nat × Nat} (h : link ∈ f.links above next) :
    link.1 = above ∨ ∃ n, link.1 = some n ∧ next ≤ n ∧ n < next + f.size := by
  induction f generalizing above next with
  | empty => exact absurd h List.not_mem_nil
  | tree a below rest ihBelow ihRest =>
    rw [links, List.mem_cons, List.mem_append] at h
    rw [size]
    rcases h with rfl | h | h
    · exact Or.inl rfl
    · right
      rcases ihBelow h with habove | ⟨n, hn, hle, hlt⟩
      · exact ⟨next, habove, by omega, by omega⟩
      · exact ⟨n, hn, by omega, by omega⟩
    · rcases ihRest h with habove | ⟨n, hn, hle, hlt⟩
      · exact Or.inl habove
      · exact Or.inr ⟨n, hn, by omega, by omega⟩

theorem Forest.size_ofParts (ps : List Part) : (Forest.ofParts ps).size = ps.length := by
  rw [size_eq_length_preorder, preorder_ofParts]

/-! ## Dividing -/

namespace Group

/-- Parts that a group goes below stand before it. -/
def Follows (above : Option Nat) (first : Nat) : Prop := ∀ n, above = some n → n < first

theorem reverse_behind (d : Nat × List Part) : (behind d).reverse = behind d := by
  unfold behind
  split <;> rfl

theorem links_behind (d : Nat × List Part) :
    (behind d).flatMap links = (Forest.ofParts d.2).links (some d.1) (d.1 + 1) := by
  unfold behind
  split
  · rename_i hempty
    rw [hempty, Forest.ofParts]
    rfl
  · exact List.append_nil _

/-- The links of the trees below a root can change places with those of the trees after it, because
there is no part that has links from both. -/
theorem below_swap {α : Type} {above : Option Nat} {first : Nat} (hfollows : Follows above first)
    (below rest : Forest α) (node : Option Nat) :
    Links.below (below.links (some first) (first + 1)) node ++
        Links.below (rest.links above (first + below.size + 1)) node =
      Links.below (rest.links above (first + below.size + 1)) node ++
        Links.below (below.links (some first) (first + 1)) node := by
  suffices hnil : Links.below (below.links (some first) (first + 1)) node = [] ∨
      Links.below (rest.links above (first + below.size + 1)) node = [] by
    rcases hnil with hnil | hnil
    · rw [hnil, List.nil_append, List.append_nil]
    · rw [hnil, List.nil_append, List.append_nil]
  by_cases hinside : ∃ n, node = some n ∧ first ≤ n ∧ n < first + below.size + 1
  · obtain ⟨n, rfl, hle, hlt⟩ := hinside
    right
    apply Links.below_eq_nil
    intro link hlink heq
    rcases Forest.above_of_mem_links hlink with habove | ⟨m, hm, hmle, -⟩
    · have := hfollows n (habove.symm.trans heq)
      omega
    · obtain rfl := Option.some.inj (hm.symm.trans heq)
      omega
  · left
    apply Links.below_eq_nil
    intro link hlink heq
    apply hinside
    rcases Forest.above_of_mem_links hlink with habove | ⟨m, hm, hmle, hmlt⟩
    · exact ⟨first, heq.symm.trans habove, by omega, by omega⟩
    · exact ⟨m, heq.symm.trans hm, by omega, by omega⟩

/-- The links to the dividers of a list and those of the groups behind them, the last group first,
are the links of the forest of the list, up to the order of links from different parts.  The
induction is on the dividers: the groups behind the later ones come before the first group, and
change places with it. -/
theorem below_dividers {divider : Kind} {first : Nat} {ps : List Part}
    (hps : ∀ p ∈ ps.head?, p.kind = divider) {above : Option Nat}
    (hfollows : Follows above first) (node : Option Nat) :
    Links.below ((dividers divider first ps).map fun d => (above, d.1)) node ++
        Links.below (((dividers divider first ps).flatMap behind).reverse.flatMap links) node =
      Links.below ((Forest.ofParts ps).links above first) node := by
  induction first, ps using dividers.induct divider with
  | case1 first => simp [dividers, Forest.ofParts, Forest.links, Links.below]
  | case2 first p ps ih =>
    obtain rfl : p.kind = divider := hps p rfl
    have hrest := ih (fun q hq => Forest.kind_eq_of_head?_dropWhile hq)
      fun n hn => Nat.lt_of_lt_of_le (hfollows n hn) (by omega)
    have hswap := below_swap hfollows
      (Forest.ofParts (ps.takeWhile fun q => q.kind ≠ p.kind))
      (Forest.ofParts (ps.dropWhile fun q => q.kind ≠ p.kind)) node
    rw [Forest.size_ofParts, ← hrest] at hswap
    rw [dividers, Forest.ofParts_cons, List.map_cons, List.flatMap_cons, List.reverse_append,
      List.flatMap_append, reverse_behind, links_behind, Forest.links, Forest.size_ofParts,
      Links.below_cons, Links.below_cons, Links.below_append, Links.below_append, ← hrest, hswap]
    simp only [List.append_assoc]

/-- The step: dividing a group leads to the links of its forest. -/
theorem below_divide {g : Group} (hfollows : Follows g.above g.first) (node : Option Nat) :
    Links.below (g.divide.map fun d => (g.above, d.1)) node ++
        Links.below ((g.divide.flatMap behind).reverse.flatMap links) node =
      g.links.below node := by
  unfold divide links
  split
  · rename_i hparts
    rw [hparts, Forest.ofParts]
    rfl
  · rename_i p ps hparts
    rw [hparts]
    exact below_dividers (by simp) hfollows node

theorem follows_of_mem_behind {g : Group} {d : Nat × List Part} (h : g ∈ behind d) :
    Follows g.above g.first := by
  unfold behind at h
  split at h
  · exact absurd h List.not_mem_nil
  · obtain rfl := List.mem_singleton.1 h
    intro n hn
    obtain rfl := Option.some.inj hn
    exact Nat.lt_succ_self _

end Group

/-- The run: a stack of groups leads to the links of their forests. -/
theorem below_linksOf {stack : List Group} (h : ∀ g ∈ stack, Group.Follows g.above g.first)
    (node : Option Nat) :
    (linksOf stack).below node = Links.below (stack.flatMap Group.links) node := by
  induction stack using linksOf.induct with
  | case1 => rw [linksOf, List.flatMap_nil]
  | case2 g stack ih =>
    have hg := h g List.mem_cons_self
    have hstack : ∀ g' ∈ (g.divide.flatMap Group.behind).reverse ++ stack,
        Group.Follows g'.above g'.first := by
      intro g' hg'
      rcases List.mem_append.1 hg' with hbehind | hrest
      · obtain ⟨d, -, hd⟩ := List.mem_flatMap.1 (List.mem_reverse.1 hbehind)
        exact Group.follows_of_mem_behind hd
      · exact h g' (List.mem_cons_of_mem g hrest)
    rw [linksOf, Links.below_append, ih hstack, List.flatMap_append, Links.below_append,
      ← List.append_assoc, Group.below_divide hg, List.flatMap_cons, Links.below_append]

/-- A stack that starts with the whole list links every part to the parts below it in the forest
that grouping makes of the list, in their order. -/
theorem below_linksOf_singleton (ps : List Part) (node : Option Nat) :
    (linksOf [⟨none, 0, ps⟩]).below node =
      Links.below ((Forest.ofParts ps).links none 0) node := by
  rw [below_linksOf (by simp [Group.Follows]), List.flatMap_singleton]
  rfl

end SelectionLadder
