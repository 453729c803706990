import Mathlib.Data.List.Count
import Mathlib.Logic.Relation
import SelectionLadder.Proofs.Outline.Queries

/-!
# What the check decides

`FormsTree` says without a tree what it takes for stored nodes to be one: every key but the
root's is listed once, all of them can be reached from the root, and nodes stand where they are
listed.

* `Stores.formsTree`: the nodes of a tree are like that.
* `Along` is what holds in the course of a check of such nodes.  What has been met and what is on
  the stack are the root and the children of what has been met, so nothing is met twice
  (`Along.step`), and the check comes to its end (`Along.ends`).
* `HasTree.mem_iff_reaches`: the nodes that a check has met are those that can be reached.
* `Checks` is the loop of the check without a bound; `checks_validate` says that it ends.
* `validate_decides_tree` puts this together.
-/

namespace SelectionLadder.Outline

variable {o : Outline} {root : Node} {below f : Forest Node}

/-! ## Listed and reached identifiers -/

/-- The identifiers that nodes list as their children, as often as they are listed. -/
def listed (o : Outline) : List NodeId := o.nodes.nodes.flatMap (·.children)

/-- The node that is stored under `a` lists `b`. -/
def Lists (o : Outline) (a b : NodeId) : Prop := ∃ n, o.node? a = some n ∧ b ∈ n.children

/-- The identifier can be reached from that of the root. -/
def Reaches (o : Outline) (id : NodeId) : Prop := Relation.ReflTransGen o.Lists o.root id

/-- The keys are the nodes of one tree, and the nodes under them agree. -/
structure FormsTree (o : Outline) : Prop where
  root_stored : o.root ∈ o.nodes.keys
  listed_stored : ∀ id ∈ o.listed, id ∈ o.nodes.keys
  root_not_listed : o.root ∉ o.listed
  listed_once : ∀ id ∈ o.nodes.keys, id ≠ o.root → o.listed.count id = 1
  reached : ∀ id ∈ o.nodes.keys, o.Reaches id
  placed : ∀ n ∈ o.nodes.nodes, ∀ id ∈ n.children, ∀ child, o.node? id = some child →
    child.id = id ∧ child.parent = some n.id
  root_id_ne : ∀ root, o.rootNode? = some root → ∀ id ∈ o.nodes.keys, id ≠ o.root → root.id ≠ id
  fits : ∀ n ∈ o.nodes.nodes, o.FitsDocument n

/-! ## Trees are such nodes -/

/-- In a spelled forest each node is a root or is listed, and is so once. -/
theorem Spells.perm_listed (h : o.Spells f) :
    (f.roots.map (·.id) ++ f.preorder.flatMap (·.children)).Perm (f.preorder.map (·.id)) := by
  induction f with
  | empty => exact List.Perm.refl _
  | tree n below rest ihBelow ihRest =>
    obtain ⟨-, hlists, hbelow, hrest⟩ := h
    simp only [Forest.roots, Forest.preorder, List.map_cons, List.map_append, List.flatMap_cons,
      List.flatMap_append, List.cons_append, hlists]
    apply List.Perm.cons
    refine List.Perm.trans ?_ ((ihBelow hbelow).append (ihRest hrest))
    grind

/-- In a spelled forest all nodes can be reached if the roots can. -/
theorem Spells.reaches (h : o.Spells f) (hroots : ∀ n ∈ f.roots, o.Reaches n.id) :
    ∀ n ∈ f.preorder, o.Reaches n.id := by
  induction f with
  | empty => simp [Forest.preorder]
  | tree n below rest ihBelow ihRest =>
    obtain ⟨hn, hlists, hbelow, hrest⟩ := h
    simp only [Forest.roots, List.forall_mem_cons] at hroots
    obtain ⟨hreach, hroots⟩ := hroots
    simp only [Forest.preorder, List.forall_mem_cons, List.forall_mem_append]
    refine ⟨hreach, ihBelow hbelow ?_, ihRest hrest hroots⟩
    intro m hm
    exact hreach.tail ⟨n, hn, hlists ▸ List.mem_map_of_mem hm⟩

/-- Below the root of a tree there are the children of nodes in it, and these are different. -/
theorem HasBelow.perm_listed (h : o.HasBelow root below) :
    ((root :: below.preorder).flatMap (·.children)).Perm (below.preorder.map (·.id)) := by
  rw [List.flatMap_cons, h.lists]
  exact h.spells.perm_listed

/-- The nodes of the tree are those that can be reached. -/
theorem HasTree.mem_iff_reaches (h : o.HasTree root below) {id : NodeId} :
    id ∈ o.root :: below.preorder.map (·.id) ↔ o.Reaches id := by
  constructor
  · intro hid
    rcases List.mem_cons.1 hid with rfl | hid
    · exact Relation.ReflTransGen.refl
    · obtain ⟨n, hn, rfl⟩ := List.mem_map.1 hid
      refine h.spells.reaches ?_ n hn
      intro r hr
      exact Relation.ReflTransGen.single
        ⟨root, h.rootNode?_eq, h.lists ▸ List.mem_map_of_mem hr⟩
  · intro hreach
    induction hreach with
    | refl => exact List.mem_cons_self
    | tail _ hlists ih =>
      obtain ⟨n, hn, hid⟩ := hlists
      have hin : n ∈ root :: below.preorder := by
        rcases List.mem_cons.1 ih with rfl | hbelow
        · obtain rfl := Option.some.inj (h.rootNode?_eq.symm.trans hn)
          exact List.mem_cons_self
        · obtain ⟨m, hm, rfl⟩ := List.mem_map.1 hbelow
          obtain rfl := Option.some.inj ((h.spells.node?_eq hm).symm.trans hn)
          exact List.mem_cons_of_mem _ hm
      have hlisted := List.mem_flatMap.2 ⟨n, hin, hid⟩
      exact List.mem_cons_of_mem _ (h.toHasBelow.perm_listed.mem_iff.1 hlisted)

/-- The listed identifiers are those of the nodes below the root. -/
theorem Stores.perm_listed (h : o.Stores root below) :
    o.listed.Perm (below.preorder.map (·.id)) := by
  have hperm := h.perm
  rw [Forest.preorder_tree_empty] at hperm
  exact (hperm.flatMap_right _).trans h.toHasBelow.perm_listed

/-- What a node lists leads to a node that is stored there and knows its parent. -/
theorem Stores.placed (h : o.Stores root below) {n child : Node} {id : NodeId}
    (hn : n ∈ o.nodes.nodes) (hid : id ∈ n.children) (hchild : o.node? id = some child) :
    child.id = id ∧ child.parent = some n.id := by
  have hmem : child ∈ o.childrenOf n := List.mem_filterMap.2 ⟨id, hid, hchild⟩
  rw [← h.map_id_childrenOf hn] at hid
  obtain ⟨c, hc, rfl⟩ := List.mem_map.1 hid
  obtain rfl := Option.some.inj (hchild.symm.trans (h.isSound n hn c hc))
  refine ⟨rfl, ?_⟩
  rw [h.perm.mem_iff, Forest.preorder_tree_empty, List.mem_cons] at hn
  rcases hn with rfl | hn
  · exact h.linked.parent_of_mem_roots (h.childrenOf_eq ▸ hc)
  · exact h.linked.parent_of_mem_childrenOf h.spells hn hc

theorem Stores.formsTree (h : o.Stores root below) (hfits : ∀ n ∈ o.nodes.nodes, o.FitsDocument n) :
    o.FormsTree where
  root_stored := h.perm_keys.mem_iff.2 List.mem_cons_self
  listed_stored := by
    intro id hid
    exact h.perm_keys.mem_iff.2 (List.mem_cons_of_mem _ (h.perm_listed.mem_iff.1 hid))
  root_not_listed := by
    rw [h.perm_listed.mem_iff]
    exact (List.nodup_cons.1 h.nodup_keys).1
  listed_once := by
    intro id hid hne
    rw [h.perm_listed.count_eq]
    apply List.count_eq_one_of_mem h.nodup_below.2
    exact (List.mem_cons.1 (h.perm_keys.mem_iff.1 hid)).resolve_left hne
  reached := by
    intro id hid
    exact h.mem_iff_reaches.1 (h.perm_keys.mem_iff.1 hid)
  placed := fun n hn id hid child hchild => h.placed hn hid hchild
  root_id_ne := by
    intro root' hroot id hid hne heq
    obtain rfl := Option.some.inj (h.rootNode?_eq.symm.trans hroot)
    rw [h.perm_keys.mem_iff, List.mem_cons] at hid
    exact h.nodup_below.1 (heq ▸ hid.resolve_left hne)
  fits := hfits

/-! ## The course of a check -/

namespace FormsTree

variable (h : o.FormsTree)

include h

theorem nodup_listed : o.listed.Nodup := by
  rw [List.nodup_iff_count_le_one]
  intro id
  by_cases hid : id ∈ o.listed
  · have hne : id ≠ o.root := fun heq => h.root_not_listed (heq ▸ hid)
    exact (h.listed_once id (h.listed_stored id hid) hne).le
  · rw [List.count_eq_zero_of_not_mem hid]
    exact Nat.zero_le _

/-- The root is different from all that is listed. -/
theorem root_id_not_mem_listed (hroot : o.rootNode? = some root) : root.id ∉ o.listed := by
  intro hmem
  have hne : root.id ≠ o.root := fun heq => h.root_not_listed (heq ▸ hmem)
  exact h.root_id_ne root hroot root.id (h.listed_stored _ hmem) hne rfl

/-- What a node lists is there, and as it should be. -/
theorem exists_child {n : Node} (hn : n ∈ o.nodes.nodes) {id : NodeId} (hid : id ∈ n.children) :
    ∃ child, o.node? id = some child ∧ child.id = id ∧ child.parent = some n.id := by
  have hlisted : id ∈ o.listed := List.mem_flatMap.2 ⟨n, hn, hid⟩
  obtain ⟨child, hchild⟩ := mem_keys_iff.1 (h.listed_stored id hlisted)
  exact ⟨child, hchild, h.placed n hn id hid child hchild⟩

theorem map_id_childrenOf {n : Node} (hn : n ∈ o.nodes.nodes) :
    (o.childrenOf n).map (·.id) = n.children := by
  rw [childrenOf, List.map_filterMap]
  conv_rhs => rw [← List.filterMap_some (l := n.children)]
  apply List.filterMap_congr
  intro id hid
  obtain ⟨child, hchild, rfl, -⟩ := h.exists_child hn hid
  rw [hchild, Option.map_some]

/-- The children of a stored node pass the check. -/
theorem mapM_checkedChild {n : Node} (hn : n ∈ o.nodes.nodes) :
    n.children.mapM (o.checkedChild n.id) = .ok (o.childrenOf n) := by
  refine mapM_checkedChild_eq_ok.2 ⟨h.map_id_childrenOf hn, ?_⟩
  intro child hchild
  obtain ⟨id, hid, hnode⟩ := List.mem_filterMap.1 hchild
  obtain ⟨c, hc, rfl, hparent⟩ := h.exists_child hn hid
  obtain rfl := Option.some.inj (hnode.symm.trans hc)
  exact ⟨hnode, hparent⟩

/-- Different nodes list different children, and the root is listed by none. -/
theorem nodup_met (hroot : o.rootNode? = some root) {met : List Node} (hmet : met.Nodup)
    (hstored : ∀ n ∈ met, n ∈ o.nodes.nodes) :
    (root.id :: met.flatMap (·.children)).Nodup := by
  obtain ⟨nodes, hperm, hsublist⟩ := hmet.subperm hstored
  have hlisted : (nodes.flatMap (·.children)).Sublist o.listed := hsublist.flatMap _
  rw [((hperm.flatMap_right _).cons _).symm.nodup_iff, List.nodup_cons]
  refine ⟨?_, h.nodup_listed.sublist hlisted⟩
  exact fun hmem => h.root_id_not_mem_listed hroot (hlisted.subset hmem)

end FormsTree

/-- What holds of the nodes that a check has met and those on its stack. -/
structure Along (o : Outline) (root : Node) (openIds : List NodeId) (met stack : List Node) :
    Prop where
  stored : ∀ n ∈ met ++ stack, n ∈ o.nodes.nodes
  perm : ((met ++ stack).map (·.id)).Perm (root.id :: met.flatMap (·.children))
  nodup : ((met ++ stack).map (·.id)).Nodup
  opened : ∀ id ∈ o.ownIds, id ∉ met.map (·.id) → id ∈ openIds

theorem Along.opened_head {openIds : List NodeId} {n : Node} {met stack : List Node}
    (h : o.Along root openIds met (n :: stack)) : n.id ∈ openIds := by
  apply h.opened
  · exact List.mem_map_of_mem (h.stored n (by simp))
  · have hnodup := h.nodup
    rw [List.map_append, List.nodup_append] at hnodup
    intro hmem
    exact hnodup.2.2 _ hmem _ (by simp) rfl

/-- The step: a node moves from the stack to those met, and its children come onto the stack. -/
theorem Along.step {openIds : List NodeId} {n : Node} {met stack : List Node}
    (h : o.Along root openIds met (n :: stack)) (hforms : o.FormsTree)
    (hroot : o.rootNode? = some root) :
    o.Along root (close openIds n.id) (n :: met) ((o.childrenOf n).reverse ++ stack) := by
  have hn : n ∈ o.nodes.nodes := h.stored n (by simp)
  have hperm : ((n :: met ++ ((o.childrenOf n).reverse ++ stack)).map (·.id)).Perm
      (root.id :: (n :: met).flatMap (·.children)) := by
    have hnodes : (n :: met ++ ((o.childrenOf n).reverse ++ stack)).Perm
        (o.childrenOf n ++ (met ++ n :: stack)) := by
      grind
    refine (hnodes.map _).trans ?_
    rw [List.map_append, hforms.map_id_childrenOf hn, List.flatMap_cons]
    exact (h.perm.append_left _).trans List.perm_middle
  have hmet : (n :: met).Nodup := by
    have hnodup := List.Nodup.of_map _ h.nodup
    grind
  constructor
  case stored =>
    intro m hm
    have hold := h.stored m
    simp only [List.mem_append, List.mem_cons, List.mem_reverse] at hm hold
    have hchild : m ∈ o.childrenOf n → m ∈ o.nodes.nodes := by
      intro hm
      obtain ⟨id, -, hid⟩ := List.mem_filterMap.1 hm
      exact mem_nodes_of_node? hid
    grind
  case perm => exact hperm
  case nodup =>
    apply hperm.nodup_iff.2
    apply hforms.nodup_met hroot hmet
    intro m hm
    have hold := h.stored m
    grind
  case opened =>
    intro id hid hnew
    simp only [List.map_cons, List.mem_cons, not_or] at hnew
    simpa [close, hnew.1] using h.opened id hid hnew.2

/-- A check of such nodes comes to its end. -/
theorem Along.ends {openIds : List NodeId} {met stack : List Node}
    (h : o.Along root openIds met stack) (hforms : o.FormsTree)
    (hroot : o.rootNode? = some root) (count : Nat) : Ends (o.check count openIds stack) := by
  induction hlength : openIds.length using Nat.strongRecOn generalizing openIds met stack count with
  | _ length ih =>
    cases stack with
    | nil =>
      rw [check]
      split
      · exact Or.inl rfl
      · exact Or.inr ⟨_, rfl⟩
    | cons n stack =>
      have hn : n ∈ o.nodes.nodes := h.stored n (by simp)
      have hopen := h.opened_head
      have hshorter := length_close_lt hopen
      rw [check_cons (hforms.fits n hn) hopen (hforms.mapM_checkedChild hn)]
      exact ih _ (by omega) (h.step hforms hroot) _ rfl

/-- A check of such nodes meets all that can be reached, which are all. -/
theorem FormsTree.validate_eq (h : o.FormsTree) : o.validate = .ok () := by
  obtain ⟨root, hroot⟩ := mem_keys_iff.1 h.root_stored
  have hrootNode : o.rootNode? = some root := hroot
  have halong : o.Along root o.ownIds [] [root] := by
    constructor
    case stored => simpa using mem_nodes_of_node? hroot
    case perm => exact List.Perm.refl _
    case nodup => exact List.nodup_singleton _
    case opened => exact fun id hid _ => hid
  have hends : Ends o.validate := by
    rw [validate, node, hroot]
    exact halong.ends h hrootNode 0
  obtain ⟨root', below, htree, -, hverdict⟩ := hends.exists_hasTree
  have hkeys : o.nodes.keys ⊆ o.root :: below.preorder.map (·.id) := by
    intro id hid
    exact htree.mem_iff_reaches.2 (h.reached id hid)
  have hle : o.nodes.size ≤ (Forest.tree root' below .empty).size := by
    have hlength := (o.nodes.nodup_keys.subperm hkeys).length_le
    simpa [NodeMap.keys, NodeMap.size, Forest.size_eq_length_preorder,
      Forest.preorder_tree_empty] using hlength
  have hge := htree.size_le
  rw [hverdict, check, if_pos (by omega)]

/-! ## The check without a bound -/

/-- The check as a loop that knows the identifiers that it has seen, and has no bound: it stops
where it fails or when its stack is empty. -/
inductive Checks (o : Outline) : List NodeId → List Node → Except OutlineError Unit → Prop where
  | done {seen : List NodeId} (h : seen.length = o.nodes.size) : Checks o seen [] (.ok ())
  | unreachable {seen : List NodeId} (h : seen.length < o.nodes.size) :
    Checks o seen [] (.error (.unreachable (o.nodes.size - seen.length)))
  | badStretch {seen : List NodeId} {n : Node} {stack : List Node} (h : ¬ o.FitsDocument n) :
    Checks o seen (n :: stack) (.error (.badStretch n o.length))
  | repeated {seen : List NodeId} {n : Node} {stack : List Node} (hfits : o.FitsDocument n)
    (h : n.id ∈ seen) : Checks o seen (n :: stack) (.error (.repeated n.id))
  | badChild {seen : List NodeId} {n : Node} {stack : List Node} {e : OutlineError}
    (hfits : o.FitsDocument n) (hnew : n.id ∉ seen)
    (h : n.children.mapM (o.checkedChild n.id) = .error e) : Checks o seen (n :: stack) (.error e)
  | step {seen : List NodeId} {n : Node} {stack below : List Node}
    {result : Except OutlineError Unit} (hfits : o.FitsDocument n) (hnew : n.id ∉ seen)
    (hbelow : n.children.mapM (o.checkedChild n.id) = .ok below)
    (h : Checks o (n.id :: seen) (below.reverse ++ stack) result) :
    Checks o seen (n :: stack) result

/-- Seen are different identifiers of stored nodes, and all others are open. -/
structure Saw (o : Outline) (openIds seen : List NodeId) : Prop where
  nodup : seen.Nodup
  stored : seen ⊆ o.ownIds
  opened : ∀ id, id ∈ openIds ↔ id ∈ o.ownIds ∧ id ∉ seen

theorem Saw.close {openIds seen : List NodeId} {id : NodeId} (h : o.Saw openIds seen)
    (hid : id ∈ openIds) : o.Saw (close openIds id) (id :: seen) where
  nodup := List.nodup_cons.2 ⟨((h.opened id).1 hid).2, h.nodup⟩
  stored := List.cons_subset.2 ⟨((h.opened id).1 hid).1, h.stored⟩
  opened := by
    intro other
    simp [Outline.close, h.opened]
    tauto

theorem Saw.length_le {openIds seen : List NodeId} (h : o.Saw openIds seen) :
    seen.length ≤ o.nodes.size := by
  have hlength := (h.nodup.subperm h.stored).length_le
  simpa [ownIds, NodeMap.nodes, NodeMap.size] using hlength

/-- The loop comes to the verdict of the check.  It sees one more identifier of a stored node with
every step, so it ends on any nodes, and no more nodes are met than are stored. -/
theorem checks_check {openIds seen : List NodeId} {stack : List Node} (h : o.Saw openIds seen)
    (hstack : ∀ n ∈ stack, n ∈ o.nodes.nodes) :
    o.Checks seen stack (o.check seen.length openIds stack) := by
  induction hlength : openIds.length using Nat.strongRecOn generalizing openIds seen stack with
  | _ length ih =>
    cases stack with
    | nil =>
      have hle := h.length_le
      rw [check]
      split
      · exact .done ‹_›
      · exact .unreachable (by omega)
    | cons n stack =>
      obtain ⟨hn, hstack⟩ := List.forall_mem_cons.1 hstack
      rw [check]
      split
      case isTrue hbad =>
        exact .badStretch (by unfold FitsDocument; omega)
      case isFalse hgood =>
        have hfits : o.FitsDocument n := by
          unfold FitsDocument
          omega
        split
        case isFalse hclosed =>
          refine .repeated hfits ?_
          by_contra hnew
          exact hclosed ((h.opened n.id).2 ⟨List.mem_map_of_mem hn, hnew⟩)
        case isTrue hopen =>
          have hnew := ((h.opened n.id).1 hopen).2
          split
          · rename_i e hbad
            exact .badChild hfits hnew hbad
          · rename_i below hbelow
            have hshorter := length_close_lt hopen
            refine .step hfits hnew hbelow (ih _ (by omega) (h.close hopen) ?_ rfl)
            intro m hm
            rcases List.mem_append.1 hm with hm | hm
            · have hstored := (mapM_checkedChild_eq_ok.1 hbelow).2 m (List.mem_reverse.1 hm)
              exact mem_nodes_of_node? hstored.1
            · exact hstack m hm

theorem checks_validate (hroot : o.rootNode? = some root) : o.Checks [] [root] o.validate := by
  have hsaw : o.Saw o.ownIds [] := ⟨List.nodup_nil, List.nil_subset _, by simp⟩
  have hnode : o.node? o.root = some root := hroot
  rw [validate, node, hnode]
  exact checks_check hsaw (by simpa using mem_nodes_of_node? hnode)

/-! ## The verdict -/

/-- The check of any stored nodes ends, and accepts them if and only if they form a tree.  If its
only objection is that nodes have not been met, it says how many cannot be reached.  In an outline
that it accepts walks and paths end as well, and each node without children is a leaf once. -/
theorem validate_decides_tree (o : Outline) :
    (∀ root, o.rootNode? = some root → o.Checks [] [root] o.validate) ∧
    (o.validate = .ok () ↔ o.FormsTree) ∧
    (∀ count, o.validate = .error (.unreachable count) → 0 < count ∧
      ∃ met : List NodeId, met.Nodup ∧ (∀ id, id ∈ met ↔ o.Reaches id) ∧
        met.length + count = o.nodes.size) ∧
    (o.validate = .ok () → ∃ root, o.rootNode? = some root ∧
      (∃ visited, o.Walks [root] visited ∧ o.leaves = visited.filter fun n => n.IsLeaf) ∧
      o.leaves.Perm (o.nodes.nodes.filter fun n => n.IsLeaf) ∧ o.leaves.Nodup ∧
      ∀ x, ∃ path, o.pathAt x = o.root :: path ∧ o.Descends x root.id path) := by
  refine ⟨fun root => checks_validate, ⟨?_, FormsTree.validate_eq⟩, ?_, ?_⟩
  · intro h
    obtain ⟨root, below, hstores, hfits⟩ := exists_stores_of_validate h
    exact hstores.formsTree hfits
  · intro count h
    obtain ⟨root, below, htree, -, hverdict⟩ := Ends.exists_hasTree (Or.inr ⟨count, h⟩)
    have hle := htree.size_le
    rw [h, check] at hverdict
    split at hverdict
    · exact absurd hverdict (by simp)
    · rename_i hne
      simp only [Except.error.injEq, OutlineError.unreachable.injEq] at hverdict
      refine ⟨by omega, _, htree.nodup_keys, fun id => htree.mem_iff_reaches, ?_⟩
      rw [List.length_cons, List.length_map, ← Forest.size_eq_length_preorder]
      simp only [Forest.size] at hle hne hverdict
      omega
  · intro h
    obtain ⟨root, below, hstores, -⟩ := exists_stores_of_validate h
    refine ⟨root, hstores.rootNode?_eq, ⟨_, hstores.walks, ?_⟩, hstores.leaves_perm, ?_,
      hstores.exists_descends⟩
    · rw [leaves, hstores.walk_eq]
    · rw [hstores.leaves_perm.nodup_iff, hstores.perm.filter _ |>.nodup_iff]
      exact (List.Nodup.of_map _ hstores.nodup).filter _

theorem validate_decides_tree_rootedAt :
    (rootedAt ⟨2⟩).validate = .ok () ∧ (rootedAt ⟨2⟩).FormsTree ∧
      (rootedAt ⟨2⟩).leaves.Perm ((rootedAt ⟨2⟩).nodes.nodes.filter fun n => n.IsLeaf) := by
  have hvalid : (rootedAt ⟨2⟩).validate = .ok () := by decide +kernel
  obtain ⟨-, hiff, -, haccepted⟩ := validate_decides_tree (rootedAt ⟨2⟩)
  obtain ⟨-, -, -, hleaves, -⟩ := haccepted hvalid
  exact ⟨hvalid, hiff.1 hvalid, hleaves⟩

end SelectionLadder.Outline
