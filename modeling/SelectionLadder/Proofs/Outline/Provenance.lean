import SelectionLadder.Proofs.Outline.Tiling
import SelectionLadder.Proofs.Outline.Worklist

/-!
# Where nodes come from

Every node of an outline that is built from spans is accounted for.  The nodes that spans report
come in the order of the spans, and every other node is text in a gap, a margin of a node, or a
document above everything.

* `Shuffles` says that a list is made of two others, each in its order.  It is how a list of nodes
  is taken apart without losing its order.
* `shuffles_cover`: covering adds text parts only.
* `Outline.IsMargin` is a leaf of text at either end of the children of a node.
  `exists_shuffles_framed` is the induction on a forest of parts that proves that framing adds
  margins only.
* `Outline.Accounts` says where the nodes of an outline come from, and `grouping_canonical` that
  this is so for all outlines that are built, and why there is no other way to group their parts.
-/

namespace SelectionLadder

/-- The last list is made of the other two, each in its order. -/
inductive Shuffles {α : Type} : List α → List α → List α → Prop where
  | nil : Shuffles [] [] []
  | left (a : α) {xs ys zs : List α} : Shuffles xs ys zs → Shuffles (a :: xs) ys (a :: zs)
  | right (a : α) {xs ys zs : List α} : Shuffles xs ys zs → Shuffles xs (a :: ys) (a :: zs)

namespace Shuffles

variable {α β : Type} {xs ys zs : List α}

theorem all_right (ys : List α) : Shuffles [] ys ys := by
  induction ys with
  | nil => exact nil
  | cons a ys ih => exact ih.right a

theorem append {xs' ys' zs' : List α} (h : Shuffles xs ys zs) (h' : Shuffles xs' ys' zs') :
    Shuffles (xs ++ xs') (ys ++ ys') (zs ++ zs') := by
  induction h with
  | nil => exact h'
  | left a _ ih => exact ih.left a
  | right a _ ih => exact ih.right a

theorem perm (h : Shuffles xs ys zs) : zs.Perm (xs ++ ys) := by
  induction h with
  | nil => exact .nil
  | left a _ ih => exact ih.cons a
  | right a _ ih => exact (ih.cons a).trans List.perm_middle.symm

/-- A list comes apart as its image does. -/
theorem of_map {change : α → β} {us vs : List β} (h : Shuffles us vs (zs.map change)) :
    ∃ xs ys, Shuffles xs ys zs ∧ xs.map change = us ∧ ys.map change = vs := by
  generalize hws : zs.map change = ws at h
  induction h generalizing zs with
  | nil =>
    obtain rfl := List.map_eq_nil_iff.1 hws
    exact ⟨[], [], nil, rfl, rfl⟩
  | left b _ ih =>
    obtain ⟨a, zs, rfl, rfl, hrest⟩ := List.map_eq_cons_iff.1 hws
    obtain ⟨xs, ys, h, rfl, rfl⟩ := ih hrest
    exact ⟨a :: xs, ys, h.left a, rfl, rfl⟩
  | right b _ ih =>
    obtain ⟨a, zs, rfl, rfl, hrest⟩ := List.map_eq_cons_iff.1 hws
    obtain ⟨xs, ys, h, rfl, rfl⟩ := ih hrest
    exact ⟨xs, a :: ys, h.right a, rfl, rfl⟩

end Shuffles

/-! ## Spans in order -/

/-- The second list has the elements of the first in order of their keys, and elements with the
same key keep their order. -/
structure StablySorted {α : Type} (key : α → Nat) (xs ys : List α) : Prop where
  ordered : ys.Pairwise fun a b => key a ≤ key b
  stable : ∀ k, (ys.filter fun a => key a = k) = xs.filter fun a => key a = k

theorem Span.start_le_trans (a b c : Span) (hab : decide (a.start ≤ b.start) = true)
    (hbc : decide (b.start ≤ c.start) = true) : decide (a.start ≤ c.start) = true :=
  decide_eq_true (Nat.le_trans (of_decide_eq_true hab) (of_decide_eq_true hbc))

theorem Span.start_le_total (a b : Span) :
    (decide (a.start ≤ b.start) || decide (b.start ≤ a.start)) = true := by
  simpa using Nat.le_total a.start b.start

/-- Kept spans are in order of their starts. -/
theorem stablySorted_keptSpans (ignored : List String) (spans : List Span) :
    StablySorted Span.start (spans.filter fun s => ¬ Ignores ignored s.tag)
      (keptSpans ignored spans) := by
  constructor
  · exact (List.pairwise_mergeSort Span.start_le_trans Span.start_le_total _).imp of_decide_eq_true
  · intro k
    -- Spans that start together are in order already, so sorting keeps them as they are.
    have halike : ((spans.filter fun s => ¬ Ignores ignored s.tag).filter
        fun s => s.start = k).Pairwise fun a b => decide (a.start ≤ b.start) = true := by
      apply List.pairwise_of_forall_mem_list
      intro a ha b hb
      simp only [List.mem_filter, decide_eq_true_eq] at ha hb
      exact decide_eq_true (by omega)
    have hsublist := (List.sublist_mergeSort Span.start_le_trans Span.start_le_total halike
      List.filter_sublist).filter fun s => s.start = k
    rw [List.filter_filter, List.filter_congr (q := fun s => decide (s.start = k)) (by simp)]
      at hsublist
    exact (hsublist.eq_of_length ((List.mergeSort_perm _ _).filter _).length_eq.symm).symm

/-! ## Text in gaps -/

theorem length_textBetween_le (start stop : Nat) : (textBetween start stop).length ≤ 1 := by
  unfold textBetween
  split <;> simp

theorem mem_textBetween {start stop : Nat} {q : Part} (h : q ∈ textBetween start stop) :
    start < stop ∧ q = ⟨.text, start, stop⟩ := by
  unfold textBetween at h
  split at h
  · exact ⟨‹_›, List.mem_singleton.1 h⟩
  · exact absurd h List.not_mem_nil

theorem kind_of_mem_textBetween {start stop : Nat} {q : Part} (h : q ∈ textBetween start stop) :
    q.kind = .text := by
  rw [(mem_textBetween h).2]

/-- The text parts that covering adds. -/
def gapsFrom (length cursor : Nat) : List Part → List Part
  | [] => textBetween cursor length
  | p :: ps =>
    textBetween cursor p.start ++
      gapsFrom length (if p.kind = .document then cursor else max cursor p.stop) ps

theorem shuffles_gapsFrom (length cursor : Nat) (ps : List Part) :
    Shuffles ps (gapsFrom length cursor ps) (coverFrom length cursor ps) := by
  induction ps generalizing cursor with
  | nil => exact .all_right _
  | cons p ps ih => exact (Shuffles.all_right _).append ((ih _).left p)

theorem kind_of_mem_gapsFrom {length cursor : Nat} {ps : List Part} {q : Part}
    (h : q ∈ gapsFrom length cursor ps) : q.kind = .text := by
  induction ps generalizing cursor with
  | nil => exact kind_of_mem_textBetween h
  | cons p ps ih =>
    rcases List.mem_append.1 h with h | h
    · exact kind_of_mem_textBetween h
    · exact ih h

/-- Covering keeps the parts in their order and adds text. -/
theorem shuffles_cover (length : Nat) (ps : List Part) :
    ∃ fillers, Shuffles ps fillers (cover length ps) ∧ ∀ q ∈ fillers, q.kind = .text :=
  ⟨_, shuffles_gapsFrom length 0 ps, fun _ => kind_of_mem_gapsFrom⟩

/-! ## Margins -/

/-- What the node was made of. -/
def Node.part (n : Node) : Part := ⟨n.kind, n.contentStart, n.contentStop⟩

/-- A leaf of text that is the first or the last child of a node. -/
def Outline.IsMargin (o : Outline) (m : Node) : Prop :=
  m.kind = .text ∧ m.IsLeaf ∧ ∃ n, o.node? n.id = some n ∧ m.parent = some n.id ∧
    (n.children.head? = some m.id ∨ n.children.getLast? = some m.id)

/-- Framing puts one leaf of text at most on either side. -/
theorem exists_frame_eq (p : Part) (children inner : Forest Part) :
    ∃ leading trailing, frame p children inner = .leavesOf leading ++ inner ++ .leavesOf trailing ∧
      leading.length ≤ 1 ∧ trailing.length ≤ 1 ∧ ∀ q ∈ leading ++ trailing, q.kind = .text := by
  unfold frame
  split
  · exact ⟨[], [], inner.append_empty.symm, Nat.zero_le _, Nat.zero_le _, by simp⟩
  · refine ⟨_, _, rfl, length_textBetween_le _ _, length_textBetween_le _ _, ?_⟩
    intro q hq
    rcases List.mem_append.1 hq with hq | hq <;> exact kind_of_mem_textBetween hq

/-- Nodes of one leaf at most. -/
theorem Forest.eq_empty_or_single {f : Forest Node} {ps : List Part}
    (h : f.map Node.part = .leavesOf ps) (hlength : ps.length ≤ 1) :
    f = .empty ∨ ∃ m, f = .tree m .empty .empty ∧ m.part ∈ ps := by
  match ps, f with
  | [], .empty => exact Or.inl rfl
  | [p], .tree m below rest =>
    obtain ⟨hm, hbelow, hrest⟩ := Forest.tree.inj h
    rw [Forest.map_eq_empty_iff.1 hbelow, Forest.map_eq_empty_iff.1 hrest]
    exact Or.inr ⟨m, rfl, List.mem_singleton.2 hm⟩

namespace Outline

variable {o : Outline}

/-- The nodes were made of the parts: they are one node for each part, in order, and margins. -/
def MadeOf (o : Outline) (nodes : List Node) (ps : List Part) : Prop :=
  ∃ own margins, Shuffles own margins nodes ∧ own.map Node.part = ps ∧ ∀ m ∈ margins, o.IsMargin m

theorem madeOf_nil_of_isMargin {nodes : List Node} (h : ∀ m ∈ nodes, o.IsMargin m) :
    o.MadeOf nodes [] :=
  ⟨[], nodes, .all_right nodes, rfl, h⟩

theorem MadeOf.append {nodes nodes' : List Node} {ps ps' : List Part} (h : o.MadeOf nodes ps)
    (h' : o.MadeOf nodes' ps') : o.MadeOf (nodes ++ nodes') (ps ++ ps') := by
  obtain ⟨own, margins, hshuffles, rfl, hmargins⟩ := h
  obtain ⟨own', margins', hshuffles', rfl, hmargins'⟩ := h'
  refine ⟨own ++ own', margins ++ margins', hshuffles.append hshuffles', List.map_append, ?_⟩
  intro m hm
  rcases List.mem_append.1 hm with hm | hm
  · exact hmargins m hm
  · exact hmargins' m hm

theorem MadeOf.cons {nodes : List Node} {ps : List Part} (n : Node) (h : o.MadeOf nodes ps) :
    o.MadeOf (n :: nodes) (n.part :: ps) := by
  obtain ⟨own, margins, hshuffles, rfl, hmargins⟩ := h
  exact ⟨n :: own, margins, hshuffles.left n, rfl, hmargins⟩

/-- Framing adds margins: if the framed nodes were made of some parts, so were the nodes below the
node that they are framed for. -/
theorem Spells.madeOf_of_frame {n : Node} {below rest : Forest Node}
    (hspells : o.Spells (.tree n below rest)) (hlinked : below.Linked (some n.id)) {p : Part}
    {children inner : Forest Part} (hmap : below.map Node.part = frame p children inner)
    {ps : List Part} (hinner : ∀ framed, o.Spells framed → framed.Linked (some n.id) →
      framed.map Node.part = inner → o.MadeOf framed.preorder ps) :
    o.MadeOf below.preorder ps := by
  obtain ⟨leading, trailing, hframe, hleading, htrailing, htext⟩ := exists_frame_eq p children inner
  obtain ⟨front, after, rfl, hfront, hafter⟩ := Forest.map_eq_append (hmap.trans hframe)
  obtain ⟨before, framed, rfl, hbefore, hframed⟩ := Forest.map_eq_append hfront
  obtain ⟨hn, hchildren, hbelow, -⟩ := hspells
  rw [Forest.roots_append, Forest.roots_append] at hchildren
  rw [spells_append_iff, spells_append_iff] at hbelow
  rw [Forest.linked_append_iff, Forest.linked_append_iff] at hlinked
  have hfirst : ∀ m ∈ before.preorder, o.IsMargin m := by
    rcases Forest.eq_empty_or_single hbefore hleading with rfl | ⟨m, rfl, hpart⟩
    · simp [Forest.preorder]
    · intro m' hm'
      obtain rfl : m' = m := by simpa [Forest.preorder] using hm'
      refine ⟨htext _ (List.mem_append_left _ hpart), hbelow.1.1.isLeaf_iff.2 rfl, n, hn,
        hlinked.1.1.1, Or.inl ?_⟩
      simp [hchildren, Forest.roots]
  have hlast : ∀ m ∈ after.preorder, o.IsMargin m := by
    rcases Forest.eq_empty_or_single hafter htrailing with rfl | ⟨m, rfl, hpart⟩
    · simp [Forest.preorder]
    · intro m' hm'
      obtain rfl : m' = m := by simpa [Forest.preorder] using hm'
      refine ⟨htext _ (List.mem_append_right _ hpart), hbelow.2.isLeaf_iff.2 rfl, n, hn,
        hlinked.2.1, Or.inr ?_⟩
      simp [hchildren, Forest.roots]
  rw [Forest.preorder_append, Forest.preorder_append]
  simpa using ((madeOf_nil_of_isMargin hfirst).append
    (hinner framed hbelow.1.2 hlinked.1.2 hframed)).append (madeOf_nil_of_isMargin hlast)

/-- The nodes of a framed forest were made of the parts of the forest.  The induction is on the
forest: the nodes below a root are a frame around the nodes of a framed forest. -/
theorem Spells.madeOf_framed {f : Forest Part} {g : Forest Node} (hspells : o.Spells g)
    {parent : Option NodeId} (hlinked : g.Linked parent) (hmap : g.map Node.part = f.framed) :
    o.MadeOf g.preorder f.preorder := by
  induction f generalizing g parent with
  | empty =>
    obtain rfl := Forest.map_eq_empty_iff.1 hmap
    exact madeOf_nil_of_isMargin (by simp [Forest.preorder])
  | tree p below rest ihBelow ihRest =>
    cases g with
    | empty => cases hmap
    | tree n belowNodes restNodes =>
      obtain ⟨rfl, hbelow, hrest⟩ := Forest.tree.inj hmap
      obtain ⟨-, hlinkedBelow, hlinkedRest⟩ := hlinked
      have hmadeBelow := hspells.madeOf_of_frame hlinkedBelow hbelow
        fun _ hspells hlinked hmap => ihBelow hspells hlinked hmap
      exact (hmadeBelow.append (ihRest hspells.2.2.2 hlinkedRest hrest)).cons n

end Outline

/-! ## Outlines built from spans -/

namespace Forest

/-- Placing keeps the parts where they are in the forest. -/
theorem map_part_place (f : Forest Part) (start stop : Nat) :
    (f.place start stop).map PlacedPart.part = f := by
  induction f generalizing start stop with
  | empty => rfl
  | tree p below rest ihBelow ihRest => rw [place, map, ihBelow, ihRest]

theorem map_part_numberedForest (parent : Option NodeId) (next : Nat) (f : Forest PlacedPart) :
    (f.numberedForest parent next).map Node.part = f.map PlacedPart.part := by
  induction f generalizing parent next with
  | empty => rfl
  | tree p below rest ihBelow ihRest =>
    rw [numberedForest, map, map, ihBelow, ihRest, Node.part, PlacedPart.node]

end Forest

namespace Outline

/-- Where the nodes of an outline come from that is built from these spans, in document order: a
document above everything that no span has reported, if there is one, a node for each span, fillers
of text, and margins. -/
def Accounts (o : Outline) (spans : List Span) : Prop :=
  ∃ above covering margins reported fillers nodes : List Node,
    o.walk = above ++ nodes ∧
    (∀ n ∈ above, above = [n] ∧ o.rootNode? = some n ∧ n.part = ⟨.document, 0, o.length⟩) ∧
    Shuffles covering margins nodes ∧ (∀ n ∈ margins, o.IsMargin n) ∧
    Shuffles reported fillers covering ∧ (∀ n ∈ fillers, n.kind = .text) ∧
    reported.map Node.part = spans.map Span.part

/-- The nodes below the root were made of the parts below the root. -/
theorem madeOf_nodesBelow (length : Nat) (tree : Part × Forest Part) :
    (ofPartTree length tree).MadeOf (nodesBelow length tree).preorder tree.2.preorder := by
  have hspells := (isTiledTree_ofPartTree length tree).spells
  have hlinked := Forest.linked_numberedForest (some ⟨0⟩) 1 (placedBelow length tree)
  apply hspells.madeOf_of_frame hlinked
  · rw [nodesBelow, placedBelow, Forest.map_part_numberedForest, Forest.map_part_place]
  · intro framed hspells hlinked hmap
    exact hspells.madeOf_framed hlinked hmap

/-- A tree of parts is the parts, or the parts below a document. -/
theorem preorder_partTree (length : Nat) (spans : List Span) :
    let tree := partTree length spans
    let ps := cover length (spans.map Span.part)
    tree.1 :: tree.2.preorder = ps ∨ tree = (⟨.document, 0, length⟩, .ofParts ps) := by
  intro tree ps
  have hps := Forest.preorder_ofParts ps
  show (rooted length (.ofParts ps)).1 :: (rooted length (.ofParts ps)).2.preorder = ps ∨
    rooted length (.ofParts ps) = _
  unfold rooted
  split
  · rename_i p below hsole
    split
    · rw [hsole] at hps
      left
      simpa [Forest.preorder] using hps
    · rw [hsole]
      exact Or.inr rfl
  · exact Or.inr rfl

/-- An outline that is built from spans has a node for each of them that is kept. -/
theorem accounts_ofPartTree (length : Nat) (spans : List Span) :
    (ofPartTree length (partTree length spans)).Accounts spans := by
  obtain ⟨own, margins, hshuffles, hown, hmargins⟩ :=
    madeOf_nodesBelow length (partTree length spans)
  have htree := isTiledTree_ofPartTree length (partTree length spans)
  obtain ⟨texts, hcover, htexts⟩ := shuffles_cover length (spans.map Span.part)
  have hreported : ∀ covering, covering.map Node.part = cover length (spans.map Span.part) →
      ∃ reported fillers, Shuffles reported fillers covering ∧ (∀ n ∈ fillers, n.kind = .text) ∧
        reported.map Node.part = spans.map Span.part := by
    intro covering hcovering
    rw [← hcovering] at hcover
    obtain ⟨reported, fillers, hsplit, hreported, rfl⟩ := hcover.of_map
    exact ⟨reported, fillers, hsplit, fun n hn => htexts n.part (List.mem_map_of_mem hn), hreported⟩
  have hwalk := htree.walk_eq
  rw [Forest.preorder_tree_empty] at hwalk
  rcases preorder_partTree length spans with hpreorder | hrooted
  · obtain ⟨reported, fillers, hsplit, hfillers, hspans⟩ :=
      hreported (nodeAbove length (partTree length spans) :: own)
        (by rw [List.map_cons, hown]; exact hpreorder)
    exact ⟨[], _, margins, reported, fillers, _, hwalk, by simp, hshuffles.left _, hmargins, hsplit,
      hfillers, hspans⟩
  · obtain ⟨reported, fillers, hsplit, hfillers, hspans⟩ :=
      hreported own (by rw [hown, hrooted, Forest.preorder_ofParts])
    refine ⟨[nodeAbove length (partTree length spans)], own, margins, reported, fillers, _, hwalk,
      ?_, hshuffles, hmargins, hsplit, hfillers, hspans⟩
    intro n hn
    rw [List.mem_singleton.1 hn]
    exact ⟨rfl, htree.rootNode?_eq, congrArg Prod.fst hrooted⟩

/-- The forest that grouping makes of a list of parts is the only one that has the parts in their
order, whose siblings are of one kind each, and in which no part lies below one of its own kind.  It
is also the one that a stack of groups leads to.

So an outline that is built from spans has one node for each span that is not ignored, in the order
of their starts.  Its other nodes are fillers of text, margins, and a document above everything. -/
theorem grouping_canonical :
    (∀ ps f, f = Forest.ofParts ps ↔ f.preorder = ps ∧ f.SiblingsAlike ∧ f.NestsApart) ∧
      (∀ ps node, (linksOf [⟨none, 0, ps⟩]).below node =
        Links.below ((Forest.ofParts ps).links none 0) node) ∧
      ∀ ignored spans text o, build ignored spans text = .ok o →
        StablySorted Span.start (spans.filter fun s => ¬ Ignores ignored s.tag)
          (keptSpans ignored spans) ∧
        o.nodes.nodes.Perm o.walk ∧ (o.walk.map (·.id)).Nodup ∧
        o.Accounts (keptSpans ignored spans) := by
  refine ⟨fun _ _ => Forest.eq_ofParts_iff, below_linksOf_singleton, ?_⟩
  intro ignored spans text o h
  obtain ⟨root, below, htree⟩ := IsBuilt.isTiledTree ⟨ignored, spans, text, h⟩
  refine ⟨stablySorted_keptSpans ignored spans, ?_, ?_, ?_⟩
  · rw [htree.walk_eq]
    exact htree.perm
  · rw [htree.walk_eq]
    exact htree.nodup
  · rw [build_eq_ok h]
    exact accounts_ofPartTree text.length (keptSpans ignored spans)

theorem grouping_canonical_crossingSpans :
    (∃ f, f = Forest.ofParts (crossingSpans.map Span.part) ∧ f.SiblingsAlike ∧ f.NestsApart ∧
      ∀ node, (linksOf [⟨none, 0, crossingSpans.map Span.part⟩]).below node =
        Links.below (f.links none 0) node) ∧
      ∃ o, build defaultIgnored crossingSpans (List.replicate 8 'x') = .ok o ∧
        (o.walk.map (·.id)).Nodup ∧ o.Accounts (keptSpans defaultIgnored crossingSpans) := by
  obtain ⟨hunique, hstack, haccounts⟩ := grouping_canonical
  obtain ⟨-, hsiblings, hnests⟩ := (hunique (crossingSpans.map Span.part) _).1 rfl
  obtain ⟨-, -, hnodup, haccount⟩ :=
    haccounts defaultIgnored crossingSpans (List.replicate 8 'x') _ rfl
  exact ⟨⟨_, rfl, hsiblings, hnests, hstack _⟩, _, rfl, hnodup, haccount⟩

end Outline

end SelectionLadder
