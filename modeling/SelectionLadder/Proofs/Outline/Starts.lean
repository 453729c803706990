import SelectionLadder.Proofs.Outline.Content
import SelectionLadder.Proofs.Outline.Leading

/-!
# Where nodes start

Placing may move every start that a parser has reported.  If documents are reported at the start of
the text only, it moves none, but for the text that framing puts behind the children of a node.

* `pairwise_coverFrom`: the parts of a cover are then in order of their starts, text in gaps
  included.
* `Role` tells the parts of a framed forest apart, and `Forest.marked` is the framed forest with its
  roles.
* `Forest.LiesWithin` is what is used of a forest that is placed between two offsets.  It goes down
  with the placing: the parts below a part start before the one that follows it in document order.
* `Forest.Settles` says where placed parts start and stop, role by role.  `settles_framed` is the
  induction on the forest, and `settles_frame` its step from the children of a part to their frame.
* `Outline.keeps_starts` says it of the nodes of an outline that is built from spans.
-/

namespace SelectionLadder

/-! ## Covers in order -/

section

variable {length cursor : Nat} {ps : List Part} {q : Part}

theorem pairwise_textBetween {r : Part → Part → Prop} (start stop : Nat) :
    (textBetween start stop).Pairwise r := by
  unfold textBetween
  split
  · exact List.pairwise_singleton _ _
  · exact List.Pairwise.nil

/-- Fillers have characters, and none of them starts before the cursor. -/
theorem bounds_of_mem_gapsFrom (h : q ∈ gapsFrom length cursor ps) :
    cursor ≤ q.start ∧ q.start < q.stop := by
  induction ps generalizing cursor with
  | nil =>
    obtain ⟨hlt, rfl⟩ := mem_textBetween h
    exact ⟨Nat.le_refl _, hlt⟩
  | cons p ps ih =>
    rcases List.mem_append.1 h with h | h
    · obtain ⟨hlt, rfl⟩ := mem_textBetween h
      exact ⟨Nat.le_refl _, hlt⟩
    · have hbounds := ih h
      split at hbounds <;> omega

theorem mem_or_bounds_of_mem_coverFrom (h : q ∈ coverFrom length cursor ps) :
    q ∈ ps ∨ cursor ≤ q.start ∧ q.start < q.stop :=
  ((shuffles_gapsFrom length cursor ps).mem_or_mem h).imp_right bounds_of_mem_gapsFrom

/-- Text in gaps starts after the parts before it: a part that is no document has moved the cursor
past itself, and a document starts with the text. -/
theorem pairwise_coverFrom (hsorted : ps.Pairwise fun p q => p.start ≤ q.start)
    (hforward : ∀ p ∈ ps, p.start ≤ p.stop)
    (hdocuments : ∀ p ∈ ps, p.kind = .document → p.start = 0) (cursor : Nat) :
    (coverFrom length cursor ps).Pairwise fun p q => p.start ≤ q.start := by
  induction ps generalizing cursor with
  | nil => exact pairwise_textBetween _ _
  | cons p ps ih =>
    obtain ⟨hfirst, hsorted⟩ := List.pairwise_cons.1 hsorted
    obtain ⟨hp, hforward⟩ := List.forall_mem_cons.1 hforward
    obtain ⟨hdocument, hdocuments⟩ := List.forall_mem_cons.1 hdocuments
    have hafter : ∀ q ∈ coverFrom length
        (if p.kind = .document then cursor else max cursor p.stop) ps,
        p.start ≤ q.start := by
      intro q hq
      rcases mem_or_bounds_of_mem_coverFrom hq with hq | ⟨hcursor, -⟩
      · exact hfirst q hq
      · split at hcursor
        · rw [hdocument ‹_›]
          exact Nat.zero_le _
        · omega
    rw [coverFrom, List.pairwise_append, List.pairwise_cons]
    refine ⟨pairwise_textBetween _ _, ⟨hafter, ih hsorted hforward hdocuments _⟩, ?_⟩
    intro a ha b hb
    obtain ⟨hlt, rfl⟩ := mem_textBetween ha
    rcases List.mem_cons.1 hb with rfl | hb
    · exact Nat.le_of_lt hlt
    · exact (Nat.le_of_lt hlt).trans (hafter b hb)

/-- A cover starts with the text. -/
theorem start_eq_zero_of_head?_cover (h : (cover length ps).head? = some q) : q.start = 0 := by
  have hgap : ∀ {stop : Nat} {rest : List Part}, 0 < stop →
      (textBetween 0 stop ++ rest).head? = some q → q.start = 0 := by
    intro stop rest hlt hhead
    rw [textBetween, if_pos hlt] at hhead
    rw [← Option.some.inj hhead]
  cases ps with
  | nil =>
    have hmem := mem_textBetween (List.mem_of_mem_head? h)
    rw [hmem.2]
  | cons p ps =>
    rw [cover, coverFrom] at h
    by_cases hp : 0 < p.start
    · exact hgap hp h
    · rw [textBetween, if_neg hp, List.nil_append, List.head?_cons] at h
      rw [← Option.some.inj h]
      omega

end

/-! ## Roles -/

/-- What a part of a framed forest is to the part above it. -/
inductive Role where
  /-- A part that framing has found there. -/
  | own
  /-- Text of the part above, before its children. -/
  | leading
  /-- Text of the part above, behind its children. -/
  | trailing
deriving DecidableEq

/-- The frame of the children of a part, of which `inner` is the final form, with the roles. -/
def frameMarked (p : Part) (children : Forest Part) (inner : Forest (Part × Role)) :
    Forest (Part × Role) :=
  match children.firstRoot? with
  | none => inner
  | some first =>
    (Forest.leavesOf (textBetween p.start first.start)).map (·, .leading) ++ inner ++
      (Forest.leavesOf (textBetween (children.lastReach p.stop) p.stop)).map (·, .trailing)

namespace Forest

/-- The framed forest, each part with its role. -/
def marked : Forest Part → Forest (Part × Role)
  | empty => empty
  | tree p below rest => tree (p, .own) (frameMarked p below below.marked) rest.marked

theorem preorder_map_leavesOf (ps : List Part) (role : Role) :
    ((leavesOf ps).map (·, role)).preorder = ps.map (·, role) := by
  rw [preorder_map, preorder_leavesOf]

end Forest

/-- Marking adds roles only. -/
theorem map_fst_frameMarked (p : Part) (children : Forest Part) {inner : Forest (Part × Role)}
    {framed : Forest Part} (h : inner.map (·.1) = framed) :
    (frameMarked p children inner).map (·.1) = frame p children framed := by
  have hleaves : ∀ (ps : List Part) (role : Role),
      ((Forest.leavesOf ps).map (·, role)).map (·.1) = .leavesOf ps :=
    fun ps role => (Forest.map_map _ _).trans (Forest.map_id _)
  unfold frameMarked frame
  cases children.firstRoot? with
  | none => exact h
  | some first => rw [Forest.map_append, Forest.map_append, hleaves, hleaves, h]

theorem Forest.map_fst_marked (f : Forest Part) : f.marked.map (·.1) = f.framed := by
  induction f with
  | empty => rfl
  | tree p below rest ihBelow ihRest =>
    rw [marked, map, map_fst_frameMarked p below ihBelow, ihRest, framed]

/-- In a frame the own parts are those of the inner forest. -/
theorem filter_frameMarked (p : Part) (children : Forest Part) (inner : Forest (Part × Role)) :
    ((frameMarked p children inner).preorder.filter fun m => m.2 = .own) =
      inner.preorder.filter fun m => m.2 = .own := by
  unfold frameMarked
  split
  · rfl
  · simp [Forest.preorder_append, Forest.preorder_map_leavesOf, List.filter_map, Function.comp_def]

/-- The own parts of a framed forest are those of the forest, in their order. -/
theorem Forest.map_filter_marked (f : Forest Part) :
    (f.marked.preorder.filter fun m => m.2 = .own).map (·.1) = f.preorder := by
  induction f with
  | empty => rfl
  | tree p below rest ihBelow ihRest =>
    rw [marked, preorder, List.filter_cons_of_pos (by simp), List.filter_append,
      filter_frameMarked, List.map_cons, List.map_append, ihBelow, ihRest, preorder]

/-! ## Forests in order -/

namespace Forest

variable {f below rest : Forest Part} {p q : Part} {start stop : Nat}

/-- Where a forest starts that is followed by an offset: where its first part does. -/
def startOr (stop : Nat) : Forest Part → Nat
  | empty => stop
  | tree p _ _ => p.start

theorem start_eq_startOr (h : f.firstRoot? = some p) (stop : Nat) : p.start = f.startOr stop := by
  cases f with
  | empty => cases h
  | tree q below rest => rw [startOr, Option.some.inj h]

theorem framed_startWithin (f : Forest Part) (earliest latest : Nat) :
    f.framed.startWithin earliest latest = f.startWithin earliest latest := by
  cases f <;> rfl

theorem firstRoot?_framed (f : Forest Part) : f.framed.firstRoot? = f.firstRoot? := by
  cases f <;> rfl

theorem roots_framed (f : Forest Part) : f.framed.roots = f.roots := by
  induction f with
  | empty => rfl
  | tree p below rest _ ihRest => rw [framed, roots, roots, ihRest]

/-- The parts are in order of their starts, from `start` on and none after `stop`, and no part is
reversed. -/
structure LiesWithin (f : Forest Part) (start stop : Nat) : Prop where
  first : ∀ p ∈ f.firstRoot?, p.start = start
  ordered : f.preorder.Pairwise fun p q => p.start ≤ q.start
  forward : ∀ p ∈ f.preorder, p.start ≤ p.stop
  bounded : ∀ p ∈ f.preorder, p.start ≤ stop

/-- The trees after the first one. -/
theorem LiesWithin.later (h : (tree p below rest).LiesWithin start stop) :
    rest.LiesWithin (rest.startOr stop) stop where
  first := fun _ hq => start_eq_startOr hq stop
  ordered := (List.pairwise_append.1 (List.pairwise_cons.1 h.ordered).2).2.1
  forward := fun q hq => h.forward q (List.mem_cons_of_mem p (List.mem_append_right _ hq))
  bounded := fun q hq => h.bounded q (List.mem_cons_of_mem p (List.mem_append_right _ hq))

/-- The parts below the first one start before the next tree does. -/
theorem LiesWithin.inner (h : (tree p below rest).LiesWithin start stop) :
    below.LiesWithin (below.startOr 0) (rest.startOr stop) where
  first := fun _ hq => start_eq_startOr hq 0
  ordered := (List.pairwise_append.1 (List.pairwise_cons.1 h.ordered).2).1
  forward := fun q hq => h.forward q (List.mem_cons_of_mem p (List.mem_append_left _ hq))
  bounded := by
    intro q hq
    have hbefore := (List.pairwise_append.1 (List.pairwise_cons.1 h.ordered).2).2.2 q hq
    cases rest with
    | empty => exact h.bounded q (List.mem_cons_of_mem p (List.mem_append_left _ hq))
    | tree r deeper others => exact hbefore r List.mem_cons_self

/-- The next tree starts between the offsets. -/
theorem LiesWithin.le_startOr (h : (tree p below rest).LiesWithin start stop) :
    start ≤ rest.startOr stop ∧ rest.startOr stop ≤ stop := by
  have hp : p.start = start := h.first p rfl
  rw [← hp]
  cases rest with
  | empty => exact ⟨h.bounded p List.mem_cons_self, Nat.le_refl _⟩
  | tree r deeper others =>
    have hr : r ∈ below.preorder ++ (tree r deeper others).preorder :=
      List.mem_append_right _ List.mem_cons_self
    exact ⟨(List.pairwise_cons.1 h.ordered).1 r hr, h.bounded r (List.mem_cons_of_mem p hr)⟩

/-- So its start is not moved. -/
theorem LiesWithin.startWithin_eq (h : (tree p below rest).LiesWithin start stop) :
    rest.framed.startWithin start stop = rest.startOr stop := by
  obtain ⟨hstart, hstop⟩ := h.le_startOr
  rw [framed_startWithin]
  cases rest with
  | empty => rfl
  | tree r deeper others =>
    rw [startOr] at hstart hstop ⊢
    rw [startWithin]
    omega

theorem le_reach (f : Forest Part) (least : Nat) :
    least ≤ f.reach least ∧ ∀ q ∈ f.preorder, q.stop ≤ f.reach least := by
  induction f generalizing least with
  | empty => exact ⟨Nat.le_refl _, by simp [preorder]⟩
  | tree p below rest ihBelow ihRest =>
    obtain ⟨hbelow, hstopsBelow⟩ := ihBelow (max least p.stop)
    obtain ⟨hrest, hstopsRest⟩ := ihRest (below.reach (max least p.stop))
    rw [reach, preorder, List.forall_mem_cons, List.forall_mem_append]
    exact ⟨by omega, by omega, fun q hq => (hstopsBelow q hq).trans hrest, hstopsRest⟩

/-- All parts of a forest in order start before its last tree ends. -/
theorem start_le_lastReach (hordered : f.preorder.Pairwise fun p q => p.start ≤ q.start)
    (hforward : ∀ p ∈ f.preorder, p.start ≤ p.stop) (default : Nat) :
    ∀ q ∈ f.preorder, q.start ≤ f.lastReach default := by
  induction f with
  | empty => simp [preorder]
  | tree p below rest _ ihRest =>
    obtain ⟨hbelow, hrest⟩ := List.forall_mem_append.1 (List.forall_mem_cons.1 hforward).2
    obtain ⟨hfirst, htail⟩ := List.pairwise_cons.1 hordered
    obtain ⟨-, hordered', hbefore⟩ := List.pairwise_append.1 htail
    rw [preorder, List.forall_mem_cons, List.forall_mem_append]
    cases rest with
    | empty =>
      obtain ⟨hreach, hstops⟩ := below.le_reach p.stop
      rw [lastReach]
      exact ⟨(hforward p List.mem_cons_self).trans hreach,
        fun q hq => (hbelow q hq).trans (hstops q hq), by simp [preorder]⟩
    | tree r deeper others =>
      have hlast := ihRest hordered' hrest
      have hr := hlast r List.mem_cons_self
      show p.start ≤ (tree r deeper others).lastReach default ∧
        (∀ q ∈ below.preorder, q.start ≤ (tree r deeper others).lastReach default) ∧ _
      exact ⟨(hfirst r (List.mem_append_right _ List.mem_cons_self)).trans hr,
        fun q hq => (hbefore q hq r List.mem_cons_self).trans hr, hlast⟩

/-! ## Placing a frame -/

theorem firstRoot?_append {g : Forest Part} (h : f.firstRoot? = some p) :
    (f ++ g).firstRoot? = some p := by
  cases f with
  | empty => cases h
  | tree q below rest => exact h

theorem startWithin_of_firstRoot? (h : f.firstRoot? = some p) :
    f.startWithin start stop = max start (min p.start stop) := by
  cases f with
  | empty => cases h
  | tree q below rest => rw [startWithin, Option.some.inj h]

theorem roots_sublist_preorder (f : Forest Part) : f.roots.Sublist f.preorder := by
  induction f with
  | empty => exact List.nil_sublist _
  | tree p below rest _ ihRest =>
    exact (ihRest.trans (List.sublist_append_right _ _)).cons_cons p

/-- A forest that would start after an offset starts at the same place from that offset on. -/
theorem startWithin_of_le {g : Forest Part} (h : start ≤ g.startWithin 0 stop) :
    g.startWithin start stop = g.startWithin 0 stop := by
  cases g with
  | empty => rfl
  | tree p below rest =>
    simp only [startWithin] at h ⊢
    omega

/-- Trees that follow others are placed on their own, if the others all start before them.  The
induction is on the trees before them. -/
theorem place_append {g : Forest Part} {mid : Nat} (hmid : g.startWithin 0 stop = mid)
    (hfirst : f.firstRoot? = some p) (hroots : f.roots.Pairwise fun p q => p.start ≤ q.start)
    (hbefore : ∀ q ∈ f.roots, q.start ≤ mid) :
    (f ++ g).place p.start stop = f.place p.start mid ++ g.place mid stop := by
  induction f generalizing p with
  | empty => cases hfirst
  | tree r below rest _ ihRest =>
    obtain rfl : r = p := Option.some.inj hfirst
    cases rest with
    | empty =>
      have hg := startWithin_of_le (hmid.symm ▸ hbefore _ List.mem_cons_self)
      rw [tree_append, empty_append, place, hg, hmid]
      rfl
    | tree q deeper others =>
      obtain ⟨hpq, hroots'⟩ := List.pairwise_cons.1 hroots
      obtain ⟨-, hbefore'⟩ := List.forall_mem_cons.1 hbefore
      have hstop : mid ≤ stop := hmid ▸ (g.startWithin_bounds (Nat.zero_le stop)).2
      have hnext : ∀ latest, mid ≤ latest → max r.start (min q.start latest) = q.start := by
        intro latest hlatest
        have := hpq q List.mem_cons_self
        have := hbefore' q List.mem_cons_self
        omega
      have hrest := ihRest rfl hroots' hbefore'
      rw [tree_append, place, place, tree_append q, startWithin, startWithin, hnext stop hstop,
        hnext mid (Nat.le_refl _), ← tree_append q, hrest, tree_append]

/-- A leaf for the text before a forest stops where the forest starts. -/
theorem place_leading {first : Nat} (hle : start ≤ first)
    (hfirst : f.startWithin start stop = first) :
    (leavesOf (textBetween start first) ++ f).place start stop =
      (leavesOf (textBetween start first)).place start first ++ f.place first stop := by
  unfold textBetween
  split
  · rw [leavesOf, leavesOf, tree_append, empty_append, place, place, hfirst]
    rfl
  · obtain rfl : start = first := by omega
    rfl

end Forest

/-! ## Settling -/

/-- Where a placed part starts, and a leading one stops, if the part above it stops at `stop`. -/
def PlacedPart.StartsAs (q : PlacedPart) (stop : Nat) : Role → Prop
  | .own => q.start = q.part.start
  | .leading => q.start = q.part.start ∧ q.stop = q.part.stop
  | .trailing => q.start = min q.part.start stop

namespace Forest

/-- The placed forest has the parts of the marked one, and they start as their roles say.  The part
above both stops at `stop`. -/
def Settles (stop : Nat) : Forest (Part × Role) → Forest PlacedPart → Prop
  | empty, empty => True
  | tree m below rest, tree q placedBelow placedRest =>
    q.part = m.1 ∧ q.StartsAs stop m.2 ∧ below.Settles q.stop placedBelow ∧
      rest.Settles stop placedRest
  | _, _ => False

theorem Settles.append {stop : Nat} {f g : Forest (Part × Role)} {f' g' : Forest PlacedPart}
    (hf : f.Settles stop f') (hg : g.Settles stop g') : (f ++ g).Settles stop (f' ++ g') := by
  induction f generalizing f' with
  | empty =>
    cases f' with
    | empty => exact hg
    | tree q placedBelow placedRest => exact hf.elim
  | tree m below rest _ ihRest =>
    cases f' with
    | empty => exact hf.elim
    | tree q placedBelow placedRest =>
      obtain ⟨hpart, hstarts, hbelow, hrest⟩ := hf
      exact ⟨hpart, hstarts, hbelow, ihRest hrest⟩

theorem settles_leading (start first stop : Nat) :
    ((leavesOf (textBetween start first)).map (·, Role.leading)).Settles stop
      ((leavesOf (textBetween start first)).place start first) := by
  unfold textBetween
  split
  · exact ⟨rfl, ⟨rfl, rfl⟩, trivial, trivial⟩
  · trivial

theorem settles_trailing (reach stop last : Nat) {mid : Nat}
    (hmid : last < stop → mid = min last reach) :
    ((leavesOf (textBetween last stop)).map (·, Role.trailing)).Settles reach
      ((leavesOf (textBetween last stop)).place mid reach) := by
  unfold textBetween
  split
  · exact ⟨rfl, hmid ‹_›, trivial, trivial⟩
  · trivial

variable {p : Part} {children rest : Forest Part} {start stop : Nat}

/-- The text behind the children of a part starts where they end, as far as the part reaches. -/
theorem startWithin_trailing (last stop reach : Nat) :
    (last < stop →
        (leavesOf (textBetween last stop)).startWithin 0 reach = min last reach) ∧
      min last reach ≤ (leavesOf (textBetween last stop)).startWithin 0 reach := by
  unfold textBetween
  split
  · rw [leavesOf, startWithin, Nat.zero_max]
    exact ⟨fun _ => rfl, Nat.le_refl _⟩
  · exact ⟨fun hlt => absurd hlt ‹_›, Nat.min_le_right _ _⟩

/-- The parts of a frame are placed on their own: the text before the children up to where these
start, and the children up to where the text behind them starts. -/
theorem place_frame {c : Part} (hc : children.firstRoot? = some c) {reach : Nat}
    (h : children.LiesWithin c.start reach) (hle : p.start ≤ c.start) :
    ∃ mid, (children.lastReach p.stop < p.stop → mid = min (children.lastReach p.stop) reach) ∧
      children.LiesWithin c.start mid ∧
      (frame p children children.framed).place p.start reach =
        (leavesOf (textBetween p.start c.start)).place p.start c.start ++
          children.framed.place c.start mid ++
          (leavesOf (textBetween (children.lastReach p.stop) p.stop)).place mid reach := by
  have hlast := start_le_lastReach h.ordered h.forward p.stop
  have hreach := h.bounded c (mem_preorder_of_firstRoot? hc)
  simp only [frame, hc]
  generalize children.lastReach p.stop = last at hlast ⊢
  obtain ⟨htrailing, hmin⟩ := startWithin_trailing last p.stop reach
  generalize hmid : (leavesOf (textBetween last p.stop)).startWithin 0 reach = mid at htrailing hmin
  have hlies : children.LiesWithin c.start mid :=
    { h with bounded := fun q hq => (Nat.le_min.2 ⟨hlast q hq, h.bounded q hq⟩).trans hmin }
  refine ⟨mid, htrailing, hlies, ?_⟩
  have hfirst := children.firstRoot?_framed.trans hc
  have hinner : (children.framed ++ leavesOf (textBetween last p.stop)).place c.start reach =
      children.framed.place c.start mid ++
        (leavesOf (textBetween last p.stop)).place mid reach := by
    apply place_append hmid hfirst
    · rw [roots_framed]
      exact hlies.ordered.sublist children.roots_sublist_preorder
    · rw [roots_framed]
      exact fun q hq => hlies.bounded q (mem_preorder_of_mem_roots hq)
  rw [append_assoc, append_assoc, ← hinner]
  apply place_leading hle
  rw [startWithin_of_firstRoot? (firstRoot?_append hfirst)]
  omega

/-- A frame settles around children that settle on their own, wherever they are placed. -/
theorem settles_frame (h : (tree p children rest).LiesWithin start stop)
    (hchildren : ∀ {first mid outer}, children.LiesWithin first mid →
      children.marked.Settles outer (children.framed.place first mid)) :
    (frameMarked p children children.marked).Settles (rest.startOr stop)
      ((frame p children children.framed).place start (rest.startOr stop)) := by
  obtain rfl : p.start = start := h.first p rfl
  have hinner := h.inner
  generalize rest.startOr stop = reach at hinner ⊢
  cases children with
  | empty => trivial
  | tree c deeper others =>
    have hle : p.start ≤ c.start :=
      (List.pairwise_cons.1 h.ordered).1 c (List.mem_append_left _ List.mem_cons_self)
    obtain ⟨mid, hmid, hlies, hplace⟩ := place_frame rfl hinner hle
    rw [hplace]
    exact ((settles_leading _ _ _).append (hchildren hlies)).append (settles_trailing _ _ _ hmid)

/-- The parts of a forest in order start where they were reported to, also in their frames. -/
theorem settles_framed {f : Forest Part} (h : f.LiesWithin start stop) (outer : Nat) :
    f.marked.Settles outer (f.framed.place start stop) := by
  induction f generalizing start stop outer with
  | empty => trivial
  | tree p below rest ihBelow ihRest =>
    rw [marked, framed, place, h.startWithin_eq]
    exact ⟨rfl, (h.first p rfl).symm, settles_frame h (ihBelow · _), ihRest h.later outer⟩

end Forest

/-! ## Nodes -/

/-- The node as a part that is placed. -/
def Node.placed (n : Node) : PlacedPart := ⟨n.part, n.start, n.stop⟩

theorem Forest.map_placed_numberedForest (parent : Option NodeId) (next : Nat)
    (f : Forest PlacedPart) : (f.numberedForest parent next).map Node.placed = f := by
  induction f generalizing parent next with
  | empty => rfl
  | tree p below rest ihBelow ihRest =>
    rw [numberedForest, map, ihBelow, ihRest, Node.placed, Node.part, PlacedPart.node]

namespace Outline

variable {o : Outline}

/-- Where a node starts, and leading text stops, by its role.  Trailing text starts where the node
above it stops, if it was found after that. -/
def StartsAs (o : Outline) (n : Node) : Role → Prop
  | .own => n.start = n.contentStart
  | .leading => n.start = n.contentStart ∧ n.stop = n.contentStop
  | .trailing => ∃ above, n.parent = some above.id ∧ o.node? above.id = some above ∧
      n.start = min n.contentStart above.stop

/-- Nodes that settle have roles and start by them. -/
theorem Spells.exists_roles {g : Forest Node} {marked : Forest (Part × Role)} {above : Node}
    (hspells : o.Spells g) (hlinked : g.Linked (some above.id))
    (habove : o.node? above.id = some above) (h : marked.Settles above.stop (g.map Node.placed)) :
    ∃ marks : List (Node × Role), marks.map (·.1) = g.preorder ∧
      marks.map (fun m => (m.1.part, m.2)) = marked.preorder ∧
      ∀ m ∈ marks, o.StartsAs m.1 m.2 := by
  induction g generalizing marked above with
  | empty =>
    cases marked with
    | empty => exact ⟨[], rfl, rfl, by simp⟩
    | tree m below rest => exact h.elim
  | tree n below rest ihBelow ihRest =>
    cases marked with
    | empty => exact h.elim
    | tree m markedBelow markedRest =>
      obtain ⟨hn, -, hspellsBelow, hspellsRest⟩ := hspells
      obtain ⟨hparent, hlinkedBelow, hlinkedRest⟩ := hlinked
      obtain ⟨hpart, hstarts, hbelow, hrest⟩ := h
      obtain ⟨marksBelow, hnodes, hroles, hstartsBelow⟩ :=
        ihBelow hspellsBelow hlinkedBelow hn hbelow
      obtain ⟨marksRest, hnodes', hroles', hstartsRest⟩ :=
        ihRest hspellsRest hlinkedRest habove hrest
      have hself : o.StartsAs n m.2 := by
        cases hrole : m.2 <;> rw [hrole] at hstarts
        case own => exact hstarts
        case leading => exact hstarts
        case trailing => exact ⟨above, hparent, habove, hstarts⟩
      refine ⟨(n, m.2) :: (marksBelow ++ marksRest), ?_, ?_, ?_⟩
      · rw [List.map_cons, List.map_append, hnodes, hnodes', Forest.preorder]
      · rw [List.map_cons, List.map_append, hroles, hroles', Forest.preorder]
        exact congrArg (fun p => (p, m.2) :: _) hpart
      · rw [List.forall_mem_cons, List.forall_mem_append]
        exact ⟨hself, hstartsBelow, hstartsRest⟩

/-- The parts of a tree are in order, if spans are and report documents at the start only. -/
theorem liesWithin_partTree {length : Nat} {spans : List Span}
    (hsorted : spans.Pairwise fun s s' => s.start ≤ s'.start)
    (hfits : ∀ s ∈ spans, s.start ≤ s.stop ∧ s.stop ≤ length)
    (hdocuments : ∀ s ∈ spans, s.part.kind = .document → s.start = 0) :
    (Forest.tree (partTree length spans).1 (partTree length spans).2 .empty).LiesWithin 0
      length := by
  have hforward : ∀ p ∈ spans.map Span.part, p.start ≤ p.stop :=
    List.forall_mem_map.2 fun s hs => (hfits s hs).1
  have hstarts : (spans.map Span.part).Pairwise fun p q => p.start ≤ q.start :=
    List.pairwise_map.2 hsorted
  have hdocuments' : ∀ p ∈ spans.map Span.part, p.kind = .document → p.start = 0 :=
    List.forall_mem_map.2 hdocuments
  have hordered : (cover length (spans.map Span.part)).Pairwise fun p q => p.start ≤ q.start :=
    pairwise_coverFrom hstarts hforward hdocuments' 0
  have hforward' : ∀ q ∈ cover length (spans.map Span.part), q.start ≤ q.stop := by
    intro q hq
    rcases mem_or_bounds_of_mem_coverFrom hq with hq | hq
    · exact hforward q hq
    · exact Nat.le_of_lt hq.2
  have hwithin : ∀ s ∈ spans, s.part.Within length :=
    fun s hs => ⟨(hfits s hs).1.trans (hfits s hs).2, (hfits s hs).2⟩
  obtain ⟨hroot, hbelow⟩ := within_partTree hwithin
  have hbounded : ∀ q ∈ (partTree length spans).1 :: (partTree length spans).2.preorder,
      q.start ≤ length := List.forall_mem_cons.2 ⟨hroot.1, fun q hq => (hbelow q hq).1⟩
  -- The parts are those of the cover, perhaps behind a document that starts with the text.
  obtain ⟨hstart, hordered', hforward''⟩ : (partTree length spans).1.start = 0 ∧
      ((partTree length spans).1 :: (partTree length spans).2.preorder).Pairwise
        (fun p q => p.start ≤ q.start) ∧
      ∀ q ∈ (partTree length spans).1 :: (partTree length spans).2.preorder,
        q.start ≤ q.stop := by
    rcases preorder_partTree length spans with hpreorder | hrooted
    · rw [hpreorder]
      exact ⟨start_eq_zero_of_head?_cover (hpreorder ▸ List.head?_cons), hordered, hforward'⟩
    · rw [hrooted, Forest.preorder_ofParts]
      exact ⟨rfl, List.pairwise_cons.2 ⟨fun _ _ => Nat.zero_le _, hordered⟩,
        List.forall_mem_cons.2 ⟨Nat.zero_le _, hforward'⟩⟩
  rw [← Forest.preorder_tree_empty] at hbounded hordered' hforward''
  exact ⟨fun p hp => Option.some.inj hp ▸ hstart, hordered', hforward'', hbounded⟩

/-- Placing moves no start that was reported, if documents are reported at the start of the text
only: all nodes start with their contents, but for trailing text.  Leading text is its content.
Trailing text starts where its content does or where the node above it stops, whichever comes
first. -/
theorem keeps_starts (ignored : List String) (spans : List Span) (text : List Char)
    (h : build ignored spans text = .ok o)
    (hdocuments : ∀ s ∈ spans, ¬ Ignores ignored s.tag → s.part.kind = .document →
      s.start = 0) :
    let tree := partTree text.length (keptSpans ignored spans)
    let marked := Forest.tree (tree.1, .own) (frameMarked tree.1 tree.2 tree.2.marked) .empty
    marked.map (·.1) = .tree tree.1 (frame tree.1 tree.2 tree.2.framed) .empty ∧
      (marked.preorder.filter fun m => m.2 = .own).map (·.1) = tree.1 :: tree.2.preorder ∧
      o.nodes.nodes.Perm o.walk ∧
      ∃ marks : List (Node × Role), marks.map (·.1) = o.walk ∧
        marks.map (fun m => (m.1.part, m.2)) = marked.preorder ∧
        ∀ m ∈ marks, o.StartsAs m.1 m.2 := by
  intro tree marked
  have hlies : (Forest.tree tree.1 tree.2 .empty).LiesWithin 0 text.length := by
    have hkept : ∀ s ∈ keptSpans ignored spans, s ∈ spans ∧ ¬ Ignores ignored s.tag := by
      intro s hs
      simpa using List.mem_filter.1 (List.mem_mergeSort.1 hs)
    apply liesWithin_partTree (stablySorted_keptSpans ignored spans).ordered
    · exact fun s hs => fits_of_build h s (hkept s hs).1
    · exact fun s hs => hdocuments s (hkept s hs).1 (hkept s hs).2
  have htree := isTiledTree_ofPartTree text.length tree
  rw [← build_eq_ok h] at htree
  refine ⟨?_, ?_, ?_, ?_⟩
  · rw [Forest.map, map_fst_frameMarked _ _ tree.2.map_fst_marked, Forest.map]
  · rw [Forest.preorder_tree_empty, List.filter_cons_of_pos (by simp), filter_frameMarked,
      List.map_cons, Forest.map_filter_marked]
  · rw [htree.walk_eq]
    exact htree.perm
  · have hsettles := Forest.settles_frame hlies fun hchildren => Forest.settles_framed hchildren _
    rw [← Forest.map_placed_numberedForest (some ⟨0⟩) 1 (Forest.place _ _ _)] at hsettles
    obtain ⟨marks, hnodes, hroles, hstarts⟩ := htree.spells.2.2.1.exists_roles
      (Forest.linked_numberedForest (some ⟨0⟩) 1 _) htree.spells.1 hsettles
    refine ⟨(nodeAbove text.length tree, .own) :: marks, ?_, ?_, ?_⟩
    · rw [htree.walk_eq, Forest.preorder_tree_empty, List.map_cons, hnodes]
    · rw [List.map_cons, hroles, Forest.preorder_tree_empty]
      rfl
    · exact List.forall_mem_cons.2 ⟨(hlies.first tree.1 rfl).symm, hstarts⟩

/-- Paragraphs that cross, with units inside them that start together. -/
def overlappingSpans : List Span :=
  [⟨"Document", 0, 12⟩, ⟨"Paragraph", 1, 8⟩, ⟨"Emphasis", 2, 2⟩, ⟨"Emphasis", 2, 7⟩,
    ⟨"Paragraph", 5, 12⟩]

theorem keptSpans_overlappingSpans :
    keptSpans defaultIgnored overlappingSpans = overlappingSpans :=
  keptSpans_eq_self (by decide) (by decide)

theorem partTree_overlappingSpans :
    partTree 12 overlappingSpans =
      (⟨.document, 0, 12⟩, .tree ⟨.text, 0, 1⟩
        (.tree ⟨.paragraph, 1, 8⟩
          (.tree ⟨.emphasis, 2, 2⟩ .empty (.tree ⟨.emphasis, 2, 7⟩ .empty .empty))
          (.tree ⟨.paragraph, 5, 12⟩ .empty .empty)) .empty) := by
  have hcover : cover 12 (overlappingSpans.map Span.part) =
      [⟨.document, 0, 12⟩, ⟨.text, 0, 1⟩, ⟨.paragraph, 1, 8⟩, ⟨.emphasis, 2, 2⟩,
        ⟨.emphasis, 2, 7⟩, ⟨.paragraph, 5, 12⟩] := by
    decide +kernel
  simp [partTree, hcover, Forest.ofParts_cons, Forest.ofParts, rooted]

theorem keeps_starts_overlappingSpans :
    ∃ (o : Outline) (marks : List (Node × Role)),
      build defaultIgnored overlappingSpans (List.replicate 12 'x') = .ok o ∧
      marks.map (·.1) = o.walk ∧
      marks.map (fun m => (m.1.part, m.2)) =
        [(⟨.document, 0, 12⟩, .own), (⟨.text, 0, 1⟩, .own), (⟨.text, 0, 1⟩, .leading),
          (⟨.paragraph, 1, 8⟩, .own), (⟨.text, 1, 2⟩, .leading), (⟨.emphasis, 2, 2⟩, .own),
          (⟨.emphasis, 2, 7⟩, .own), (⟨.text, 7, 8⟩, .trailing), (⟨.paragraph, 5, 12⟩, .own)] ∧
      ∀ m ∈ marks, o.StartsAs m.1 m.2 := by
  obtain ⟨-, -, -, marks, hwalk, hroles, hstarts⟩ :=
    keeps_starts defaultIgnored overlappingSpans (List.replicate 12 'x') rfl (by decide +kernel)
  rw [keptSpans_overlappingSpans, List.length_replicate, partTree_overlappingSpans] at hroles
  exact ⟨_, marks, rfl, hwalk, hroles, hstarts⟩

end Outline

end SelectionLadder
