import SelectionLadder.Proofs.Outline.Renaming

/-!
# What building depends on

All spans are checked, in the order in which a parser reports them.  Building then depends on the
spans that are kept, and of their order only on that of spans that start together.

* `build_eq_error_iff`: the error is that of the first span that does not fit the text.
* `eq_of_pairwise_of_filter_eq`: an ordered list is determined by its elements of each key.  So
  reports that differ only in what is ignored, or in the order of spans that start apart, are sorted
  into the same list (`keptSpans_eq`).
* `IsCopy.exists_renaming`: numbering does not matter either.  Two copies of an outline that is
  built are copies of each other.
-/

namespace SelectionLadder

/-! ## Orders -/

section

variable {α : Type} {key : α → Nat} {ys zs : List α}

theorem mem_iff_of_filter_eq
    (h : ∀ k, (ys.filter fun a => key a = k) = zs.filter fun a => key a = k) (a : α) :
    a ∈ ys ↔ a ∈ zs := by
  have hfilter : a ∈ (ys.filter fun b => key b = key a) ↔ a ∈ zs.filter fun b => key b = key a := by
    rw [h]
  simpa using hfilter

/-- Lists in order of keys are equal if their elements of each key are. -/
theorem eq_of_pairwise_of_filter_eq (hys : ys.Pairwise fun a b => key a ≤ key b)
    (hzs : zs.Pairwise fun a b => key a ≤ key b)
    (h : ∀ k, (ys.filter fun a => key a = k) = zs.filter fun a => key a = k) : ys = zs := by
  have hmem := mem_iff_of_filter_eq h
  induction ys generalizing zs with
  | nil =>
    exact (List.eq_nil_iff_forall_not_mem.2 fun a ha => List.not_mem_nil ((hmem a).2 ha)).symm
  | cons y ys ih =>
    cases zs with
    | nil => exact absurd ((hmem y).1 List.mem_cons_self) List.not_mem_nil
    | cons z zs =>
      obtain ⟨hy, hys'⟩ := List.pairwise_cons.1 hys
      obtain ⟨hz, hzs'⟩ := List.pairwise_cons.1 hzs
      have hkey : key z = key y := by
        apply Nat.le_antisymm
        · rcases List.mem_cons.1 ((hmem y).1 List.mem_cons_self) with rfl | hmem
          · exact Nat.le_refl _
          · exact hz y hmem
        · rcases List.mem_cons.1 ((hmem z).2 List.mem_cons_self) with rfl | hmem
          · exact Nat.le_refl _
          · exact hy z hmem
      have hfirst := h (key y)
      rw [List.filter_cons_of_pos (by simp),
        List.filter_cons_of_pos (by simpa using hkey)] at hfirst
      obtain ⟨rfl, hrest⟩ := List.cons.inj hfirst
      have hfilter : ∀ k, (ys.filter fun a => key a = k) = zs.filter fun a => key a = k := by
        intro k
        by_cases hk : key y = k
        · exact hk ▸ hrest
        · have hothers := h k
          rwa [List.filter_cons_of_neg (by simpa using hk),
            List.filter_cons_of_neg (by simpa using hk)] at hothers
      rw [ih hys' hzs' hfilter (mem_iff_of_filter_eq hfilter)]

end

/-! ## Reports -/

section

variable {ignored : List String} {spans spans' : List Span}

/-- The spans of two reports that are kept and start together are the same, in the same order. -/
def KeepsOrder (ignored : List String) (spans spans' : List Span) : Prop :=
  ∀ start, (spans'.filter fun s => ¬ Ignores ignored s.tag ∧ s.start = start) =
    spans.filter fun s => ¬ Ignores ignored s.tag ∧ s.start = start

theorem filter_kept_start (ignored : List String) (spans : List Span) (start : Nat) :
    ((spans.filter fun s => ¬ Ignores ignored s.tag).filter fun s => s.start = start) =
      spans.filter fun s => ¬ Ignores ignored s.tag ∧ s.start = start := by
  rw [List.filter_filter]
  exact List.filter_congr fun s _ => by simp [and_comm]

/-- Such reports are sorted into the same list. -/
theorem keptSpans_eq (h : KeepsOrder ignored spans spans') :
    keptSpans ignored spans' = keptSpans ignored spans := by
  have hsorted := stablySorted_keptSpans ignored
  apply eq_of_pairwise_of_filter_eq (hsorted spans').ordered (hsorted spans).ordered
  intro start
  rw [(hsorted spans').stable, (hsorted spans).stable, filter_kept_start, filter_kept_start,
    h start]

theorem keepsOrder_filter (ignored : List String) (spans : List Span) :
    KeepsOrder ignored spans (spans.filter fun s => ¬ Ignores ignored s.tag) := by
  intro start
  have hkept : ((spans.filter fun s => ¬ Ignores ignored s.tag).filter
      fun s => ¬ Ignores ignored s.tag) = spans.filter fun s => ¬ Ignores ignored s.tag :=
    List.filter_eq_self.2 fun s hs => (List.mem_filter.1 hs).2
  rw [← filter_kept_start, ← filter_kept_start, hkept]

/-- The fault of a span: that it is reversed, also if it is out of bounds as well. -/
theorem Span.fault?_eq_some_iff {s : Span} {length : Nat} {e : SpanError} :
    s.fault? length = some e ↔
      s.stop < s.start ∧ e = .reversed s ∨
        s.start ≤ s.stop ∧ length < s.stop ∧ e = .outOfBounds s length := by
  unfold fault?
  split
  · simp [*, eq_comm]
  · split
    · simp [*, eq_comm]
      omega
    · simp [*]

end

namespace Outline

variable {ignored : List String} {spans spans' : List Span} {text : List Char} {o : Outline}

/-- The error is that of the first span that does not fit the text. -/
theorem build_eq_error_iff {e : SpanError} :
    build ignored spans text = .error e ↔
      ∃ before s after, spans = before ++ s :: after ∧ s.fault? text.length = some e ∧
        ∀ s' ∈ before, s'.start ≤ s'.stop ∧ s'.stop ≤ text.length := by
  have hfirst := List.findSome?_eq_some_iff (f := (·.fault? text.length)) (l := spans) (b := e)
  simp only [Span.fault?_eq_none_iff] at hfirst
  rw [← hfirst, build]
  cases spans.findSome? (·.fault? text.length) <;> simp

/-- Building depends on the spans that are kept, if all spans fit the text. -/
theorem build_eq_of_keepsOrder (h : build ignored spans text = .ok o)
    (hfits : ∀ s ∈ spans', s ∈ spans) (horder : KeepsOrder ignored spans spans') :
    build ignored spans' text = .ok o := by
  rw [build_of_fits ignored fun s hs => fits_of_build h s (hfits s hs), keptSpans_eq horder,
    ← build_eq_ok h]

end Outline

/-! ## Copies -/

/-- The identifiers that a node has and names. -/
def Node.ids (n : Node) : List NodeId := n.id :: (n.parent.toList ++ n.children)

theorem Node.rename_rename (n : Node) (name back : NodeId → NodeId) :
    (n.rename name).rename back = n.rename (back ∘ name) := by
  simp [rename]

theorem Node.rename_eq_self {n : Node} {name : NodeId → NodeId} (h : ∀ id ∈ n.ids, name id = id) :
    n.rename name = n := by
  obtain ⟨hid, hothers⟩ := List.forall_mem_cons.1 h
  obtain ⟨hparent, hchildren⟩ := List.forall_mem_append.1 hothers
  have hparent' : n.parent.map name = n.parent := by
    cases hp : n.parent with
    | none => rfl
    | some p => rw [Option.map_some, hparent p (by simp [hp])]
  have hchildren' : n.children.map name = n.children :=
    (List.map_congr_left hchildren).trans (List.map_id _)
  rw [rename, hid, hparent', hchildren']

/-- In a linked forest each node names the parent of the roots, or another node. -/
theorem Forest.Linked.parent_eq_or {f : Forest Node} {parent : Option NodeId}
    (h : f.Linked parent) {n : Node} (hn : n ∈ f.preorder) :
    n.parent = parent ∨ ∃ m ∈ f.preorder, n.parent = some m.id := by
  induction f generalizing parent with
  | empty => exact absurd hn List.not_mem_nil
  | tree m below rest ihBelow ihRest =>
    obtain ⟨rfl, hbelow, hrest⟩ := h
    rw [preorder, List.mem_cons, List.mem_append] at hn
    rcases hn with rfl | hn | hn
    · exact Or.inl rfl
    · right
      rcases ihBelow hbelow hn with hm | ⟨above, habove, hparent⟩
      · exact ⟨m, List.mem_cons_self, hm⟩
      · exact ⟨above, List.mem_cons_of_mem m (List.mem_append_left _ habove), hparent⟩
    · rcases ihRest hrest hn with hparent | ⟨above, habove, hparent⟩
      · exact Or.inl hparent
      · exact Or.inr ⟨above, List.mem_cons_of_mem m (List.mem_append_right _ habove), hparent⟩

namespace Outline

variable {name name' : NodeId → NodeId} {o o' o'' : Outline}

/-- An outline that is built names no identifiers but those under which it stores nodes. -/
theorem IsBuilt.ids_stored (h : o.IsBuilt) :
    o.root ∈ o.nodes.keys ∧ ∀ n ∈ o.nodes.nodes, ∀ id ∈ n.ids, id ∈ o.nodes.keys := by
  obtain ⟨root, below, htree, hlinked⟩ := h.exists_linked
  have hstored : ∀ m ∈ (Forest.tree root below .empty).preorder, m.id ∈ o.nodes.keys :=
    fun m hm => mem_keys_iff.2 ⟨m, htree.spells.node?_eq hm⟩
  refine ⟨htree.root_eq ▸ hstored root List.mem_cons_self, ?_⟩
  intro n hn
  refine List.forall_mem_cons.2 ⟨hstored n (htree.mem_nodes_iff.1 hn),
    List.forall_mem_append.2 ⟨?_, ?_⟩⟩
  · intro id hid
    rcases hlinked.parent_eq_or (htree.mem_nodes_iff.1 hn) with hparent | ⟨m, hm, hparent⟩
    · simp [hparent] at hid
    · rw [hparent, Option.toList_some, List.mem_singleton] at hid
      exact hid ▸ hstored m hm
  · rw [← htree.tiled_outline.children_stored n hn, List.forall_mem_map]
    exact fun child hchild => mem_keys_iff.2 ⟨child, h.isSound n hn child hchild⟩

theorem IsCopy.trans (h : IsCopy name o o') (h' : IsCopy name' o' o'') :
    IsCopy (name' ∘ name) o o'' where
  root_eq := by rw [h'.root_eq, h.root_eq, Function.comp]
  perm := by
    refine h'.perm.trans ((h.perm.map _).trans ?_)
    simp only [List.map_map, Function.comp_def, Node.rename_rename]
    exact List.Perm.refl _
  length_eq := h'.length_eq.trans h.length_eq

/-- A copy of an outline that is built can be named back. -/
theorem IsCopy.exists_symm (h : IsCopy name o o') (hbuilt : o.IsBuilt) :
    ∃ back, IsCopy back o' o := by
  have hinj : Set.InjOn name {id | id ∈ o.nodes.keys} := fun a ha b hb =>
    List.inj_on_of_nodup_map (h.perm_keys.nodup_iff.1 o'.nodes.nodup_keys) ha hb
  have hback := hinj.leftInvOn_invFunOn
  generalize Function.invFunOn name {id | id ∈ o.nodes.keys} = back at hback
  obtain ⟨hroot, hids⟩ := hbuilt.ids_stored
  have hentry : ∀ e ∈ o.nodes.entries, (back (name e.1), (e.2.rename name).rename back) = e := by
    intro e he
    rw [Node.rename_rename, Node.rename_eq_self, hback (List.mem_map_of_mem he)]
    exact fun id hid => hback (hids e.2 (List.mem_map_of_mem he) id hid)
  refine ⟨back, ?_, ?_, h.length_eq.symm⟩
  · rw [h.root_eq]
    exact (hback hroot).symm
  · refine List.Perm.trans ?_ (h.perm.map _).symm
    rw [List.map_map]
    exact (List.Perm.of_eq ((List.map_congr_left hentry).trans (List.map_id _))).symm

/-- Two copies of an outline that is built are copies of each other. -/
theorem IsCopy.exists_renaming (h : IsCopy name o o') (h' : IsCopy name' o o'')
    (hbuilt : o.IsBuilt) : ∃ name'', IsCopy name'' o' o'' := by
  obtain ⟨back, hback⟩ := h.exists_symm hbuilt
  exact ⟨_, hback.trans h'⟩

/-- The outline under names that differ. -/
def renamed (o : Outline) (name : NodeId → NodeId) (hname : Function.Injective name) : Outline where
  root := name o.root
  nodes := ⟨o.nodes.entries.map fun e => (name e.1, e.2.rename name), by
    simpa [List.map_map, Function.comp_def] using o.nodes.nodup_keys.map hname⟩
  length := o.length

theorem isCopy_renamed (o : Outline) {name : NodeId → NodeId} (hname : Function.Injective name) :
    IsCopy name o (o.renamed name hname) :=
  ⟨rfl, List.Perm.refl _, rfl⟩

/-! ## Builds -/

/-- Building fails if and only if some span, ignored or not, does not fit the text, and the error is
that of the first one that is reported.  An outline that is built stays the same if ignored spans
are left out, and if spans are reported in another order that is the same for spans that are kept
and start together.  Nor does it depend on how nodes are numbered. -/
theorem build_depends_on_kept (ignored : List String) (spans : List Span) (text : List Char) :
    ((∃ e, build ignored spans text = .error e) ↔
        ∃ s ∈ spans, s.stop < s.start ∨ text.length < s.stop) ∧
      (∀ e, build ignored spans text = .error e ↔
        ∃ before s after, spans = before ++ s :: after ∧
          (s.stop < s.start ∧ e = .reversed s ∨
            s.start ≤ s.stop ∧ text.length < s.stop ∧ e = .outOfBounds s text.length) ∧
          ∀ s' ∈ before, s'.start ≤ s'.stop ∧ s'.stop ≤ text.length) ∧
      ∀ o, build ignored spans text = .ok o →
        build ignored (spans.filter fun s => ¬ Ignores ignored s.tag) text = .ok o ∧
        (∀ spans', spans'.Perm spans → KeepsOrder ignored spans spans' →
          build ignored spans' text = .ok o) ∧
        ∀ name name' o' o'', IsCopy name o o' → IsCopy name' o o'' →
          ∃ name'', IsCopy name'' o' o'' := by
  refine ⟨⟨?_, ?_⟩, ?_, ?_⟩
  · rintro ⟨e, he⟩
    obtain ⟨before, s, after, rfl, hfault, -⟩ := build_eq_error_iff.1 he
    refine ⟨s, by simp, ?_⟩
    rcases Span.fault?_eq_some_iff.1 hfault with ⟨hreversed, -⟩ | ⟨-, hbeyond, -⟩
    · exact Or.inl hreversed
    · exact Or.inr hbeyond
  · rintro ⟨s, hs, hfault⟩
    cases hbuild : build ignored spans text with
    | error e => exact ⟨e, rfl⟩
    | ok o =>
      have := fits_of_build hbuild s hs
      omega
  · intro e
    simp only [build_eq_error_iff, Span.fault?_eq_some_iff]
  · intro o h
    refine ⟨build_eq_of_keepsOrder h ?_ (keepsOrder_filter ignored spans), ?_, ?_⟩
    · exact fun s hs => (List.mem_filter.1 hs).1
    · exact fun spans' hperm => build_eq_of_keepsOrder h fun s hs => hperm.mem_iff.1 hs
    · exact fun name name' o' o'' hcopy hcopy' => hcopy.exists_renaming hcopy' ⟨_, _, _, h⟩

/-- A report out of order, with markup in it. -/
def untidySpans : List Span :=
  [⟨"Paragraph", 5, 8⟩, ⟨"formatting", 0, 1⟩, ⟨"Heading1", 0, 4⟩, ⟨"Emphasis", 0, 2⟩,
    ⟨"formatting-emphasis", 1, 2⟩]

/-- The same units in order, with the markup behind them. -/
def tidySpans : List Span :=
  [⟨"Heading1", 0, 4⟩, ⟨"Emphasis", 0, 2⟩, ⟨"Paragraph", 5, 8⟩, ⟨"formatting-emphasis", 1, 2⟩,
    ⟨"formatting", 0, 1⟩]

theorem keepsOrder_tidySpans : KeepsOrder defaultIgnored untidySpans tidySpans := by
  intro start
  have htidy : (tidySpans.filter fun s => ¬ Ignores defaultIgnored s.tag) =
      [⟨"Heading1", 0, 4⟩, ⟨"Emphasis", 0, 2⟩, ⟨"Paragraph", 5, 8⟩] := by decide +kernel
  have huntidy : (untidySpans.filter fun s => ¬ Ignores defaultIgnored s.tag) =
      [⟨"Paragraph", 5, 8⟩, ⟨"Heading1", 0, 4⟩, ⟨"Emphasis", 0, 2⟩] := by decide +kernel
  rw [← filter_kept_start, ← filter_kept_start, htidy, huntidy]
  by_cases hstart : start = 5
  · subst hstart
    rfl
  · have hother : ¬ 5 = start := fun heq => hstart heq.symm
    simp [List.filter_cons, hother]

/-- Identifiers from another number on. -/
def shift (start : Nat) (id : NodeId) : NodeId := ⟨id.value + start⟩

theorem injective_shift (start : Nat) : Function.Injective (shift start) := by
  intro a b hab
  cases a
  cases b
  simpa [shift] using hab

theorem build_depends_on_kept_untidySpans :
    ∃ o, build defaultIgnored untidySpans (List.replicate 8 'x') = .ok o ∧
      build defaultIgnored tidySpans (List.replicate 8 'x') = .ok o ∧
      build defaultIgnored untidySpans (List.replicate 7 'x') =
        .error (.outOfBounds ⟨"Paragraph", 5, 8⟩ 7) ∧
      ∃ name, IsCopy name (o.renamed (shift 1) (injective_shift 1))
        (o.renamed (shift 5) (injective_shift 5)) := by
  obtain ⟨-, -, hbuilt⟩ := build_depends_on_kept defaultIgnored untidySpans (List.replicate 8 'x')
  obtain ⟨-, herror, -⟩ := build_depends_on_kept defaultIgnored untidySpans (List.replicate 7 'x')
  obtain ⟨-, hreport, hcopy⟩ := hbuilt _ rfl
  refine ⟨_, rfl, hreport tidySpans (by decide) keepsOrder_tidySpans, ?_, ?_⟩
  · exact (herror _).2 ⟨[], _, _, rfl, Or.inr ⟨by decide, by decide, rfl⟩, by simp⟩
  · exact hcopy _ _ _ _ (isCopy_renamed _ _) (isCopy_renamed _ _)

end Outline

end SelectionLadder
