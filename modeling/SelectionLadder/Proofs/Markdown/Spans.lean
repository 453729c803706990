import SelectionLadder.Proofs.Kind
import SelectionLadder.Proofs.Outline.Leading
import SelectionLadder.Proofs.Text.Bytes

/-!
# Spans of Markdown

An outline can be built from all spans that report units of Markdown, whatever the parser finds.

* Places in characters: a span starts and stops inside the text (`Event.span_bounds`).
* Tags: no tag of Markdown is ignored (`Tag.not_ignores_name`), and none names a document or text
  (`Tag.ofTag_name_ne`).
* `build_spans` puts them together.  It asks of the parser only that no unit stops before it
  starts.
-/

namespace SelectionLadder.Markdown

/-! ## Places in characters -/

theorem Event.span_bounds (cs : List Char) {e : Event} (h : e.start ≤ e.stop) :
    (e.span cs).start ≤ (e.span cs).stop ∧ (e.span cs).stop ≤ cs.length :=
  ⟨charOffset_mono cs h, charOffset_le_length e.stop cs⟩

/-! ## Tags -/

namespace Tag

theorem toList_name_heading (level : Nat) :
    (heading level).name.toList = "Heading".toList ++ Nat.toDigits 10 level := by
  simp [name, toString]

/-- The tag of a heading names a heading, whatever the level. -/
theorem ofTag_name_heading (level : Nat) : ∃ n, Kind.ofTag (heading level).name = .heading n := by
  have hdigits : ∀ d ∈ Nat.toDigits 10 level, d.isDigit := fun _ hd =>
    Nat.isDigit_of_mem_toDigits (by decide) (by decide) hd
  have hstem : Kind.normalize "Heading" = "heading".toList := by decide
  have hnormal := Kind.normalize_append_digits hdigits (toList_name_heading level)
  rw [hstem] at hnormal
  exact ⟨_, Kind.ofTag_of_stem (by decide) hdigits hnormal⟩

/-- No tag names a document or text. -/
theorem ofTag_name_ne (tag : Tag) :
    Kind.ofTag tag.name ≠ .document ∧ Kind.ofTag tag.name ≠ .text := by
  cases tag with
  | heading level =>
    obtain ⟨n, hn⟩ := ofTag_name_heading level
    simp [hn]
  | _ => decide

/-- Tags start with a capital letter. -/
theorem exists_toList_name (tag : Tag) : ∃ c cs, tag.name.toList = c :: cs ∧ c.isUpper := by
  cases tag with
  | heading level => exact ⟨_, _, toList_name_heading level, rfl⟩
  | _ => exact ⟨_, _, rfl, rfl⟩

/-- What is ignored by default starts with a small letter. -/
theorem not_ignores_name (tag : Tag) : ¬ Ignores defaultIgnored tag.name := by
  rintro ⟨p, hp, -, hprefix⟩
  obtain ⟨c, cs, hname, hupper⟩ := tag.exists_toList_name
  rw [hname] at hprefix
  simp only [defaultIgnored, List.mem_cons, List.not_mem_nil, or_false] at hp
  rcases hp with rfl | rfl <;>
  · obtain ⟨rfl, -⟩ := List.cons_prefix_cons.1 hprefix
    exact absurd hupper (by decide)

end Tag

/-! ## Building -/

section

variable {events : List Event}

theorem spans_bounds (cs : List Char) (h : ∀ e ∈ events, e.start ≤ e.stop) :
    ∀ s ∈ spans cs events, s.start ≤ s.stop ∧ s.stop ≤ cs.length := by
  intro s hs
  rcases List.mem_cons.1 hs with rfl | hs
  · exact ⟨Nat.zero_le _, Nat.le_refl _⟩
  · obtain ⟨e, he, rfl⟩ := List.mem_map.1 hs
    exact e.span_bounds cs (h e he)

theorem filter_spans (cs : List Char) (events : List Event) :
    ((events.map (Event.span cs)).filter fun s => ¬ Ignores defaultIgnored s.tag) =
      events.map (Event.span cs) := by
  refine List.filter_eq_self.2 (List.forall_mem_map.2 fun e _ => ?_)
  exact decide_eq_true e.tag.not_ignores_name

/-- The document stays the first span, before the units in order of their starts. -/
theorem keptSpans_spans (cs : List Char) (events : List Event) :
    keptSpans defaultIgnored (spans cs events) =
      ⟨"Document", 0, cs.length⟩ :: keptSpans defaultIgnored (events.map (Event.span cs)) := by
  have hkept : ¬ Ignores defaultIgnored "Document" := by decide
  exact keptSpans_cons _ hkept rfl

theorem part_document (length : Nat) :
    Span.part ⟨"Document", 0, length⟩ = ⟨.document, 0, length⟩ := by
  have hkind : Kind.ofTag "Document" = .document := by decide
  rw [Span.part, hkind]

theorem stablySorted_units (cs : List Char) (events : List Event) :
    StablySorted Span.start (events.map (Event.span cs))
      (keptSpans defaultIgnored (events.map (Event.span cs))) := by
  have hsorted := stablySorted_keptSpans defaultIgnored (events.map (Event.span cs))
  rwa [filter_spans] at hsorted

/-- The units are no documents and no text. -/
theorem kind_ne_of_mem_keptSpans {cs : List Char} {s : Span}
    (hs : s ∈ keptSpans defaultIgnored (events.map (Event.span cs))) :
    s.part.kind ≠ .document ∧ s.part.kind ≠ .text := by
  obtain ⟨e, -, rfl⟩ := List.mem_map.1 (List.mem_of_mem_filter (List.mem_mergeSort.1 hs))
  simp only [Span.part, Event.span]
  exact e.tag.ofTag_name_ne

end

/-- An outline can be built from what is reported of a text, whatever units a parser finds: at bytes
inside a character, past the end of the text, crossing, or out of order.

All spans stay inside the text, and a place between characters is the number of characters before
it.  The kept spans are the document and then the units in order of their starts.  Their parts make
one tree below the document that is reported, and it is taken as it is.  So the root is the node of
that document, and each unit has one node below it. -/
theorem build_spans (cs : List Char) (events : List Event) (h : ∀ e ∈ events, e.start ≤ e.stop) :
    (∀ s ∈ spans cs events, s.start ≤ s.stop ∧ s.stop ≤ cs.length) ∧
      (∀ before after, cs = before ++ after →
        charOffset (byteLength before) cs = before.length) ∧
      ∃ o units below,
        Outline.build defaultIgnored (spans cs events) cs = .ok o ∧
        keptSpans defaultIgnored (spans cs events) = ⟨"Document", 0, cs.length⟩ :: units ∧
        StablySorted Span.start (events.map (Event.span cs)) units ∧
        Forest.ofParts (cover cs.length (⟨.document, 0, cs.length⟩ :: units.map Span.part)) =
          .tree ⟨.document, 0, cs.length⟩ below .empty ∧
        partTree cs.length (keptSpans defaultIgnored (spans cs events)) =
          (⟨.document, 0, cs.length⟩, below) ∧
        o.nodes.nodes.Perm o.walk ∧ (o.walk.map (·.id)).Nodup ∧
        o.IsHeadedBy ⟨"Document", 0, cs.length⟩ units := by
  have hbounds := spans_bounds cs h
  have hbuild := Outline.build_of_fits defaultIgnored hbounds
  have hkinds : ∀ s ∈ keptSpans defaultIgnored (events.map (Event.span cs)),
      s.part.kind ≠ .document ∧ s.part.kind ≠ .text := fun _ => kind_ne_of_mem_keptSpans
  rw [keptSpans_spans] at hbuild ⊢
  have hdocument := part_document cs.length
  obtain ⟨hforest, hsole⟩ := partTree_document hdocument fun s hs => (hkinds s hs).1
  rw [List.map_cons, hdocument] at hforest
  rw [hdocument] at hsole
  have htree := Outline.isTiledTree_ofPartTree cs.length (partTree cs.length
    (⟨"Document", 0, cs.length⟩ :: keptSpans defaultIgnored (events.map (Event.span cs))))
  refine ⟨hbounds, ?_, _, _, _, hbuild, rfl, stablySorted_units cs events, hforest, hsole, ?_, ?_,
    Outline.isHeadedBy_ofPartTree hdocument hkinds⟩
  · rintro before after rfl
    exact charOffset_byteLength before after
  · rw [htree.walk_eq]
    exact htree.perm
  · rw [htree.walk_eq]
    exact htree.nodup

/-- Characters of two, one and three bytes. -/
def wideText : List Char := ['é', '\n', '日']

/-- Units that start or stop inside a character or past the end, not in order of their starts. -/
def strayEvents : List Event :=
  [⟨.paragraph, 1, 9⟩, ⟨.heading 7, 4, 5⟩, ⟨.emphasis, 0, 2⟩]

theorem build_spans_strayEvents :
    (∀ e ∈ strayEvents, e.start ≤ e.stop) ∧
      spans wideText strayEvents =
        [⟨"Document", 0, 3⟩, ⟨"Paragraph", 0, 3⟩, ⟨"Heading7", 2, 2⟩, ⟨"Emphasis", 0, 1⟩] ∧
      ∃ o, Outline.build defaultIgnored (spans wideText strayEvents) wideText = .ok o ∧
        o.IsHeadedBy ⟨"Document", 0, 3⟩
          [⟨"Paragraph", 0, 3⟩, ⟨"Emphasis", 0, 1⟩, ⟨"Heading7", 2, 2⟩] := by
  have hordered : ∀ e ∈ strayEvents, e.start ≤ e.stop := by decide
  have hspans : strayEvents.map (Event.span wideText) =
      [⟨"Paragraph", 0, 3⟩, ⟨"Heading7", 2, 2⟩, ⟨"Emphasis", 0, 1⟩] := by
    decide
  have hsorted : keptSpans defaultIgnored (strayEvents.map (Event.span wideText)) =
      [⟨"Paragraph", 0, 3⟩, ⟨"Emphasis", 0, 1⟩, ⟨"Heading7", 2, 2⟩] := by
    rw [keptSpans, filter_spans, hspans]
    simp [List.mergeSort, List.MergeSort.Internal.splitInTwo]
  obtain ⟨-, -, o, units, -, hbuild, hkept, -, -, -, -, -, hheaded⟩ :=
    build_spans wideText strayEvents hordered
  rw [keptSpans_spans, hsorted] at hkept
  obtain rfl := (List.cons.inj hkept).2
  exact ⟨hordered, congrArg _ hspans, o, hbuild, hheaded⟩

end SelectionLadder.Markdown
