import SelectionLadder.Proofs.Outline.Provenance

/-!
# Gaps

An offset that no part claims lies in a gap, and covering puts text there.  A document part claims
nothing, and neither does the text that is put in a gap.  So a gap that was filled before a document
part is filled again before the part that comes next.

* `Part.Claims` says which offsets are not in a gap.
* `fillers_perm`: the fillers of a cover are determined by it, up to their order.
* `countP_gapsFrom` counts how often an offset is filled.  The induction is on the parts, and
  carries the cursor.
* `cover_fills_gaps`: a claimed offset lies in no filler, and any other one in exactly one, unless
  the first part that starts after it is a document.  `countP_fillers_lateDocument` is an offset
  that is filled twice.
-/

namespace SelectionLadder

/-- The offset lies in the part. -/
def Part.Holds (p : Part) (x : Nat) : Prop := p.start ≤ x ∧ x < p.stop

instance (p : Part) (x : Nat) : Decidable (p.Holds x) := inferInstanceAs (Decidable (_ ∧ _))

/-- The offset lies in the part, and is not left to the parts inside it. -/
def Part.Claims (p : Part) (x : Nat) : Prop := p.kind ≠ .document ∧ p.Holds x

instance (p : Part) (x : Nat) : Decidable (p.Claims x) := inferInstanceAs (Decidable (_ ∧ _))

/-- Of the parts that start after an offset, the document parts before any other part. -/
def documentsAfter (x : Nat) (ps : List Part) : List Part :=
  (ps.dropWhile fun p => p.start ≤ x).takeWhile fun p => p.kind = .document

variable {length cursor x : Nat} {ps fillers : List Part}

/-! ## Fillers -/

/-- The fillers of a cover are those that covering adds, in some order. -/
theorem fillers_perm (h : Shuffles ps fillers (coverFrom length cursor ps)) :
    fillers.Perm (gapsFrom length cursor ps) :=
  (List.perm_append_left_iff ps).1 (h.perm.symm.trans (shuffles_gapsFrom length cursor ps).perm)

theorem countP_textBetween (start stop x : Nat) :
    (textBetween start stop).countP (·.Holds x) = if start ≤ x ∧ x < stop then 1 else 0 := by
  unfold textBetween
  by_cases hlt : start < stop
  · rw [if_pos hlt, List.countP_singleton]
    simp only [decide_eq_true_eq]
    rfl
  · have hnot : ¬ (start ≤ x ∧ x < stop) := by omega
    simp [hlt, hnot]

/-- Nothing is filled before the cursor. -/
theorem countP_gapsFrom_of_lt (hx : x < cursor) (ps : List Part) :
    (gapsFrom length cursor ps).countP (·.Holds x) = 0 := by
  induction ps generalizing cursor with
  | nil => rw [gapsFrom, countP_textBetween, if_neg (by omega)]
  | cons p ps ih =>
    rw [gapsFrom, List.countP_append, countP_textBetween, if_neg (by omega), ih]
    split <;> omega

theorem documentsAfter_cons_of_le {p : Part} (hp : p.start ≤ x) :
    documentsAfter x (p :: ps) = documentsAfter x ps := by
  rw [documentsAfter, List.dropWhile_cons_of_pos (by simpa using hp), documentsAfter]

theorem documentsAfter_of_forall_lt (h : ∀ q ∈ ps, x < q.start) :
    documentsAfter x ps = ps.takeWhile fun p => p.kind = .document := by
  cases ps with
  | nil => rfl
  | cons p ps =>
    rw [documentsAfter, List.dropWhile_cons_of_neg (by simpa using h p List.mem_cons_self)]

/-- Parts that start after an offset do not claim it. -/
theorem not_claims_of_forall_lt (h : ∀ q ∈ ps, x < q.start) : ¬ ∃ q ∈ ps, q.Claims x := by
  rintro ⟨q, hq, -, hstart, -⟩
  exact Nat.not_le.2 (h q hq) hstart

/-- An offset that is not covered yet is filled once, and once more for each document part that
starts after it before any other part does. -/
theorem countP_gapsFrom (hsorted : ps.Pairwise fun p q => p.start ≤ q.start)
    (hfits : ∀ p ∈ ps, p.start ≤ p.stop) (hcursor : cursor ≤ x) (hx : x < length) :
    (gapsFrom length cursor ps).countP (·.Holds x) =
      if ∃ p ∈ ps, p.Claims x then 0 else 1 + (documentsAfter x ps).length := by
  induction ps generalizing cursor with
  | nil =>
    rw [gapsFrom, countP_textBetween, if_pos ⟨hcursor, hx⟩]
    simp [documentsAfter]
  | cons p ps ih =>
    obtain ⟨hfirst, hsorted⟩ := List.pairwise_cons.1 hsorted
    obtain ⟨hp, hfits⟩ := List.forall_mem_cons.1 hfits
    rw [gapsFrom, List.countP_append, countP_textBetween]
    by_cases hbefore : x < p.start
    · -- The gap before `p` reaches beyond the offset, and no part from `p` on claims it.
      have hafter : ∀ q ∈ ps, x < q.start := fun q hq => hbefore.trans_le (hfirst q hq)
      have hafter' : ∀ q ∈ p :: ps, x < q.start := List.forall_mem_cons.2 ⟨hbefore, hafter⟩
      rw [if_pos ⟨hcursor, hbefore⟩, if_neg (not_claims_of_forall_lt hafter'),
        documentsAfter_of_forall_lt hafter']
      by_cases hdocument : p.kind = .document
      · rw [if_pos hdocument, ih hsorted hfits hcursor, if_neg (not_claims_of_forall_lt hafter),
          documentsAfter_of_forall_lt hafter,
          List.takeWhile_cons_of_pos (by simpa using hdocument), List.length_cons]
        omega
      · rw [if_neg hdocument, countP_gapsFrom_of_lt (by omega),
          List.takeWhile_cons_of_neg (by simpa using hdocument), List.length_nil]
    · rw [if_neg (by omega), Nat.zero_add, documentsAfter_cons_of_le (Nat.not_lt.1 hbefore)]
      by_cases hclaims : p.Claims x
      · have hstop : x < p.stop := hclaims.2.2
        rw [if_neg hclaims.1, countP_gapsFrom_of_lt (by omega),
          if_pos ⟨p, List.mem_cons_self, hclaims⟩]
      · have hcursor' : (if p.kind = .document then cursor else max cursor p.stop) ≤ x := by
          split
          · exact hcursor
          · rename_i hdocument
            have hstop : ¬ x < p.stop := fun hlt => hclaims ⟨hdocument, by omega, hlt⟩
            omega
        rw [ih hsorted hfits hcursor']
        simp only [List.mem_cons, exists_eq_or_imp, hclaims, false_or]

/-! ## Covers of spans -/

theorem documentsAfter_eq_nil_iff :
    documentsAfter x ps = [] ↔ ∀ p ∈ ps.find? fun p => x < p.start, p.kind ≠ .document := by
  induction ps with
  | nil => simp [documentsAfter]
  | cons p ps ih =>
    by_cases hp : x < p.start
    · rw [documentsAfter, List.dropWhile_cons_of_neg (by simpa using hp),
        List.find?_cons_of_pos (by simpa using hp)]
      by_cases hdocument : p.kind = .document <;> simp [hdocument]
    · rw [documentsAfter_cons_of_le (Nat.not_lt.1 hp), List.find?_cons_of_neg (by simpa using hp),
        ih]

/-- Covering spans in order of their starts adds text only.  An offset in a span that is no document
lies in none of the fillers.  Any other offset lies in one, and in one more for each document that
starts after it before any other span does.  So it lies in exactly one if the first span that starts
after it is no document, and only then. -/
theorem cover_fills_gaps (length : Nat) (spans : List Span)
    (hsorted : spans.Pairwise fun s s' => s.start ≤ s'.start)
    (hfits : ∀ s ∈ spans, s.start ≤ s.stop ∧ s.stop ≤ length) :
    let ps := spans.map Span.part
    (∃ fillers, Shuffles ps fillers (cover length ps)) ∧
      ∀ fillers, Shuffles ps fillers (cover length ps) →
        (∀ q ∈ fillers, q.kind = .text) ∧
        ∀ x < length,
          ((∃ p ∈ ps, p.Claims x) → ∀ q ∈ fillers, ¬ q.Holds x) ∧
          ((∀ p ∈ ps, ¬ p.Claims x) →
            fillers.countP (·.Holds x) = 1 + (documentsAfter x ps).length ∧
            (fillers.countP (·.Holds x) = 1 ↔
              ∀ p ∈ ps.find? fun p => x < p.start, p.kind ≠ .document)) := by
  intro ps
  have hsorted' : ps.Pairwise fun p q => p.start ≤ q.start := List.pairwise_map.2 hsorted
  have hfits' : ∀ p ∈ ps, p.start ≤ p.stop :=
    List.forall_mem_map.2 fun s hs => (hfits s hs).1
  refine ⟨⟨_, shuffles_gapsFrom length 0 ps⟩, ?_⟩
  intro fillers hfillers
  have hperm := fillers_perm hfillers
  refine ⟨fun q hq => kind_of_mem_gapsFrom (hperm.mem_iff.1 hq), ?_⟩
  intro x hx
  have hcount := countP_gapsFrom hsorted' hfits' (Nat.zero_le x) hx
  rw [← hperm.countP_eq] at hcount
  constructor
  · intro hclaimed q hq
    rw [if_pos hclaimed, List.countP_eq_zero] at hcount
    simpa using hcount q hq
  · intro hunclaimed
    rw [if_neg (by simpa using hunclaimed)] at hcount
    refine ⟨hcount, ?_⟩
    rw [hcount, ← documentsAfter_eq_nil_iff, ← List.length_eq_zero_iff]
    omega

/-- Units that cross, and documents at the start and further inside. -/
def scatteredSpans : List Span :=
  [⟨"Document", 0, 9⟩, ⟨"Paragraph", 1, 4⟩, ⟨"Emphasis", 2, 6⟩, ⟨"Document", 7, 8⟩,
    ⟨"Document", 7, 9⟩, ⟨"Text", 8, 8⟩]

theorem cover_fills_gaps_scatteredSpans :
    ∃ fillers, Shuffles (scatteredSpans.map Span.part) fillers
        (cover 10 (scatteredSpans.map Span.part)) ∧
      fillers.countP (·.Holds 0) = 1 ∧ (∀ q ∈ fillers, ¬ q.Holds 5) ∧
      fillers.countP (·.Holds 6) = 3 ∧ fillers.countP (·.Holds 7) = 1 := by
  obtain ⟨⟨fillers, hfillers⟩, hcover⟩ :=
    cover_fills_gaps 10 scatteredSpans (by decide) (by decide)
  obtain ⟨-, hfilled⟩ := hcover fillers hfillers
  refine ⟨fillers, hfillers, ?_, ?_, ?_, ?_⟩
  · exact ((hfilled 0 (by decide)).2 (by decide +kernel)).2.2 (by decide +kernel)
  · exact (hfilled 5 (by decide)).1 (by decide +kernel)
  · exact ((hfilled 6 (by decide)).2 (by decide +kernel)).1.trans (by decide +kernel)
  · exact ((hfilled 7 (by decide)).2 (by decide +kernel)).2.2 (by decide +kernel)

/-- A document that starts after the text does. -/
def lateDocument : List Span := [⟨"Document", 2, 5⟩]

/-- The text before the document is filled before it and again after it. -/
theorem countP_fillers_lateDocument :
    lateDocument.Pairwise (fun s s' => s.start ≤ s'.start) ∧
      (∀ s ∈ lateDocument, s.start ≤ s.stop ∧ s.stop ≤ 5) ∧
      (∀ p ∈ lateDocument.map Span.part, ¬ p.Claims 0) ∧
      (∃ fillers, Shuffles (lateDocument.map Span.part) fillers
        (cover 5 (lateDocument.map Span.part))) ∧
      ∀ fillers, Shuffles (lateDocument.map Span.part) fillers
        (cover 5 (lateDocument.map Span.part)) → fillers.countP (·.Holds 0) = 2 := by
  refine ⟨by decide, by decide, by decide, ⟨_, shuffles_gapsFrom 5 0 _⟩, ?_⟩
  intro fillers hfillers
  rw [(fillers_perm hfillers).countP_eq]
  decide +kernel

end SelectionLadder
