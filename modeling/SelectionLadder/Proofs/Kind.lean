import SelectionLadder.Kind

/-!
# Kinds of tags

A tag counts by its normal form, and the normal form by two parts: what stands before its first
digit, and the rest.

* `stemOf` and `restOf` are these parts, and `stemOf_eq_and_restOf_eq` finds them in a normal form
  that is given in two parts.
* Digits are their own lower case and no separators, so they stay at the end of a normal form as
  they stand at the end of the tag (`normalize_append_digits`).
* `ofTag_of_stem`: a tag whose normal form is the tag of a heading and digits names a heading.
* `ofTag_cases`: a tag names a heading of level 1 to 6, a kind of the vocabulary, or itself.
* `ofTag_display_ofTag`: the kind that a tag names is shown as a tag of that kind, and only case and
  separators are lost on the way (`ofTag_congr`).
-/

namespace SelectionLadder

namespace Unicode

theorem lower_digit {d : Char} (h : d.isDigit) : lower d = [d] := by
  have hrange : 48 ≤ d.val.toNat ∧ d.val.toNat ≤ 57 := by
    simpa [Char.isDigit, UInt32.le_iff_toNat_le] using h
  have hsmall : d.val < 128 := by
    rw [UInt32.lt_iff_toNat_lt]
    exact Nat.lt_of_le_of_lt hrange.2 (by decide)
  have hlower : d.toLower = d := by
    refine dif_neg fun hletter => ?_
    have hcapital : 65 ≤ d.val.toNat := UInt32.le_iff_toNat_le.1 hletter.1
    omega
  rw [lower, if_pos hsmall, hlower]

theorem lowercase_digits {ds : List Char} (h : ∀ d ∈ ds, d.isDigit) : lowercase ds = ds := by
  induction ds with
  | nil => rfl
  | cons d ds ih =>
    have hrest := ih fun c hc => h c (List.mem_cons_of_mem d hc)
    rw [lowercase] at hrest ⊢
    rw [List.flatMap_cons, lower_digit (h d List.mem_cons_self), hrest, List.singleton_append]

end Unicode

namespace Kind

variable {tag tag' front stem : String} {digits rest : List Char} {k : Kind}

/-! ## The parts of a tag -/

/-- The normal form of a tag up to its first digit. -/
def stemOf (tag : String) : String := String.ofList ((normalize tag).takeWhile (! ·.isDigit))

/-- The normal form of a tag from its first digit on. -/
def restOf (tag : String) : List Char := (normalize tag).dropWhile (! ·.isDigit)

theorem stemOf_append_restOf (tag : String) :
    (stemOf tag).toList ++ restOf tag = normalize tag := by
  rw [stemOf, restOf, String.toList_ofList, List.takeWhile_append_dropWhile]

theorem isDigit_of_mem_head?_restOf {d : Char} (hd : d ∈ (restOf tag).head?) : d.isDigit := by
  have hhead := List.head?_dropWhile_not (! ·.isDigit) (normalize tag)
  rw [restOf] at hd
  rw [Option.mem_def.1 hd] at hhead
  simpa using hhead

theorem isDigit_of_mem_stemOf {c : Char} (hc : c ∈ (stemOf tag).toList) : c.isDigit = false := by
  rw [stemOf, String.toList_ofList] at hc
  simpa using List.all_eq_true.1 List.all_takeWhile c hc

/-- A normal form in two parts, of which the first has no digit and the second starts with one if it
is not empty, is cut between them. -/
theorem stemOf_eq_and_restOf_eq (htag : normalize tag = stem.toList ++ rest)
    (hstem : ∀ c ∈ stem.toList, c.isDigit = false) (hrest : ∀ d ∈ rest.head?, d.isDigit) :
    stemOf tag = stem ∧ restOf tag = rest := by
  have hletters : ∀ c ∈ stem.toList, (!c.isDigit) = true := by
    intro c hc
    rw [hstem c hc, Bool.not_false]
  have hstop : rest.takeWhile (! ·.isDigit) = [] ∧ rest.dropWhile (! ·.isDigit) = rest := by
    cases rest with
    | nil => exact ⟨rfl, rfl⟩
    | cons d ds => simp [hrest d rfl]
  rw [stemOf, restOf, htag, List.takeWhile_append_of_pos hletters,
    List.dropWhile_append_of_pos hletters, hstop.1, hstop.2, List.append_nil, String.ofList_toList]
  exact ⟨rfl, rfl⟩

/-- The kind that a tag names depends on the two parts of its normal form, and on the spelling only
where it names itself. -/
theorem ofTag_eq (tag : String) :
    ofTag tag =
      if stemOf tag ∈ headingStems then
        heading (UInt8.ofNat (min (max ((level? (restOf tag)).getD 1) 1) 6))
      else if (level? (restOf tag)).isSome then other tag
      else (lookUp (stemOf tag)).getD (other tag) := rfl

/-! ## Headings -/

/-- A normal form keeps the digits at the end of a tag. -/
theorem normalize_append_digits (hdigits : ∀ d ∈ digits, d.isDigit)
    (htag : tag.toList = front.toList ++ digits) :
    normalize tag = normalize front ++ digits := by
  have hkeep : digits.filter (fun c => c ≠ '-' ∧ c ≠ '_') = digits := by
    refine List.filter_eq_self.2 fun d hd => decide_eq_true ⟨?_, ?_⟩ <;>
    · rintro rfl
      exact absurd (hdigits _ hd) (by decide)
  rw [normalize, htag, List.filter_append, hkeep, Unicode.lowercase, List.flatMap_append,
    ← Unicode.lowercase, ← Unicode.lowercase, Unicode.lowercase_digits hdigits, normalize]

theorem isDigit_of_mem_headingStems (hstem : stem ∈ headingStems) :
    ∀ c ∈ stem.toList, c.isDigit = false := by
  have hall : ∀ stem ∈ headingStems, stem.toList.any Char.isDigit = false := by decide
  simpa using hall stem hstem

/-- A heading is cut between its tag and the digits after it. -/
theorem stemOf_eq_and_restOf_eq_of_heading (hstem : stem ∈ headingStems)
    (hdigits : ∀ d ∈ digits, d.isDigit) (htag : normalize tag = stem.toList ++ digits) :
    stemOf tag = stem ∧ restOf tag = digits :=
  stemOf_eq_and_restOf_eq htag (isDigit_of_mem_headingStems hstem)
    fun d hd => hdigits d (List.mem_of_mem_head? hd)

/-- The tag of a heading with digits after it names a heading. -/
theorem ofTag_of_stem (hstem : stem ∈ headingStems) (hdigits : ∀ d ∈ digits, d.isDigit)
    (htag : normalize tag = stem.toList ++ digits) :
    ofTag tag = heading (UInt8.ofNat (min (max ((level? digits).getD 1) 1) 6)) := by
  obtain ⟨hstem', hrest⟩ := stemOf_eq_and_restOf_eq_of_heading hstem hdigits htag
  rw [ofTag_eq, hstem', hrest, if_pos hstem]

/-! ## What a tag names -/

theorem mem_vocabulary_of_lookUp (h : lookUp stem = some k) :
    ∃ entry ∈ vocabulary, entry.1 = k ∧ stem ∈ entry.2 := by
  obtain ⟨entry, hentry, hk⟩ := Option.map_eq_some_iff.1 h
  exact ⟨entry, List.mem_of_find?_eq_some hentry, hk, by simpa using List.find?_some hentry⟩

/-- A tag names a heading, a kind of the vocabulary, or itself. -/
theorem ofTag_cases (tag : String) :
    (∃ n, 1 ≤ n ∧ n ≤ 6 ∧ ofTag tag = heading (UInt8.ofNat n)) ∨
      (∃ entry ∈ vocabulary, ofTag tag = entry.1) ∨ ofTag tag = other tag := by
  rw [ofTag_eq]
  split
  · exact Or.inl ⟨_, by omega, Nat.min_le_right _ _, rfl⟩
  · split
    · exact Or.inr (Or.inr rfl)
    · cases hk : lookUp (stemOf tag) with
      | none => exact Or.inr (Or.inr rfl)
      | some k =>
        obtain ⟨entry, hentry, rfl, -⟩ := mem_vocabulary_of_lookUp hk
        exact Or.inr (Or.inl ⟨entry, hentry, rfl⟩)

/-- A kind of the vocabulary is shown as one of its tags. -/
theorem ofTag_display_of_mem_vocabulary :
    ∀ entry ∈ vocabulary, ofTag entry.1.display = entry.1 := by
  decide

theorem ofTag_display_heading {n : Nat} (hlow : 1 ≤ n) (hhigh : n ≤ 6) :
    ofTag (heading (UInt8.ofNat n)).display = heading (UInt8.ofNat n) := by
  have hall : ∀ n, n ≤ 6 → 1 ≤ n →
      ofTag (heading (UInt8.ofNat n)).display = heading (UInt8.ofNat n) := by decide
  exact hall n hhigh hlow

/-- Tags with one normal form name one kind, or each of them names itself. -/
theorem ofTag_congr (h : normalize tag = normalize tag') :
    ofTag tag = ofTag tag' ∨ ofTag tag = other tag ∧ ofTag tag' = other tag' := by
  have hstem : stemOf tag' = stemOf tag := by rw [stemOf, stemOf, h]
  have hrest : restOf tag' = restOf tag := by rw [restOf, restOf, h]
  rw [ofTag_eq tag, ofTag_eq tag', hstem, hrest]
  split
  · exact Or.inl rfl
  · split
    · exact Or.inr ⟨rfl, rfl⟩
    · cases lookUp (stemOf tag) with
      | none => exact Or.inr ⟨rfl, rfl⟩
      | some k => exact Or.inl rfl

/-- The kind that a tag names is shown as a tag that names this kind.  Tags that differ only in case
and separators name the same kind, unless neither is known and each of them names itself. -/
theorem ofTag_display_ofTag (tag : String) :
    ofTag (ofTag tag).display = ofTag tag ∧
      ∀ tag', normalize tag = normalize tag' →
        ofTag tag = ofTag tag' ∨ ofTag tag = other tag ∧ ofTag tag' = other tag' := by
  refine ⟨?_, fun tag' => ofTag_congr⟩
  rcases ofTag_cases tag with ⟨n, hlow, hhigh, hkind⟩ | ⟨entry, hentry, hkind⟩ | hkind
  · rw [hkind, ofTag_display_heading hlow hhigh]
  · rw [hkind, ofTag_display_of_mem_vocabulary entry hentry]
  · -- An unknown tag is shown as it is.
    rw [hkind]
    exact hkind

theorem ofTag_display_ofTag_spellings :
    normalize "List-Item" = normalize "listitem" ∧
      (ofTag "List-Item" = ofTag "listitem" ∨
        ofTag "List-Item" = other "List-Item" ∧ ofTag "listitem" = other "listitem") ∧
      normalize "Side-Note" = normalize "side_note" ∧
      (ofTag "Side-Note" = ofTag "side_note" ∨
        ofTag "Side-Note" = other "Side-Note" ∧ ofTag "side_note" = other "side_note") := by
  have hknown : normalize "List-Item" = normalize "listitem" := by decide
  have hunknown : normalize "Side-Note" = normalize "side_note" := by decide
  exact ⟨hknown, (ofTag_display_ofTag "List-Item").2 "listitem" hknown,
    hunknown, (ofTag_display_ofTag "Side-Note").2 "side_note" hunknown⟩

end Kind

end SelectionLadder
