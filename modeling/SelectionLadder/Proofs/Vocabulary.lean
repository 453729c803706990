import Mathlib.Logic.ExistsUnique
import SelectionLadder.Proofs.Kind

/-!
# The vocabulary

The kind that a tag has by the vocabulary, said without the way it is looked up, and the tags that
name another kind.

* `Kind.Names` is the rule: a heading with nothing but digits after it, a tag with any other digit,
  a tag of the list, or a tag that is in no list.
* `Kind.named` is the kind that the rule gives (`names_iff`), in terms of the parts of the normal
  form; so every tag has exactly one.
* `level?_of_isLevel` and `level?_of_not_isLevel`: digits are read as a level if they spell a number
  of eight bits.
* `Kind.names_ofTag_iff`: a tag names the kind that the rule gives, unless it is a known tag with
  something after it that starts with a digit and is no level.  That part is then passed over.
  `not_names_ofTag_h300` has such tags.
-/

namespace SelectionLadder.Kind

variable {tag stem : String} {digits rest : List Char} {k : Kind}

/-! ## The rule -/

/-- The normal form is the tag of a heading with nothing but digits after it. -/
def IsHeading (tag : String) : Prop :=
  ∃ stem ∈ headingStems, ∃ digits, (∀ d ∈ digits, d.isDigit) ∧
    normalize tag = stem.toList ++ digits

/-- The level that digits spell, limited to 1 to 6; without digits it is 1. -/
def headingLevel (digits : List Char) : Nat :=
  if digits = [] then 1 else min (max (Nat.ofDigitChars 10 digits 0) 1) 6

/-- The kind that a tag has by the vocabulary. -/
inductive Names (tag : String) : Kind → Prop where
  /-- A heading has the level that the digits at its end spell. -/
  | heading {stem : String} {digits : List Char} (hstem : stem ∈ headingStems)
      (hdigits : ∀ d ∈ digits, d.isDigit) (htag : normalize tag = stem.toList ++ digits) :
      Names tag (.heading (UInt8.ofNat (headingLevel digits)))
  /-- Any other tag with a digit is unknown. -/
  | numbered (hheading : ¬ IsHeading tag) (hdigit : ∃ c ∈ normalize tag, c.isDigit) :
      Names tag (.other tag)
  /-- A tag of the list of a kind has this kind. -/
  | listed {k : Kind} {tags : List String} (hheading : ¬ IsHeading tag)
      (hletters : ∀ c ∈ normalize tag, c.isDigit = false) (hentry : (k, tags) ∈ vocabulary)
      (hmem : String.ofList (normalize tag) ∈ tags) : Names tag k
  /-- A tag that is in no list is unknown. -/
  | unlisted (hheading : ¬ IsHeading tag) (hletters : ∀ c ∈ normalize tag, c.isDigit = false)
      (hnone : ∀ entry ∈ vocabulary, String.ofList (normalize tag) ∉ entry.2) :
      Names tag (.other tag)

/-- The kind that the rule gives a tag, by the parts of its normal form. -/
def named (tag : String) : Kind :=
  if stemOf tag ∈ headingStems ∧ (restOf tag).all Char.isDigit then
    heading (UInt8.ofNat (headingLevel (restOf tag)))
  else if restOf tag = [] then (lookUp (stemOf tag)).getD (other tag)
  else other tag

/-! ## The rule by parts -/

theorem isHeading_iff :
    IsHeading tag ↔ stemOf tag ∈ headingStems ∧ (restOf tag).all Char.isDigit := by
  rw [List.all_eq_true]
  constructor
  · rintro ⟨stem, hstem, digits, hdigits, htag⟩
    obtain ⟨hstem', hrest⟩ := stemOf_eq_and_restOf_eq_of_heading hstem hdigits htag
    rw [hstem', hrest]
    exact ⟨hstem, hdigits⟩
  · rintro ⟨hstem, hdigits⟩
    exact ⟨stemOf tag, hstem, restOf tag, hdigits, (stemOf_append_restOf tag).symm⟩

/-- A normal form has no digit if nothing is cut off. -/
theorem restOf_eq_nil_iff : restOf tag = [] ↔ ∀ c ∈ normalize tag, c.isDigit = false := by
  rw [← stemOf_append_restOf]
  constructor
  · intro hrest c hc
    rw [hrest, List.append_nil] at hc
    exact isDigit_of_mem_stemOf hc
  · intro hletters
    cases hrest : restOf tag with
    | nil => rfl
    | cons d ds =>
      have hhead : d ∈ (restOf tag).head? := by
        rw [hrest]
        rfl
      have hd : d.isDigit := isDigit_of_mem_head?_restOf hhead
      have hnot := hletters d (by rw [hrest]; exact List.mem_append_right _ List.mem_cons_self)
      rw [hnot] at hd
      cases hd

theorem stemOf_of_restOf_eq_nil (hrest : restOf tag = []) :
    String.ofList (normalize tag) = stemOf tag := by
  rw [← stemOf_append_restOf, hrest, List.append_nil, String.ofList_toList]

/-- No tag is in the lists of two kinds, so it is looked up in the list that has it. -/
theorem lookUp_eq_some_iff :
    lookUp stem = some k ↔ ∃ tags, (k, tags) ∈ vocabulary ∧ stem ∈ tags := by
  constructor
  · intro h
    obtain ⟨⟨k', tags⟩, hentry, rfl, hmem⟩ := mem_vocabulary_of_lookUp h
    exact ⟨tags, hentry, hmem⟩
  · rintro ⟨tags, hentry, hmem⟩
    have hone : ∀ entry ∈ vocabulary, ∀ stem ∈ entry.2, lookUp stem = some entry.1 := by decide
    exact hone (k, tags) hentry stem hmem

theorem lookUp_eq_none_iff : lookUp stem = none ↔ ∀ entry ∈ vocabulary, stem ∉ entry.2 := by
  rw [lookUp, Option.map_eq_none_iff, List.find?_eq_none]
  simp only [decide_eq_true_eq]

theorem names_named (tag : String) : Names tag (named tag) := by
  unfold named
  split
  · rename_i hheading
    have hdigits := List.all_eq_true.1 hheading.2
    exact .heading hheading.1 hdigits (stemOf_append_restOf tag).symm
  · rename_i hheading
    rw [← isHeading_iff] at hheading
    split
    · rename_i hrest
      have hletters := restOf_eq_nil_iff.1 hrest
      cases hk : lookUp (stemOf tag) with
      | none =>
        refine .unlisted hheading hletters ?_
        rw [stemOf_of_restOf_eq_nil hrest]
        exact lookUp_eq_none_iff.1 hk
      | some k =>
        obtain ⟨tags, hentry, hmem⟩ := lookUp_eq_some_iff.1 hk
        rw [← stemOf_of_restOf_eq_nil hrest] at hmem
        exact .listed hheading hletters hentry hmem
    · rename_i hrest
      rw [restOf_eq_nil_iff] at hrest
      exact .numbered hheading (by simpa using hrest)

theorem Names.eq_named (h : Names tag k) : k = named tag := by
  cases h with
  | heading hstem hdigits htag =>
    obtain ⟨hstem', hrest⟩ := stemOf_eq_and_restOf_eq_of_heading hstem hdigits htag
    rw [named, hstem', hrest, if_pos ⟨hstem, List.all_eq_true.2 hdigits⟩]
  | numbered hheading hdigit =>
    rw [isHeading_iff] at hheading
    have hrest : restOf tag ≠ [] := by
      intro hrest
      obtain ⟨c, hc, hdigit⟩ := hdigit
      rw [restOf_eq_nil_iff.1 hrest c hc] at hdigit
      cases hdigit
    rw [named, if_neg hheading, if_neg hrest]
  | listed hheading hletters hentry hmem =>
    rw [isHeading_iff] at hheading
    have hrest := restOf_eq_nil_iff.2 hletters
    rw [stemOf_of_restOf_eq_nil hrest] at hmem
    rw [named, if_neg hheading, if_pos hrest, lookUp_eq_some_iff.2 ⟨_, hentry, hmem⟩,
      Option.getD_some]
  | unlisted hheading hletters hnone =>
    rw [isHeading_iff] at hheading
    have hrest := restOf_eq_nil_iff.2 hletters
    rw [stemOf_of_restOf_eq_nil hrest] at hnone
    rw [named, if_neg hheading, if_pos hrest, lookUp_eq_none_iff.2 hnone, Option.getD_none]

theorem names_iff : Names tag k ↔ k = named tag :=
  ⟨Names.eq_named, fun h => h ▸ names_named tag⟩

instance (tag : String) (k : Kind) : Decidable (Names tag k) := decidable_of_iff _ names_iff.symm

/-! ## Levels -/

/-- The characters are digits and spell a number of eight bits. -/
def IsLevel (cs : List Char) : Prop :=
  cs ≠ [] ∧ cs.all Char.isDigit ∧ Nat.ofDigitChars 10 cs 0 ≤ 255

instance (cs : List Char) : Decidable (IsLevel cs) := inferInstanceAs (Decidable (_ ∧ _))

theorem level?_of_isLevel (h : IsLevel rest) : level? rest = some (Nat.ofDigitChars 10 rest 0) := by
  obtain ⟨hne, hdigits, hsmall⟩ := h
  rw [level?, if_pos ⟨hne, hdigits⟩]
  exact if_pos hsmall

theorem level?_of_not_isLevel (h : ¬ IsLevel rest) : level? rest = none := by
  by_cases hrest : rest ≠ [] ∧ rest.all Char.isDigit
  · rw [level?, if_pos hrest]
    exact if_neg fun hsmall => h ⟨hrest.1, hrest.2, hsmall⟩
  · rw [level?, if_neg hrest]

/-! ## What a tag names -/

/-- The tags of headings and of the lists, in normal form. -/
def knownTags : List String := headingStems ++ vocabulary.flatMap (·.2)

theorem mem_knownTags_iff :
    stem ∈ knownTags ↔ stem ∈ headingStems ∨ ∃ entry ∈ vocabulary, stem ∈ entry.2 := by
  rw [knownTags, List.mem_append, List.mem_flatMap]

/-- A known tag that is not one of headings is looked up in the lists. -/
theorem exists_lookUp_of_mem_knownTags (h : stem ∈ knownTags) (hheading : stem ∉ headingStems) :
    ∃ entry ∈ vocabulary, lookUp stem = some entry.1 := by
  obtain ⟨⟨k, tags⟩, hentry, hmem⟩ := (mem_knownTags_iff.1 h).resolve_left hheading
  exact ⟨(k, tags), hentry, lookUp_eq_some_iff.2 ⟨tags, hentry, hmem⟩⟩

/-- A tag whose end is a level, or that has no digit, names the kind that the rule gives. -/
theorem ofTag_eq_named_of_isLevel (h : restOf tag = [] ∨ IsLevel (restOf tag)) :
    ofTag tag = named tag := by
  rw [ofTag_eq, named]
  rcases h with hrest | hlevel
  · simp [hrest, level?, headingLevel]
  · rw [level?_of_isLevel hlevel, headingLevel, if_neg hlevel.1, if_neg hlevel.1, Option.getD_some]
    simp only [and_iff_left hlevel.2.1, Option.isSome_some, if_true]

/-- A tag whose end is no level names what its first part names. -/
theorem ofTag_of_not_isLevel (h : ¬ IsLevel (restOf tag)) :
    ofTag tag =
      if stemOf tag ∈ headingStems then heading 1 else (lookUp (stemOf tag)).getD (other tag) := by
  rw [ofTag_eq, level?_of_not_isLevel h]
  rfl

/-- The rule gives a level of six, or no kind but the tag itself, where the end is no level. -/
theorem named_of_not_isLevel (hne : restOf tag ≠ []) (h : ¬ IsLevel (restOf tag)) :
    named tag = heading 6 ∨ named tag = other tag := by
  rw [named, if_neg hne]
  split
  · rename_i hheading
    have hlarge : 255 < Nat.ofDigitChars 10 (restOf tag) 0 :=
      Nat.lt_of_not_le fun hsmall => h ⟨hne, hheading.2, hsmall⟩
    have hlevel : headingLevel (restOf tag) = 6 := by
      rw [headingLevel, if_neg hne]
      omega
    rw [hlevel]
    exact Or.inl rfl
  · exact Or.inr rfl

/-- A known tag names a kind of its own, and the same one whatever follows it that is no level. -/
theorem ofTag_of_mem_knownTags (h : stem ∈ knownTags) (tag : String) :
    ofTag stem =
      if stem ∈ headingStems then heading 1 else (lookUp stem).getD (other tag) := by
  have hparts : ∀ stem ∈ knownTags, stemOf stem = stem ∧ restOf stem = [] := by decide
  obtain ⟨hstem, hrest⟩ := hparts stem h
  have hlevel : ¬ IsLevel (restOf stem) := fun hlevel => hlevel.1 hrest
  rw [ofTag_of_not_isLevel hlevel, hstem]
  split
  · rfl
  · rename_i hheading
    obtain ⟨entry, -, hlookUp⟩ := exists_lookUp_of_mem_knownTags h hheading
    rw [hlookUp, Option.getD_some, Option.getD_some]

/-- No known tag names a heading of level 6, or a tag outside the vocabulary. -/
theorem ofTag_ne_of_mem_knownTags (h : stem ∈ knownTags) (tag : String) :
    ofTag stem ≠ heading 6 ∧ ofTag stem ≠ other tag := by
  have hkind : ofTag stem ∈ heading 1 :: vocabulary.map (·.1) := by
    rw [ofTag_of_mem_knownTags h stem]
    split
    · exact List.mem_cons_self
    · rename_i hheading
      obtain ⟨entry, hentry, hlookUp⟩ := exists_lookUp_of_mem_knownTags h hheading
      rw [hlookUp, Option.getD_some]
      exact List.mem_cons_of_mem _ (List.mem_map_of_mem hentry)
  have hne : ∀ k ∈ heading 1 :: vocabulary.map (·.1), k ≠ heading 6 ∧ k ≠ other tag := by
    simp [vocabulary]
  exact hne _ hkind

/-- What an unknown tag names does not depend on what follows it. -/
theorem ofTag_eq_named_of_not_mem_knownTags (h : stemOf tag ∉ knownTags) :
    ofTag tag = named tag := by
  rw [mem_knownTags_iff, not_or] at h
  have hlookUp : lookUp (stemOf tag) = none :=
    lookUp_eq_none_iff.2 fun entry hentry hmem => h.2 ⟨entry, hentry, hmem⟩
  have hheading : ¬ (stemOf tag ∈ headingStems ∧ (restOf tag).all Char.isDigit) :=
    fun hheading => h.1 hheading.1
  rw [ofTag_eq, named, if_neg h.1, if_neg hheading, hlookUp, Option.getD_none, ite_self, ite_self]

/-- Every tag has exactly one kind by the vocabulary.  A tag names this kind, unless it is a known
tag that is followed by a digit and what follows is no level.  Then it names the kind of the tag
before the digit. -/
theorem names_ofTag_iff (tag : String) :
    (∃! k, Names tag k) ∧
      (Names tag (ofTag tag) ↔
        (stemOf tag ∈ knownTags → restOf tag = [] ∨ IsLevel (restOf tag))) ∧
      (stemOf tag ∈ knownTags → ¬ IsLevel (restOf tag) → ofTag tag = ofTag (stemOf tag)) := by
  have hfirst (hknown : stemOf tag ∈ knownTags) (hlevel : ¬ IsLevel (restOf tag)) :
      ofTag tag = ofTag (stemOf tag) := by
    rw [ofTag_of_not_isLevel hlevel, ofTag_of_mem_knownTags hknown tag]
  refine ⟨⟨named tag, names_named tag, fun k => Names.eq_named⟩, ?_, hfirst⟩
  rw [names_iff]
  constructor
  · intro heq hknown
    by_cases hrest : restOf tag = []
    · exact Or.inl hrest
    · by_cases hlevel : IsLevel (restOf tag)
      · exact Or.inr hlevel
      · -- The rule gives level 6 or the tag itself, and a known tag alone names neither.
        obtain ⟨hsix, hother⟩ := ofTag_ne_of_mem_knownTags hknown tag
        rw [hfirst hknown hlevel] at heq
        rcases named_of_not_isLevel hrest hlevel with hnamed | hnamed
        · exact absurd (heq.trans hnamed) hsix
        · exact absurd (heq.trans hnamed) hother
  · intro hlevel
    by_cases hknown : stemOf tag ∈ knownTags
    · exact ofTag_eq_named_of_isLevel (hlevel hknown)
    · exact ofTag_eq_named_of_not_mem_knownTags hknown

/-- A list item with a number of nine bits is a list item, although no such tag is known. -/
theorem names_ofTag_iff_numberedItem :
    stemOf "list-item300" ∈ knownTags ∧ ¬ IsLevel (restOf "list-item300") ∧
      ¬ Names "list-item300" (ofTag "list-item300") ∧
      ofTag "list-item300" = ofTag (stemOf "list-item300") ∧ Names "H_2" (ofTag "H_2") := by
  have hknown : stemOf "list-item300" ∈ knownTags := by decide
  have hlevel : ¬ IsLevel (restOf "list-item300") := by decide
  obtain ⟨-, hnames, hfirst⟩ := names_ofTag_iff "list-item300"
  refine ⟨hknown, hlevel, ?_, hfirst hknown hlevel, ?_⟩
  · intro h
    exact (hnames.1 h hknown).elim (by decide) hlevel
  · exact (names_ofTag_iff "H_2").2.1.2 fun _ => Or.inr (by decide)

/-- A number of nine bits after a heading is taken for no number, as is a number with a letter after
it; and after another known tag either is passed over. -/
theorem not_names_ofTag_h300 :
    (Names "h300" (heading 6) ∧ ofTag "h300" = heading 1 ∧ ¬ Names "h300" (heading 1)) ∧
      (Names "table300" (other "table300") ∧ ofTag "table300" = table ∧
        ¬ Names "table300" table) ∧
      Names "code2b" (other "code2b") ∧ ofTag "code2b" = codeBlock ∧
        ¬ Names "code2b" codeBlock := by
  decide

end SelectionLadder.Kind
