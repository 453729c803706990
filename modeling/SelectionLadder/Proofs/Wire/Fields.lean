import SelectionLadder.Proofs.Json.Values
import SelectionLadder.Proofs.Outline.Tree
import SelectionLadder.Proofs.Wire.Decoding

/-!
# What sent values carry

A record can be sent in more forms than the one that it is written in: its fields may come in any
order and among others, or as an array.  A choice without a value may come with null.

* `Carries` says that a JSON value carries the fields of a record.  As far as the names of members
  differ, these are the values that a record is read from (`record_of_carries`,
  `carries_of_record`).
* `choice_eq_ok_iff`, `natural_eq_ok_iff` and the like say from which values the other parts are
  read.
* `RoundTrips` puts together what this module is for: that what is written for a value is one of its
  forms, and that exactly its forms decode to it.
-/

namespace SelectionLadder

namespace Wire

variable {j : Json} {name text : String} {value : Option Json}

/-! ## Scalars and choices -/

theorem string_eq_ok_iff : string j = .ok text ↔ j = .string text := by
  cases j <;> simp [string]

theorem value_eq_ok_iff : Wire.value value = .ok j ↔ value = some j := by
  cases value <;> simp [Wire.value]

theorem noValue_eq_ok_iff {u : Unit} :
    noValue value = .ok u ↔ value = none ∨ value = some .null := by
  unfold noValue
  split <;> simp_all

/-- The form of a choice: its name, or an object whose only member has the name and the value. -/
def named (name : String) : Option Json → Json
  | none => .string name
  | some j => .object [(name, j)]

theorem choice_eq_ok_iff : choice j = .ok (name, value) ↔ j = named name value := by
  constructor
  · intro h
    unfold choice at h
    split at h
    · obtain ⟨rfl, rfl⟩ := Prod.mk.inj (Except.ok.inj h)
      rfl
    · obtain ⟨rfl, rfl⟩ := Prod.mk.inj (Except.ok.inj h)
      rfl
    · cases h
  · intro h
    cases value with
    | none =>
      rw [h]
      rfl
    | some j =>
      rw [h]
      rfl

/-- What a choice has as its value is proper if the choice is. -/
theorem isProper_named_iff : (named name (some j)).IsProper ↔ j.IsProper := by
  constructor
  · intro h
    cases h with
    | object _ hmembers => exact hmembers (name, j) List.mem_cons_self
  · intro h
    exact .object (by simp) (by simpa using h)

/-- The forms of a choice without a value: its name, or an object with null under the name. -/
inductive NamedAlone (name : String) : Json → Prop where
  | name : NamedAlone name (.string name)
  | null : NamedAlone name (.object [(name, .null)])

theorem namedAlone_of_noValue {u : Unit} (h : noValue value = .ok u) :
    NamedAlone name (named name value) := by
  rcases noValue_eq_ok_iff.1 h with rfl | rfl
  · exact .name
  · exact .null

/-! ## Records -/

variable {fields : List (String × Json)}

/-- The value carries these fields.  It is an object that has them, in any order and among any
members with other names, or an array of what they hold. -/
inductive Carries (fields : List (String × Json)) : Json → Prop where
  | object {members others : List (String × Json)} (hperm : members.Perm (fields ++ others))
    (hothers : ∀ m ∈ others, m.1 ∉ fields.map (·.1)) : Carries fields (.object members)
  | array : Carries fields (.array (fields.map (·.2)))

theorem carries_self (fields : List (String × Json)) : Carries fields (.object fields) := by
  have hperm : fields.Perm (fields ++ []) := by simp
  exact .object hperm (by simp)

/-- Each field is found under its name. -/
theorem lookup_of_perm {members others : List (String × Json)}
    (hperm : members.Perm (fields ++ others)) (hothers : ∀ m ∈ others, m.1 ∉ fields.map (·.1))
    (hnames : (fields.map (·.1)).Nodup) {f : String × Json} (hf : f ∈ fields) :
    members.lookup f.1 = some f.2 := by
  refine lookup_eq_some_of_mem (hperm.mem_iff.2 (List.mem_append_left _ hf)) ?_
  intro other hother
  rcases List.mem_append.1 (hperm.mem_iff.1 hother) with hfield | hunknown
  · exact congrArg Prod.snd (List.inj_on_of_nodup_map hnames hfield hf rfl)
  · exact absurd (List.mem_map_of_mem hf) (hothers (f.1, other) hunknown)

/-- Where the names of members differ, an object carries the fields that are found in it. -/
theorem carries_object {members : List (String × Json)} (hmembers : (members.map (·.1)).Nodup)
    (hnames : (fields.map (·.1)).Nodup)
    (hfields : ∀ f ∈ fields, members.lookup f.1 = some f.2) : Carries fields (.object members) := by
  have hstored : ∀ f ∈ fields, f ∈ members := fun f hf => mem_of_lookup_eq_some (hfields f hf)
  have hothers : ∀ m ∈ members.filter (·.1 ∉ fields.map (·.1)), m.1 ∉ fields.map (·.1) := by
    intro m hm
    simpa using (List.mem_filter.1 hm).2
  have hnodup : (fields ++ members.filter (·.1 ∉ fields.map (·.1))).Nodup := by
    refine List.nodup_append.2 ⟨.of_map _ hnames, (List.Nodup.of_map _ hmembers).filter _, ?_⟩
    intro f hf m hm heq
    exact hothers m hm (heq ▸ List.mem_map_of_mem hf)
  refine .object ((List.perm_ext_iff_of_nodup (.of_map _ hmembers) hnodup).2 ?_) hothers
  intro m
  rw [List.mem_append, List.mem_filter, decide_eq_true_eq]
  constructor
  · intro hm
    by_cases hname : m.1 ∈ fields.map (·.1)
    · obtain ⟨f, hf, heq⟩ := List.mem_map.1 hname
      left
      rwa [← List.inj_on_of_nodup_map hmembers (hstored f hf) hm heq]
    · exact Or.inr ⟨hm, hname⟩
  · intro hm
    rcases hm with hfield | hother
    · exact hstored m hfield
    · exact hother.1

theorem record_of_carries (hnames : (fields.map (·.1)).Nodup) (h : Carries fields j) :
    record (fields.map fun f => ⟨f.1, none⟩) j = .ok (fields.map (·.2)) := by
  cases h with
  | object hperm hothers =>
    rw [record, Except.mapM_eq_ok, List.forall₂_map_left_iff, List.forall₂_map_right_iff,
      List.forall₂_same]
    intro f hf
    simp [lookup_of_perm hperm hothers hnames hf]
  | array => simp [record]

/-- A record is read from the values that carry its fields. -/
theorem carries_of_record (hnames : (fields.map (·.1)).Nodup) (hproper : j.IsProper)
    (h : record (fields.map fun f => ⟨f.1, none⟩) j = .ok (fields.map (·.2))) :
    Carries fields j := by
  unfold record at h
  split at h
  · split at h
    · rw [Except.ok.inj h]
      exact .array
    · cases h
  · cases hproper with
    | object hmembers _ =>
      refine carries_object hmembers hnames ?_
      rw [Except.mapM_eq_ok, List.forall₂_map_left_iff, List.forall₂_map_right_iff,
        List.forall₂_same] at h
      intro f hf
      have hfound := h f hf
      simp only [Option.or_none] at hfound
      split at hfound
      · rename_i v hv
        rw [hv, Except.ok.inj hfound]
      · cases hfound
  · cases h

/-- What a proper value carries is proper. -/
theorem Carries.isProper (h : Carries fields j) (hproper : j.IsProper) {f : String × Json}
    (hf : f ∈ fields) : f.2.IsProper := by
  cases h with
  | object hperm _ =>
    cases hproper with
    | object _ hmembers => exact hmembers f (hperm.mem_iff.2 (List.mem_append_left _ hf))
  | array =>
    cases hproper with
    | array hitems => exact hitems _ (List.mem_map_of_mem hf)

/-! ## Forms of a type -/

/-- The text of a proper value is read as the value. -/
theorem ofText_of_isProper (h : j.IsProper) :
    Json.ofText? (String.ofList j.compact) = some j ∧ Json.ofText? j.pretty = some j :=
  ⟨Json.ofText?_compact h, Json.ofText?_pretty h⟩

/-- Values of a type are written by `encode` and read by `decode`, and `SentAs` says which forms
they have.  `IsEncodable` says which values fit into the words that are sent. -/
structure RoundTrips {α : Type} (encode : α → Json) (decode : Json → Except Error α)
    (IsEncodable : α → Prop) (SentAs : α → Json → Prop) : Prop where
  /-- What is written for a value is one of its forms. -/
  sentAs_encode : ∀ v, SentAs v (encode v)
  /-- Its text is read as what was written, in either layout. -/
  ofText_encode : ∀ v, IsEncodable v →
    Json.ofText? (String.ofList (encode v).compact) = some (encode v) ∧
      Json.ofText? (encode v).pretty = some (encode v)
  /-- Every form of a value decodes to it. -/
  decode_of_sentAs : ∀ v j, IsEncodable v → SentAs v j → decode j = .ok v
  /-- Nothing else that a text can give decodes to it. -/
  sentAs_of_decode : ∀ v j, j.IsProper → decode j = .ok v → IsEncodable v ∧ SentAs v j

end Wire

end SelectionLadder
