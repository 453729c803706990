import SelectionLadder.Proofs.Except
import SelectionLadder.Proofs.Json.Grammar

/-!
# Records

When an object is taken for a record with two fields, and what the record then holds.

The members of an object are taken one after the other, and what has been found is kept.  What
matters in the end is only which values stand under the two names (`valuesUnder`): at most one
under each, which has to be what was asked for (`Takes`).  `asRecord_eq_ok_iff` says that this, and
that the other members have names and can be passed over, is all there is to it.

Two cases follow from it.  An object that `Lists` some of the fields, in any order and among members
with other names, gives back the values of both (`Lists.exists_asRecord`): what is left out has its
default.  An object that `Repeats` a field is no record (`asRecord_ne_ok_of_repeats`).
-/

namespace SelectionLadder.Json.Reading

variable {α β : Type} {name name₁ name₂ : String} {f : Reading → Except Fault α}
  {f₁ : Reading → Except Fault α} {f₂ : Reading → Except Fault β} {x y : Option α}
  {r : Reading} {rs : List Reading} {m : Option String × Reading}
  {members : List (Option String × Reading)}

/-- The values of the members with this name. -/
def valuesUnder (name : String) (members : List (Option String × Reading)) : List Reading :=
  (members.filter (·.1 = some name)).map (·.2)

@[simp] theorem valuesUnder_nil (name : String) : valuesUnder name [] = [] := rfl

theorem valuesUnder_cons_of_eq (h : m.1 = some name) :
    valuesUnder name (m :: members) = m.2 :: valuesUnder name members := by
  simp [valuesUnder, h]

theorem valuesUnder_cons_of_ne (h : m.1 ≠ some name) :
    valuesUnder name (m :: members) = valuesUnder name members := by
  simp [valuesUnder, h]

/-- A value under a name is the value of a member. -/
theorem exists_mem_of_mem_valuesUnder (h : r ∈ valuesUnder name members) :
    ∃ m ∈ members, m.2 = r := by
  obtain ⟨m, hm, rfl⟩ := List.mem_map.1 h
  exact ⟨m, (List.mem_filter.1 hm).1, rfl⟩

/-- Of two members with different names, each has its own value. -/
theorem valuesUnder_pair (hne : name₁ ≠ name₂) (r₁ r₂ : Reading) :
    valuesUnder name₁ [(some name₁, r₁), (some name₂, r₂)] = [r₁] ∧
      valuesUnder name₂ [(some name₁, r₁), (some name₂, r₂)] = [r₂] := by
  constructor
  · simp [valuesUnder, hne.symm]
  · simp [valuesUnder, hne]

/-! ## One field -/

/-- What is found for a field, before and after its values.  There may be no value, or one if
nothing was found before. -/
inductive Takes (f : Reading → Except Fault α) : Option α → List Reading → Option α → Prop where
  | absent (x : Option α) : Takes f x [] x
  | present {r : Reading} {a : α} (h : f r = .ok a) : Takes f none [r] (some a)

@[simp] theorem takes_nil : Takes f x [] y ↔ x = y := by
  constructor
  · rintro ⟨⟩
    rfl
  · rintro rfl
    exact .absent x

theorem takes_cons :
    Takes f x (r :: rs) y ↔ x = none ∧ ∃ a, f r = .ok a ∧ Takes f (some a) rs y := by
  constructor
  · rintro (_ | h)
    exact ⟨rfl, _, h, .absent _⟩
  · rintro ⟨rfl, a, h, ⟨⟩⟩
    exact .present h

theorem Takes.length_le_one (h : Takes f x rs y) : rs.length ≤ 1 := by
  cases h with
  | absent => exact Nat.zero_le 1
  | present _ => exact Nat.le_refl 1

/-- All values of a field are what was asked for. -/
theorem Takes.exists_eq_ok (h : Takes f x rs y) (hr : r ∈ rs) : ∃ a, f r = .ok a := by
  cases h with
  | absent => exact absurd hr List.not_mem_nil
  | present h => exact ⟨_, List.mem_singleton.1 hr ▸ h⟩

/-- If a field has one value at most and this is what was asked for, the field is found or left out.
Where nothing was found, a default stands in. -/
theorem exists_takes {a default : α} (hok : ∀ r ∈ rs, f r = .ok a) (honce : rs.length ≤ 1)
    (hleft : rs = [] → a = default) : ∃ x, Takes f none rs x ∧ x.getD default = a := by
  cases rs with
  | nil => exact ⟨none, .absent none, (hleft rfl).symm⟩
  | cons r rs =>
    obtain rfl : rs = [] := List.eq_nil_of_length_eq_zero (by simpa using honce)
    exact ⟨some a, .present (hok r List.mem_cons_self), rfl⟩

/-! ## Both fields -/

/-- The member has a name, and its value can be passed over if the name is that of no field. -/
def Passes (name₁ name₂ : String) (m : Option String × Reading) : Prop :=
  ∃ name, m.1 = some name ∧ (name ≠ name₁ → name ≠ name₂ → m.2.skip = .ok ())

section Members

variable {found found' : Option α × Option β}

theorem Passes.of_eq (h : m.1 = some name₁ ∨ m.1 = some name₂) : Passes name₁ name₂ m := by
  obtain h | h := h
  · exact ⟨name₁, h, fun hne => absurd rfl hne⟩
  · exact ⟨name₂, h, fun _ hne => absurd rfl hne⟩

/-- A member with the first name fills the first field, which has to be empty. -/
theorem recordMember_first (h : m.1 = some name₁) :
    recordMember name₁ f₁ name₂ f₂ found m = .ok found' ↔
      found.1 = none ∧ ∃ a, f₁ m.2 = .ok a ∧ (some a, found.2) = found' := by
  obtain ⟨x, y⟩ := found
  cases x <;> simp [recordMember, h, Except.map_eq_ok]

/-- A member with the second name fills the second field, which has to be empty. -/
theorem recordMember_second (hne : name₁ ≠ name₂) (h : m.1 = some name₂) :
    recordMember name₁ f₁ name₂ f₂ found m = .ok found' ↔
      found.2 = none ∧ ∃ b, f₂ m.2 = .ok b ∧ (found.1, some b) = found' := by
  obtain ⟨x, y⟩ := found
  cases y <;> simp [recordMember, h, hne.symm, Except.map_eq_ok]

/-- Any other member changes nothing. -/
theorem recordMember_other (h₁ : m.1 ≠ some name₁) (h₂ : m.1 ≠ some name₂) :
    recordMember name₁ f₁ name₂ f₂ found m = .ok found' ↔
      Passes name₁ name₂ m ∧ found = found' := by
  obtain ⟨name, value⟩ := m
  cases name with
  | none => simp [recordMember, Passes]
  | some name =>
    have hne₁ : name ≠ name₁ := fun h => h₁ (congrArg some h)
    have hne₂ : name ≠ name₂ := fun h => h₂ (congrArg some h)
    have hskip : (∃ u, value.skip = .ok u) ↔ value.skip = .ok () :=
      ⟨fun ⟨_, h⟩ => h, fun h => ⟨(), h⟩⟩
    simp [recordMember, Passes, hne₁, hne₂, Except.map_eq_ok, hskip]

/-- What the members of a record do: by induction on the members, from any fields that have been
found before. -/
theorem foldlM_recordMember_eq_ok (hne : name₁ ≠ name₂) :
    members.foldlM (recordMember name₁ f₁ name₂ f₂) found = .ok found' ↔
      Takes f₁ found.1 (valuesUnder name₁ members) found'.1 ∧
        Takes f₂ found.2 (valuesUnder name₂ members) found'.2 ∧
        ∀ m ∈ members, Passes name₁ name₂ m := by
  induction members generalizing found with
  | nil =>
    obtain ⟨x, y⟩ := found
    obtain ⟨x', y'⟩ := found'
    simp [pure, Except.pure]
  | cons m members ih =>
    rw [List.foldlM_cons, Except.bind_eq_ok, List.forall_mem_cons]
    by_cases h₁ : m.1 = some name₁
    · have h₂ : m.1 ≠ some name₂ := by
        rw [h₁]
        exact fun h => hne (Option.some.inj h)
      rw [valuesUnder_cons_of_eq h₁, valuesUnder_cons_of_ne h₂, takes_cons]
      constructor
      · rintro ⟨next, hnext, hrest⟩
        obtain ⟨hnone, a, ha, rfl⟩ := (recordMember_first h₁).1 hnext
        obtain ⟨hfirst, hsecond, hpasses⟩ := ih.1 hrest
        exact ⟨⟨hnone, a, ha, hfirst⟩, hsecond, .of_eq (.inl h₁), hpasses⟩
      · rintro ⟨⟨hnone, a, ha, hfirst⟩, hsecond, -, hpasses⟩
        exact ⟨_, (recordMember_first h₁).2 ⟨hnone, a, ha, rfl⟩, ih.2 ⟨hfirst, hsecond, hpasses⟩⟩
    · rw [valuesUnder_cons_of_ne h₁]
      by_cases h₂ : m.1 = some name₂
      · rw [valuesUnder_cons_of_eq h₂, takes_cons]
        constructor
        · rintro ⟨next, hnext, hrest⟩
          obtain ⟨hnone, b, hb, rfl⟩ := (recordMember_second hne h₂).1 hnext
          obtain ⟨hfirst, hsecond, hpasses⟩ := ih.1 hrest
          exact ⟨hfirst, ⟨hnone, b, hb, hsecond⟩, .of_eq (.inr h₂), hpasses⟩
        · rintro ⟨hfirst, ⟨hnone, b, hb, hsecond⟩, -, hpasses⟩
          exact ⟨_, (recordMember_second hne h₂).2 ⟨hnone, b, hb, rfl⟩,
            ih.2 ⟨hfirst, hsecond, hpasses⟩⟩
      · rw [valuesUnder_cons_of_ne h₂]
        constructor
        · rintro ⟨next, hnext, hrest⟩
          obtain ⟨hm, rfl⟩ := (recordMember_other h₁ h₂).1 hnext
          obtain ⟨hfirst, hsecond, hpasses⟩ := ih.1 hrest
          exact ⟨hfirst, hsecond, hm, hpasses⟩
        · rintro ⟨hfirst, hsecond, hm, hpasses⟩
          exact ⟨_, (recordMember_other h₁ h₂).2 ⟨hm, rfl⟩, ih.2 ⟨hfirst, hsecond, hpasses⟩⟩

/-- An object is a record exactly if each of the two names has at most one value, which is what was
asked for, and the other members can be passed over.  The record holds these values. -/
theorem asRecord_eq_ok_iff (hne : name₁ ≠ name₂) :
    (object members none).asRecord name₁ f₁ name₂ f₂ = .ok found ↔
      Takes f₁ none (valuesUnder name₁ members) found.1 ∧
        Takes f₂ none (valuesUnder name₂ members) found.2 ∧
        ∀ m ∈ members, Passes name₁ name₂ m := by
  rw [asRecord, Except.bind_eq_ok]
  constructor
  · rintro ⟨found', hfound, ⟨⟩⟩
    exact (foldlM_recordMember_eq_ok hne).1 hfound
  · intro hfields
    exact ⟨found, (foldlM_recordMember_eq_ok hne).2 hfields, rfl⟩

end Members

/-! ## Some of the fields -/

/-- The reading is that of a value, but the members of an object may be in another order. -/
inductive Encodes : Reading → Json → Prop where
  | same (j : Json) : Encodes (.ofJson j) j
  | reordered {members : List (String × Json)} {ms : List (Option String × Reading)}
    (h : ms.Perm (ofMembers members)) : Encodes (.object ms none) (.object members)

/-- A field of a record. -/
structure Field where
  name : String
  /-- The reading holds the value that the field has. -/
  Holds : Reading → Prop
  /-- The value that the field has is the default. -/
  IsDefault : Prop

/-- The members list some of the fields: each at most once, with its value, and every one whose
value is not the default.  There may be members with any other names and any values. -/
structure Lists (fields : List Field) (members : List (Option String × Reading)) : Prop where
  /-- Names are strings of characters: their surrogates are in pairs. -/
  named : ∀ m ∈ members, m.1.isSome
  once : ∀ f ∈ fields, (valuesUnder f.name members).length ≤ 1
  listed : ∀ f ∈ fields, ∀ r ∈ valuesUnder f.name members, f.Holds r
  leftOut : ∀ f ∈ fields, valuesUnder f.name members = [] → f.IsDefault

/-- The reading is an object that lists some of the fields. -/
def ListsSome (fields : List Field) (r : Reading) : Prop :=
  ∃ members, r = .object members none ∧ Lists fields members

/-- The reading is an object that has two members with one of these names. -/
def Repeats (names : List String) (r : Reading) : Prop :=
  ∃ members, r = .object members none ∧ ∃ name ∈ names, 1 < (valuesUnder name members).length

/-- Two members list both fields. -/
theorem Lists.pair {F₁ F₂ : Field} {r₁ r₂ : Reading} (hne : F₁.name ≠ F₂.name)
    (h₁ : F₁.Holds r₁) (h₂ : F₂.Holds r₂) :
    Lists [F₁, F₂] [(some F₁.name, r₁), (some F₂.name, r₂)] := by
  obtain ⟨hfirst, hsecond⟩ := valuesUnder_pair hne r₁ r₂
  refine ⟨by simp, ?_, ?_, ?_⟩
  · simp [hfirst, hsecond]
  · simpa [hfirst, hsecond] using ⟨h₁, h₂⟩
  · simp [hfirst, hsecond]

/-- A record gives back the values of two fields of which some are listed, if their readings give
them back. -/
theorem Lists.exists_asRecord {name₁ name₂ : String} {Holds₁ Holds₂ : Reading → Prop}
    {IsDefault₁ IsDefault₂ : Prop} {f₁ : Reading → Except Fault α} {f₂ : Reading → Except Fault β}
    {a d₁ : α} {b d₂ : β}
    (h : Lists [⟨name₁, Holds₁, IsDefault₁⟩, ⟨name₂, Holds₂, IsDefault₂⟩] members)
    (hwhole : ∀ m ∈ members, m.2.IsWhole) (hne : name₁ ≠ name₂)
    (h₁ : ∀ r : Reading, r.IsWhole → Holds₁ r → f₁ r = .ok a) (hd₁ : IsDefault₁ → a = d₁)
    (h₂ : ∀ r : Reading, r.IsWhole → Holds₂ r → f₂ r = .ok b) (hd₂ : IsDefault₂ → b = d₂) :
    ∃ x y, (object members none).asRecord name₁ f₁ name₂ f₂ = .ok (x, y) ∧
      x.getD d₁ = a ∧ y.getD d₂ = b := by
  have hunder : ∀ name, ∀ r ∈ valuesUnder name members, r.IsWhole := by
    intro name r hr
    obtain ⟨m, hm, rfl⟩ := exists_mem_of_mem_valuesUnder hr
    exact hwhole m hm
  obtain ⟨⟨honce₁, honce₂⟩, ⟨hlisted₁, hlisted₂⟩, hleft₁, hleft₂⟩ :
      ((valuesUnder name₁ members).length ≤ 1 ∧ (valuesUnder name₂ members).length ≤ 1) ∧
        ((∀ r ∈ valuesUnder name₁ members, Holds₁ r) ∧
          ∀ r ∈ valuesUnder name₂ members, Holds₂ r) ∧
        (valuesUnder name₁ members = [] → IsDefault₁) ∧
        (valuesUnder name₂ members = [] → IsDefault₂) := by
    simpa using And.intro h.once (And.intro h.listed h.leftOut)
  obtain ⟨x, hx, ha⟩ : ∃ x, Takes f₁ none (valuesUnder name₁ members) x ∧ x.getD d₁ = a :=
    exists_takes (fun r hr => h₁ r (hunder _ r hr) (hlisted₁ r hr)) honce₁
      fun hnone => hd₁ (hleft₁ hnone)
  obtain ⟨y, hy, hb⟩ : ∃ y, Takes f₂ none (valuesUnder name₂ members) y ∧ y.getD d₂ = b :=
    exists_takes (fun r hr => h₂ r (hunder _ r hr) (hlisted₂ r hr)) honce₂
      fun hnone => hd₂ (hleft₂ hnone)
  have hpasses : ∀ m ∈ members, Passes name₁ name₂ m := by
    intro m hm
    obtain ⟨name, hname⟩ := Option.isSome_iff_exists.1 (h.named m hm)
    exact ⟨name, hname, fun _ _ => (hwhole m hm).skip_eq_ok⟩
  exact ⟨x, y, (asRecord_eq_ok_iff hne).2 ⟨hx, hy, hpasses⟩, ha, hb⟩

/-- An object that has a field twice is no record. -/
theorem asRecord_ne_ok_of_repeats {name₁ name₂ : String} {f₁ : Reading → Except Fault α}
    {f₂ : Reading → Except Fault β} {r : Reading} (hne : name₁ ≠ name₂)
    (h : r.Repeats [name₁, name₂]) (found : Option α × Option β) :
    r.asRecord name₁ f₁ name₂ f₂ ≠ .ok found := by
  obtain ⟨members, rfl, name, hname, htwice⟩ := h
  rw [Ne, asRecord_eq_ok_iff hne]
  rintro ⟨hfirst, hsecond, -⟩
  obtain rfl | rfl : name = name₁ ∨ name = name₂ := by simpa using hname
  · exact absurd hfirst.length_le_one (by omega)
  · exact absurd hsecond.length_le_one (by omega)

end SelectionLadder.Json.Reading
