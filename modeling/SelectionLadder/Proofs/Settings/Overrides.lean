import Mathlib.Data.List.Permutation
import SelectionLadder.Proofs.Json.Records
import SelectionLadder.Proofs.Json.Values
import SelectionLadder.Settings.Document

/-!
# Documents that name only what they change

A document need not name all settings.  What it leaves out has its default, what it names has the
value that is given, and whatever else stands in it changes nothing.  Naming a setting twice is an
error.

* `PartialReading` says what it means to give some of the settings: an object lists some of its
  fields, and those of its sub-objects are again partial.  Each kind of settings gives back what it
  stands for (`ofReading_of_partial`).
* `Settings.NamesTwice` says that one of the objects repeats a field, and then nothing is given back
  (`Settings.ofReading_ne_ok_of_namesTwice`).
* `Settings.ofText_of_partial` puts this together with what texts are read as, so it holds of every
  JSON text: of any white space and escapes, and of unknown members of any size and depth.
-/

namespace SelectionLadder

open Json (Reading Writes)
open Json.Reading (valuesUnder)

/-! ## Partial settings -/

/-- The reading gives these word settings, and need not name what is the default. -/
def WordSettings.PartialReading (s : WordSettings) : Reading → Prop :=
  Reading.ListsSome
    [{ name := "enabled"
       Holds := (·.Encodes (.bool s.enabled))
       IsDefault := s.enabled = true },
     { name := "rule"
       Holds := (·.Encodes ((s.rule.map WordRule.toJson).getD .null))
       IsDefault := s.rule = none }]

/-- The reading gives these structure settings, and need not name what is the default. -/
def StructureSettings.PartialReading (s : StructureSettings) : Reading → Prop :=
  Reading.ListsSome
    [{ name := "enabled"
       Holds := (·.Encodes (.bool s.enabled))
       IsDefault := s.enabled = true },
     { name := "ignored_kinds"
       Holds := (·.Encodes (.array (s.ignoredKinds.map Json.string)))
       IsDefault := s.ignoredKinds = ["formatting", "hmd-list-indent"] }]

/-- The reading gives these settings, and need not name what is the default, in any of its
objects. -/
def Settings.PartialReading (s : Settings) : Reading → Prop :=
  Reading.ListsSome
    [{ name := "word"
       Holds := s.word.PartialReading
       IsDefault := s.word = { enabled := true, rule := none } },
     { name := "structure"
       Holds := s.structural.PartialReading
       IsDefault := s.structural =
        { enabled := true, ignoredKinds := ["formatting", "hmd-list-indent"] } }]

/-- The settings, the word settings or the structure settings name a field twice. -/
inductive Settings.NamesTwice : Reading → Prop where
  | settings {r : Reading} (h : r.Repeats ["word", "structure"]) : NamesTwice r
  | word {members : List (Option String × Reading)} {r : Reading}
    (hr : r ∈ valuesUnder "word" members) (h : r.Repeats ["enabled", "rule"]) :
    NamesTwice (.object members none)
  | structural {members : List (Option String × Reading)} {r : Reading}
    (hr : r ∈ valuesUnder "structure" members) (h : r.Repeats ["enabled", "ignored_kinds"]) :
    NamesTwice (.object members none)

/-! ## Reading partial settings -/

section Settings

variable {r : Reading}

theorem mapM_asString_ofItems (tags : List String) :
    (Reading.ofItems (tags.map Json.string)).mapM Reading.asString = .ok tags := by
  rw [Except.mapM_eq_ok]
  induction tags with
  | nil => exact .nil
  | cons tag tags ih => exact .cons rfl ih

theorem asBool_of_encodes {b : Bool} (h : r.Encodes (.bool b)) : r.asBool = .ok b := by
  cases h
  rfl

theorem asStrings_of_encodes {tags : List String} (h : r.Encodes (.array (tags.map Json.string))) :
    r.asList Reading.asString = .ok tags := by
  cases h
  rw [Reading.ofJson, Reading.asList, mapM_asString_ofItems]
  rfl

/-- The members of a rule may stand in any order. -/
theorem WordRule.ofReadingOrNull_of_encodes {rule : Option WordRule}
    (h : r.Encodes ((rule.map WordRule.toJson).getD .null)) :
    WordRule.ofReadingOrNull r = .ok rule := by
  cases rule with
  | none =>
    cases h
    rfl
  | some rule =>
    cases rule with
    | ascii | unicode =>
      cases h with
      | same => rfl
      | reordered hperm =>
        rw [List.perm_singleton.1 hperm]
        rfl
    | pattern description =>
      cases h with
      | same => rfl
      | reordered hperm => obtain rfl | rfl := List.perm_pair.1 hperm <;> rfl

theorem WordSettings.ofReading_of_partial {s : WordSettings} (hwhole : r.IsWhole)
    (h : s.PartialReading r) : WordSettings.ofReading r = .ok s := by
  obtain ⟨members, rfl, hlists⟩ := h
  obtain ⟨x, y, hrecord, hx, hy⟩ : ∃ x y, (Reading.object members none).asRecord "enabled"
      Reading.asBool "rule" WordRule.ofReadingOrNull = .ok (x, y) ∧
        x.getD true = s.enabled ∧ y.getD none = s.rule :=
    hlists.exists_asRecord hwhole.members (by decide) (fun _ _ => asBool_of_encodes) id
      (fun _ _ => WordRule.ofReadingOrNull_of_encodes) id
  rw [ofReading, hrecord, Except.bind_eq_ok]
  refine ⟨(x, y), rfl, ?_⟩
  show Except.ok (⟨x.getD true, y.getD none⟩ : WordSettings) = .ok s
  rw [hx, hy]

theorem StructureSettings.ofReading_of_partial {s : StructureSettings} (hwhole : r.IsWhole)
    (h : s.PartialReading r) : StructureSettings.ofReading r = .ok s := by
  obtain ⟨members, rfl, hlists⟩ := h
  obtain ⟨x, y, hrecord, hx, hy⟩ : ∃ x y, (Reading.object members none).asRecord "enabled"
      Reading.asBool "ignored_kinds" (Reading.asList Reading.asString) = .ok (x, y) ∧
        x.getD true = s.enabled ∧ y.getD defaultIgnored = s.ignoredKinds :=
    hlists.exists_asRecord hwhole.members (by decide) (fun _ _ => asBool_of_encodes) id
      (fun _ _ => asStrings_of_encodes) id
  rw [ofReading, hrecord, Except.bind_eq_ok]
  refine ⟨(x, y), rfl, ?_⟩
  show Except.ok (⟨x.getD true, y.getD defaultIgnored⟩ : StructureSettings) = .ok s
  rw [hx, hy]

theorem Settings.ofReading_of_partial {s : Settings} (hwhole : r.IsWhole)
    (h : s.PartialReading r) : Settings.ofReading r = .ok s := by
  obtain ⟨members, rfl, hlists⟩ := h
  obtain ⟨x, y, hrecord, hx, hy⟩ : ∃ x y, (Reading.object members none).asRecord "word"
      WordSettings.ofReading "structure" StructureSettings.ofReading = .ok (x, y) ∧
        x.getD {} = s.word ∧ y.getD {} = s.structural :=
    hlists.exists_asRecord hwhole.members (by decide)
      (fun _ => WordSettings.ofReading_of_partial) id
      (fun _ => StructureSettings.ofReading_of_partial) id
  rw [ofReading, hrecord, Except.bind_eq_ok]
  refine ⟨(x, y), rfl, ?_⟩
  show Except.ok (⟨x.getD {}, y.getD {}⟩ : Settings) = .ok s
  rw [hx, hy]

/-! ## Fields that are named twice -/

theorem WordSettings.ofReading_ne_ok_of_repeats (h : r.Repeats ["enabled", "rule"])
    (s : WordSettings) : WordSettings.ofReading r ≠ .ok s := by
  rw [ofReading, Ne, Except.bind_eq_ok]
  rintro ⟨found, hrecord, -⟩
  exact Reading.asRecord_ne_ok_of_repeats (by decide) h found hrecord

theorem StructureSettings.ofReading_ne_ok_of_repeats (h : r.Repeats ["enabled", "ignored_kinds"])
    (s : StructureSettings) : StructureSettings.ofReading r ≠ .ok s := by
  rw [ofReading, Ne, Except.bind_eq_ok]
  rintro ⟨found, hrecord, -⟩
  exact Reading.asRecord_ne_ok_of_repeats (by decide) h found hrecord

theorem Settings.ofReading_ne_ok_of_namesTwice (h : Settings.NamesTwice r) (s : Settings) :
    Settings.ofReading r ≠ .ok s := by
  rw [ofReading, Ne, Except.bind_eq_ok]
  rintro ⟨found, hrecord, -⟩
  cases h with
  | settings h => exact Reading.asRecord_ne_ok_of_repeats (by decide) h found hrecord
  | word hr h =>
    obtain ⟨hword, -, -⟩ := (Reading.asRecord_eq_ok_iff (by decide)).1 hrecord
    obtain ⟨word, hok⟩ := hword.exists_eq_ok hr
    exact WordSettings.ofReading_ne_ok_of_repeats h word hok
  | structural hr h =>
    obtain ⟨-, hstructural, -⟩ := (Reading.asRecord_eq_ok_iff (by decide)).1 hrecord
    obtain ⟨structural, hok⟩ := hstructural.exists_eq_ok hr
    exact StructureSettings.ofReading_ne_ok_of_repeats h structural hok

end Settings

/-! ## Documents -/

/-- What a document gives that is JSON is what its reading gives. -/
theorem Settings.ofText_of_writes {text : String} {r : Reading} (h : Writes text.toList r) :
    ofText text = ofReading r := by
  rw [ofText, Reading.ofText_of_writes h]
  cases hread : ofReading r <;> simp [hread, bind, Except.bind, pure, Except.pure]

/-- A partial document overrides only what it names.  Whatever the settings are, a document gives
them if it names at least what is not the default, each with its value, in any order, in any
spelling that JSON allows and among any unknown members.  A document that names a field twice is
an error. -/
theorem Settings.ofText_of_partial (s : Settings) {text : String} {r : Reading}
    (h : Writes text.toList r) :
    (s.PartialReading r → ofText text = .ok s) ∧
      (NamesTwice r → ∃ fault, ofText text = .error fault) := by
  rw [ofText_of_writes h, Except.exists_eq_error_iff]
  exact ⟨ofReading_of_partial h.isWhole, ofReading_ne_ok_of_namesTwice⟩

/-- A document that only empties the ignored tags, beside a member that is no setting, and one that
names the rule twice. -/
theorem Settings.ofText_of_partial_emptyTags :
    ofText "\x7b \"seen\":[null],\"structure\":\x7b\"ignored_kinds\":[]\x7d\x7d" =
        .ok ⟨⟨true, none⟩, ⟨true, []⟩⟩ ∧
      ∃ fault, ofText "\x7b\"word\":\x7b\"rule\":null,\"rule\":null\x7d\x7d" = .error fault := by
  constructor
  · have hkinds : Writes ['[', ']'] (.array [] none) := .emptyArray Json.isBlanks_nil
    have hseen := Writes.null.last_item.array
    have hblank : Json.IsBlanks [' '] := by simp [Json.IsBlanks, Json.isBlank]
    have hmembers := hseen.member_cons "seen" hblank
      ((hkinds.last_member "ignored_kinds" Json.isBlanks_nil).object.last_member "structure"
        Json.isBlanks_nil)
    have hdoc : Writes
        "\x7b \"seen\":[null],\"structure\":\x7b\"ignored_kinds\":[]\x7d\x7d".toList _ :=
      hmembers.object
    have htags : StructureSettings.PartialReading ⟨true, []⟩
        (.object [(some "ignored_kinds", .array [] none)] none) := by
      refine ⟨_, rfl, by decide, by decide, ?_, ?_⟩
      · have hempty : (Reading.array [] none).Encodes (.array []) := .same (.array [])
        simpa [valuesUnder] using hempty
      · simp [valuesUnder]
    refine (ofText_of_partial _ hdoc).1 ⟨_, rfl, by decide, by decide, ?_, ?_⟩
    · simpa [valuesUnder] using htags
    · simp [valuesUnder]
  · have hrule := Writes.null.member_cons "rule" Json.isBlanks_nil
      (Writes.null.last_member "rule" Json.isBlanks_nil)
    have hdoc : Writes "\x7b\"word\":\x7b\"rule\":null,\"rule\":null\x7d\x7d".toList _ :=
      (hrule.object.last_member "word" Json.isBlanks_nil).object
    refine (ofText_of_partial default hdoc).2 (.word List.mem_cons_self ⟨_, rfl, "rule", ?_, ?_⟩)
    · simp
    · decide

end SelectionLadder
