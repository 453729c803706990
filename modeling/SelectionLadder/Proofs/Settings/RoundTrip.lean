import SelectionLadder.Proofs.Settings.Overrides

/-!
# Settings that are written and read

The document that is written for settings gives these settings back: any switches, no rule or any
rule, any description of a pattern and any ignored tags.

* The encodings are proper values (`Settings.isProper_toJson`), so their text is read as what was
  written, and nothing of it is left over.
* The encoding names every setting with its value, so its reading is a partial one
  (`partialReading_toJson` of each part) and gives the settings (`Settings.ofReading_toJson`).
* `Settings.ofText_toText` puts the two together.
-/

namespace SelectionLadder

open Json (IsProper Reading)

/-! ## What is written -/

section Written

/-- An object of two members is proper if their names differ and their values are proper. -/
theorem Json.IsProper.pair {name₁ name₂ : String} {j₁ j₂ : Json} (hne : name₁ ≠ name₂)
    (h₁ : j₁.IsProper) (h₂ : j₂.IsProper) : (Json.object [(name₁, j₁), (name₂, j₂)]).IsProper := by
  apply IsProper.object
  · simpa using hne
  · simpa using ⟨h₁, h₂⟩

theorem WordRule.isProper_toJson (rule : WordRule) : rule.toJson.IsProper := by
  cases rule with
  | ascii => exact .object (by simp) (by simpa using .string "ascii")
  | unicode => exact .object (by simp) (by simpa using .string "unicode")
  | pattern description => exact .pair (by decide) (.string _) (.string description)

theorem WordSettings.isProper_toJson (s : WordSettings) : s.toJson.IsProper := by
  refine .pair (by decide) (.bool s.enabled) ?_
  cases s.rule with
  | none => exact .null
  | some rule => exact rule.isProper_toJson

theorem StructureSettings.isProper_toJson (s : StructureSettings) : s.toJson.IsProper := by
  refine .pair (by decide) (.bool s.enabled) (.array ?_)
  intro item hitem
  obtain ⟨tag, -, rfl⟩ := List.mem_map.1 hitem
  exact .string tag

theorem Settings.isProper_toJson (s : Settings) : s.toJson.IsProper :=
  .pair (by decide) s.word.isProper_toJson s.structural.isProper_toJson

end Written

/-! ## What is read -/

/-! What is written for settings names all of them, so its reading is a partial one that leaves
nothing out. -/

theorem WordSettings.partialReading_toJson (s : WordSettings) :
    s.PartialReading (.ofJson s.toJson) :=
  ⟨_, rfl, .pair (by simp) (.same (.bool s.enabled)) (.same _)⟩

theorem StructureSettings.partialReading_toJson (s : StructureSettings) :
    s.PartialReading (.ofJson s.toJson) :=
  ⟨_, rfl, .pair (by simp) (.same (.bool s.enabled)) (.same _)⟩

theorem Settings.partialReading_toJson (s : Settings) : s.PartialReading (.ofJson s.toJson) :=
  ⟨_, rfl, .pair (by simp) s.word.partialReading_toJson s.structural.partialReading_toJson⟩

theorem Settings.ofReading_toJson (s : Settings) :
    Settings.ofReading (.ofJson s.toJson) = .ok s :=
  ofReading_of_partial s.isProper_toJson.writes_compact.isWhole s.partialReading_toJson

/-- Settings survive their document: whatever they are, reading the document that is
written for them succeeds and gives them back. -/
theorem Settings.ofText_toText (s : Settings) : Settings.ofText s.toText = .ok s := by
  rw [Settings.ofText, Settings.toText, Reading.ofText_pretty s.isProper_toJson,
    Except.bind_eq_ok]
  exact ⟨s, s.ofReading_toJson, rfl⟩

end SelectionLadder
