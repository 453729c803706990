import SelectionLadder.Proofs.Engine.Scene

/-!
# Runs of commands

What is left of an engine between the commands of a run is what they go by, the version of the
buffer, the origin in effect and the selection.

* `Engine.StandsAt` says where an engine stands in these terms.
* `StandsAt.run` is the step: a decision for a range of the text that holds the origin moves the
  selection there and keeps all else.  `StandsAt.run_to` is the step for any range of the text,
  `StandsAt.run_of_restoreCursor` the step back to a caret, and `StandsAt.run_of_target_eq_none` the
  step of a decision for nothing.
* `Engine.performAll` runs a list of commands, and `Engine.selectionAfter` is what is selected
  after it.
-/

namespace SelectionLadder

namespace Engine

variable {e : Engine} {scene : Scene} {version : Nat} {p : Position} {r : Range}

/-! ## Where an engine stands -/

/-- The engine has a buffer of this version with this selection, goes by this scene, and has this
origin in effect. -/
def StandsAt (e : Engine) (scene : Scene) (version : Nat) (p : Position) (r : Range) : Prop :=
  ∃ b, e.editor = some b ∧ e.scene b = scene ∧ b.version = version ∧ b.selection = r ∧
    e.origin.inEffect r b.anchor = p

theorem standsAt {b : Buffer} (hb : e.editor = some b) :
    e.StandsAt (e.scene b) b.version (e.origin.inEffect b.selection b.anchor) b.selection :=
  ⟨b, hb, rfl, rfl, rfl, rfl⟩

/-- With a caret the origin is the caret, whatever origin is stored. -/
theorem standsAt_caret {b : Buffer} (hb : e.editor = some b) (hr : b.selection = .caret p) :
    e.StandsAt (e.scene b) b.version p (.caret p) := by
  refine ⟨b, hb, rfl, rfl, hr, ?_⟩
  rw [Origin.inEffect_of_isEmpty (Range.isEmpty_caret p)]
  exact Buffer.anchor_eq_of_selection_eq_caret hr

namespace StandsAt

/-- The selection is one of the text. -/
theorem has (h : e.StandsAt scene version p r) : scene.text.Has r := by
  obtain ⟨b, -, rfl, -, rfl, -⟩ := h
  exact b.has_selection

/-- The origin lies in the selection. -/
theorem holds (h : e.StandsAt scene version p r) : r.Holds p := by
  obtain ⟨b, -, -, -, rfl, rfl⟩ := h
  exact Origin.holds_inEffect b.selection_holds_anchor _

/-- The step to a range of the text.  If the range does not hold the origin, its start is the origin
from now on. -/
theorem run_to (h : e.StandsAt scene version p r) (decide : Snapshot → Decision) {s : Range}
    (ht : (decide (scene.snapshot r p)).target = some s) (hs : scene.text.Has s) :
    ∃ e', e.run decide = .ok (decide (scene.snapshot r p), e') ∧
      e'.StandsAt scene version (if s.Holds p then p else s.start) s := by
  obtain ⟨b, hb, rfl, rfl, rfl, horigin⟩ := h
  obtain ⟨e', hrun, heditor, hstored, hscene⟩ := run_spec hb decide horigin rfl
  obtain ⟨hanchor, hselection⟩ := Buffer.follow_of_target ht hs
  refine ⟨e', hrun, _, heditor, hscene, Buffer.follow_version .., hselection, ?_⟩
  rw [hanchor, hstored]
  by_cases hempty : s.IsEmpty
  · rw [Origin.inEffect_of_isEmpty hempty]
    split
    · rename_i hp
      rw [hempty.eq_caret_of_holds hp, Range.caret_start]
    · rfl
  · rw [Decision.originAfter_of_target ht hempty, Origin.inEffect]
    simp [hempty]

/-- The step to a range of the text that holds the origin. -/
theorem run (h : e.StandsAt scene version p r) (decide : Snapshot → Decision) {s : Range}
    (ht : (decide (scene.snapshot r p)).target = some s) (hs : scene.text.Has s)
    (hp : s.Holds p) :
    ∃ e', e.run decide = .ok (decide (scene.snapshot r p), e') ∧
      e'.StandsAt scene version p s := by
  obtain ⟨e', hrun, hstands⟩ := h.run_to decide ht hs
  rw [if_pos hp] at hstands
  exact ⟨e', hrun, hstands⟩

/-- The step that restores the cursor: what is restored may have to be moved into the text, and the
origin is forgotten. -/
theorem run_of_restoreCursor (h : e.StandsAt scene version p r) (decide : Snapshot → Decision)
    {q : Position} (hd : decide (scene.snapshot r p) = .restoreCursor q) :
    ∃ e', e.run decide = .ok (.restoreCursor q, e') ∧ e'.origin = none ∧
      e'.StandsAt scene version (scene.text.clamp q) (.caret (scene.text.clamp q)) := by
  obtain ⟨b, hb, rfl, rfl, rfl, horigin⟩ := h
  obtain ⟨e', hrun, heditor, hstored, hscene⟩ := run_spec hb decide horigin hd
  refine ⟨e', hrun, hstored, _, heditor, hscene, rfl, Range.spanning_self _, ?_⟩
  rw [hstored]
  rfl

/-- The step to nothing, after which the origin is stored. -/
theorem run_of_target_eq_none (h : e.StandsAt scene version p r) (decide : Snapshot → Decision)
    (ht : (decide (scene.snapshot r p)).target = none) :
    ∃ e', e.run decide = .ok (.noOp, e') ∧ e'.origin = some p ∧
      e'.StandsAt scene version p r := by
  have hholds := h.holds
  obtain ⟨b, hb, rfl, rfl, rfl, horigin⟩ := h
  obtain ⟨e', hrun, heditor, hstored, hscene⟩ :=
    run_spec hb decide horigin (Decision.eq_noOp_of_target ht)
  refine ⟨e', hrun, hstored, _, heditor, hscene, rfl, rfl, ?_⟩
  rw [hstored]
  by_cases hempty : b.selection.IsEmpty
  · rw [Origin.inEffect_of_isEmpty hempty] at horigin ⊢
    exact horigin
  · exact Origin.inEffect_some hempty hholds _

end StandsAt

end Engine

/-! ## Lists of commands -/

/-- The two selection commands. -/
inductive Command where
  | expand
  | shrink
deriving DecidableEq

namespace Engine

/-- Runs one command. -/
def perform (e : Engine) : Command → Except EngineError (Decision × Engine)
  | .expand => e.expand
  | .shrink => e.shrink

/-- Runs commands one after the other. -/
def performAll (e : Engine) : List Command → Except EngineError Engine
  | [] => .ok e
  | c :: cs =>
    match e.perform c with
    | .ok (_, e') => e'.performAll cs
    | .error error => .error error

theorem performAll_cons {e e' : Engine} {c : Command} {d : Decision}
    (h : e.perform c = .ok (d, e')) (cs : List Command) :
    e.performAll (c :: cs) = e'.performAll cs := by
  simp only [performAll, h]

theorem performAll_append {e e' : Engine} {cs : List Command} (h : e.performAll cs = .ok e')
    (cs' : List Command) : e.performAll (cs ++ cs') = e'.performAll cs' := by
  induction cs generalizing e with
  | nil =>
    obtain rfl := Except.ok.inj h
    rfl
  | cons c cs ih =>
    rw [List.cons_append]
    simp only [performAll] at h ⊢
    split at h
    · exact ih h
    · exact absurd h (by simp)

/-- What is selected after the commands, if there is an editor. -/
def selectionAfter (e : Engine) (cs : List Command) : Option Range :=
  match e.performAll cs with
  | .ok e' => e'.editor.map (·.selection)
  | .error _ => none

theorem selectionAfter_append {e e' : Engine} {cs : List Command} (h : e.performAll cs = .ok e')
    (cs' : List Command) : e.selectionAfter (cs ++ cs') = e'.selectionAfter cs' := by
  simp only [selectionAfter, performAll_append h]

/-- What is selected where an engine stands after the commands. -/
theorem StandsAt.selectionAfter {e e' : Engine} {scene : Scene} {version : Nat} {p : Position}
    {r : Range} {cs : List Command} (hrun : e.performAll cs = .ok e')
    (h : e'.StandsAt scene version p r) : e.selectionAfter cs = some r := by
  obtain ⟨b, hb, -, -, rfl, -⟩ := h
  simp only [Engine.selectionAfter, hrun, hb, Option.map_some]

end Engine

end SelectionLadder
