import Mathlib.Tactic.Simps.Basic
import SelectionLadder.Engine.Command
import SelectionLadder.Proofs.Text.Tiers

/-!
# What commands go by, and what one command does

A command reads much of an engine and changes little of it.  `Scene` is the part that commands
read and never change: the text, the way words are found and the outline in effect.

* `Engine.snapshot_fst`: the snapshot of a command is a function of the scene, the selection and
  the origin in effect.
* `Engine.run_spec` is the whole effect of one command: the decision on that snapshot, the buffer
  that follows the decision, the origin, and a scene that is the same as before.
-/

namespace SelectionLadder

/-! ## Scenes -/

/-- What commands go by and leave as it is. -/
structure Scene where
  text : Text
  /-- How words are found; without a matcher commands do not stop at words. -/
  matcher : Option Matcher
  /-- The outline in effect. -/
  outline : Option Outline

namespace Scene

/-- The word at a position, or a caret there. -/
def wordAt (s : Scene) (p : Position) : Range :=
  match s.matcher with
  | some m => s.text.wordRange m p
  | none => .caret p

/-- What a command sees of the scene with this selection and origin. -/
@[simps] def snapshot (s : Scene) (selection : Range) (origin : Position) : Snapshot where
  selection
  origin
  word := s.wordAt origin
  line := s.text.lineRange origin
  paragraph := s.text.paragraphRange origin
  paragraphUnion := s.text.paragraphsOver selection
  document := s.text.documentRange
  surroundings :=
    s.outline.map fun o => surroundings o s.text origin (s.wordAt origin) selection

/-- Words lie inside their line, if commands stop at words. -/
def WordsStayInside (s : Scene) : Prop := ∀ m ∈ s.matcher, m.StaysInside

theorem isWordAt_wordAt {s : Scene} (h : s.WordsStayInside) (p : Position) :
    s.text.IsWordAt p (s.wordAt p) := by
  unfold wordAt
  split
  · rename_i m hm
    exact Text.isWordAt_wordRange (h m hm) s.text p
  · exact s.text.isWordAt_caret p

end Scene

namespace Engine

/-- The outline in effect for a buffer. -/
def outlineInEffect (e : Engine) (b : Buffer) : Option Outline :=
  if e.settings.structural.enabled then (e.currentOutline b).1 else none

/-- What the commands of the engine go by in a buffer. -/
def scene (e : Engine) (b : Buffer) : Scene where
  text := b.text
  matcher := if e.settings.word.enabled then some e.matcher else none
  outline := e.outlineInEffect b

theorem wordsStayInside_scene {e : Engine} (h : e.matcher.StaysInside) (b : Buffer) :
    (e.scene b).WordsStayInside := by
  intro m hm
  simp only [scene] at hm
  split at hm
  · obtain rfl := Option.some.inj hm
    exact h
  · exact absurd hm (by simp)

/-- Whatever the settings, the engine that they give finds words inside their line.  It has no
editor and knows of no structure. -/
theorem exists_eq_of_ofSettings {settings : Settings} {e : Engine}
    (h : ofSettings settings = .ok e) : ∃ m, m.StaysInside ∧ e = { settings, matcher := m } := by
  unfold ofSettings at h
  cases hrule : settings.word.rule with
  | none =>
    rw [hrule] at h
    obtain rfl := Except.ok.inj h
    exact ⟨.ascii, Matcher.staysInside_ascii, rfl⟩
  | some rule =>
    rw [hrule] at h
    cases hmatcher : rule.matcher with
    | error error => exact absurd h (by simp [hmatcher])
    | ok m =>
      simp only [hmatcher, Bind.bind, Except.bind, Pure.pure, Except.pure] at h
      obtain rfl := Except.ok.inj h
      exact ⟨m, WordRule.staysInside hmatcher, rfl⟩

/-- Looking up the outline neither reads nor changes the editor bound and the origin stored. -/
theorem currentOutline_with (e : Engine) (editor : Option Buffer) (origin : Origin) (b : Buffer) :
    { e with editor, origin }.currentOutline b =
      ((e.currentOutline b).1, { (e.currentOutline b).2 with editor, origin }) := by
  obtain ⟨editor', origin', settings, matcher, outline, source, cache, sourceCalls⟩ := e
  cases outline with
  | some o => rfl
  | none =>
    cases source with
    | none => rfl
    | some source =>
      simp only [currentOutline, cachedOutline?]
      cases (cache.filter fun c => c.version = b.version).map (·.outline) <;> rfl

theorem scene_with (e : Engine) (editor : Option Buffer) (origin : Origin) (b : Buffer) :
    { e with editor, origin }.scene b = e.scene b := by
  unfold scene outlineInEffect
  rw [currentOutline_with]

/-- The snapshot of a command depends on the scene, the selection and the origin in effect. -/
theorem snapshot_fst (e : Engine) (b : Buffer) :
    (e.snapshot b).1 =
      (e.scene b).snapshot b.selection (e.origin.inEffect b.selection b.anchor) := by
  have houtline : ({ e with origin := some (e.origin.inEffect b.selection b.anchor) }.currentOutline
      b).1 = (e.currentOutline b).1 := by
    rw [currentOutline_with e e.editor]
  unfold snapshot Scene.snapshot scene outlineInEffect Scene.wordAt Text.paragraphsOver
  cases e.settings.word.enabled <;> cases e.settings.structural.enabled <;>
    simp only [if_true, ← houtline] <;> rfl

/-! ## Looking up the outline -/

/-- Looking up the outline a second time finds what the first time has found.  What is built the
first time is taken from the cache the second time; what does not build is built in vain again. -/
theorem currentOutline_fst_snd (e : Engine) {b b' : Buffer} (htext : b'.text = b.text)
    (hversion : b'.version = b.version) :
    ((e.currentOutline b).2.currentOutline b').1 = (e.currentOutline b).1 := by
  cases houtline : e.outline with
  | some o => simp only [currentOutline, houtline, htext]
  | none =>
    cases hsource : e.source with
    | none => simp only [currentOutline, houtline, hsource]
    | some source =>
      cases hcached : e.cachedOutline? b with
      | some o =>
        have hcached' : e.cachedOutline? b' = some o := by
          rw [← hcached]
          simp only [cachedOutline?, hversion]
        simp only [currentOutline, houtline, hsource, hcached, hcached']
      | none =>
        simp only [currentOutline, houtline, hsource, hcached]
        cases hbuilt : e.builtOutline? source b with
        | some o =>
          simp only [cachedOutline?, hversion, Option.map_some, Option.filter_some, decide_true,
            if_true]
        | none =>
          have hbuilt' : e.builtOutline? source b' = none := by
            rw [← hbuilt]
            simp only [builtOutline?, htext]
          simp only [cachedOutline?, Option.map_none, Option.filter_none]
          exact hbuilt'

/-- Looking up the outline changes the cache and the count of calls only. -/
theorem exists_currentOutline_snd (e : Engine) (b : Buffer) :
    ∃ cache sourceCalls, (e.currentOutline b).2 = { e with cache, sourceCalls } := by
  unfold currentOutline
  split
  · exact ⟨e.cache, e.sourceCalls, rfl⟩
  · split
    · exact ⟨e.cache, e.sourceCalls, rfl⟩
    · split
      · exact ⟨e.cache, e.sourceCalls, rfl⟩
      · exact ⟨_, _, rfl⟩

/-- The engine after looking up the outline, if commands go by one. -/
def looked (e : Engine) (b : Buffer) : Engine :=
  if e.settings.structural.enabled then (e.currentOutline b).2 else e

theorem looked_with (e : Engine) (editor : Option Buffer) (origin : Origin) (b : Buffer) :
    { e with editor, origin }.looked b = { e.looked b with editor, origin } := by
  unfold looked
  rw [currentOutline_with]
  cases e.settings.structural.enabled <;> rfl

theorem exists_looked (e : Engine) (b : Buffer) :
    ∃ cache sourceCalls, e.looked b = { e with cache, sourceCalls } := by
  unfold looked
  split
  · exact e.exists_currentOutline_snd b
  · exact ⟨e.cache, e.sourceCalls, rfl⟩

/-- Looking does not change what is seen. -/
theorem scene_looked (e : Engine) {b b' : Buffer} (htext : b'.text = b.text)
    (hversion : b'.version = b.version) : (e.looked b).scene b' = e.scene b := by
  have houtline := e.currentOutline_fst_snd htext hversion
  obtain ⟨cache, sourceCalls, heq⟩ := e.exists_currentOutline_snd b
  unfold scene outlineInEffect looked
  cases henabled : e.settings.structural.enabled
  · simp [henabled, htext]
  · rw [if_pos rfl, if_pos rfl, houtline, heq, htext]
    simp only [henabled, if_true]

theorem snapshot_snd (e : Engine) (b : Buffer) :
    (e.snapshot b).2 =
      { e with origin := some (e.origin.inEffect b.selection b.anchor) }.looked b := by
  unfold snapshot looked
  cases e.settings.structural.enabled <;> rfl

end Engine

/-! ## Following a decision -/

/-- The buffer after a decision. -/
def Buffer.follow (b : Buffer) : Decision → Buffer
  | .selectWord r | .selectLine r | .selectParagraph r | .selectUnion r | .selectNode r
  | .selectDocument r => b.setSelection r.start r.stop
  | .restoreCursor p => b.setCursor p
  | .noOp => b

/-- The origin after a decision that was made with the origin `p`. -/
def Decision.originAfter (p : Position) : Decision → Origin
  | restoreCursor _ => none
  | _ => some p

namespace Buffer

variable {b : Buffer} {r : Range} {d : Decision}

@[simp] theorem follow_text (b : Buffer) (d : Decision) : (b.follow d).text = b.text := by
  cases d <;> rfl

@[simp] theorem follow_version (b : Buffer) (d : Decision) :
    (b.follow d).version = b.version := by
  cases d <;> rfl

/-- Selecting a range of the text selects exactly that range. -/
theorem setSelection_of_has (h : b.text.Has r) :
    (b.setSelection r.start r.stop).anchor = r.start ∧
      (b.setSelection r.start r.stop).selection = r := by
  have hanchor : (b.setSelection r.start r.stop).anchor = r.start := Text.clamp_of_inside h.1
  have hhead : (b.setSelection r.start r.stop).head = r.stop := Text.clamp_of_inside h.2
  refine ⟨hanchor, ?_⟩
  rw [selection, hanchor, hhead, Range.spanning_of_le r.start_le_stop]

/-- After a decision its target is selected, if it is a range of the text. -/
theorem follow_of_target (ht : d.target = some r) (h : b.text.Has r) :
    (b.follow d).anchor = r.start ∧ (b.follow d).selection = r := by
  cases d with
  | noOp => exact absurd ht (by simp [Decision.target])
  | restoreCursor p =>
    obtain rfl : Range.caret p = r := Option.some.inj ht
    exact setSelection_of_has h
  | selectWord s | selectLine s | selectParagraph s | selectUnion s | selectNode s
  | selectDocument s =>
    obtain rfl : s = r := Option.some.inj ht
    exact setSelection_of_has h

/-- Both ends of the selection are positions of the text. -/
theorem has_selection (b : Buffer) : b.text.Has b.selection := by
  unfold selection Range.spanning
  split
  · exact ⟨b.anchor_inside, b.head_inside⟩
  · exact ⟨b.head_inside, b.anchor_inside⟩

theorem inside_of_selection_eq_caret {p : Position} (h : b.selection = .caret p) :
    b.text.Inside p := by
  have hhas := b.has_selection.1
  rwa [h] at hhas

theorem selection_holds_anchor (b : Buffer) : b.selection.Holds b.anchor :=
  Range.spanning_holds_left _ _

theorem anchor_eq_of_selection_eq_caret {p : Position} (h : b.selection = .caret p) :
    b.anchor = p := by
  have hanchor := b.selection_holds_anchor
  rw [h] at hanchor
  exact le_antisymm hanchor.2 hanchor.1

end Buffer

theorem Decision.eq_noOp_of_target {d : Decision} (h : d.target = none) : d = .noOp := by
  cases d with
  | noOp => rfl
  | _ => exact absurd h (by simp [target])

theorem Decision.originAfter_of_target {d : Decision} {r : Range} (ht : d.target = some r)
    (hr : ¬ r.IsEmpty) (p : Position) : d.originAfter p = some p := by
  cases d with
  | restoreCursor q =>
    obtain rfl : Range.caret q = r := Option.some.inj ht
    exact absurd (Range.isEmpty_caret q) hr
  | _ => rfl

/-! ## Origins -/

namespace Origin

variable {stored : Origin} {r : Range} {anchor p : Position}

theorem inEffect_of_isEmpty (h : r.IsEmpty) (stored : Origin) (anchor : Position) :
    stored.inEffect r anchor = anchor := by
  cases stored with
  | none => rfl
  | some p => rw [inEffect, if_neg (by simp [h])]

theorem inEffect_some (hr : ¬ r.IsEmpty) (hp : r.Holds p) (anchor : Position) :
    inEffect (some p) r anchor = p := by
  rw [inEffect, if_pos ⟨hr, hp⟩]

/-- The origin in effect lies in the selection. -/
theorem holds_inEffect (h : r.Holds anchor) (stored : Origin) :
    r.Holds (stored.inEffect r anchor) := by
  cases stored with
  | none => exact h
  | some p =>
    rw [inEffect]
    split
    · rename_i hp
      exact hp.2
    · exact h

end Origin

/-! ## One command -/

namespace Engine

variable {e : Engine} {b : Buffer}

theorem run_eq (hb : e.editor = some b) (decide : Snapshot → Decision) :
    e.run decide =
      .ok (decide (e.snapshot b).1, (e.snapshot b).2.apply b (decide (e.snapshot b).1)) := by
  simp only [run, hb]

/-- Applying a decision changes the editor and the origin only. -/
theorem apply_eq (hb : e.editor = some b) {p : Position} (hp : e.origin = some p) (d : Decision) :
    e.apply b d = { e with editor := some (b.follow d), origin := d.originAfter p } := by
  obtain ⟨editor, origin, settings, matcher, outline, source, cache, sourceCalls⟩ := e
  obtain rfl : editor = some b := hb
  obtain rfl : origin = some p := hp
  cases d <;> rfl

/-- The engine after a command has looked up the outline and its decision is followed. -/
theorem run_eq_follow (hb : e.editor = some b) (decide : Snapshot → Decision) {p : Position}
    (hp : e.origin.inEffect b.selection b.anchor = p) {d : Decision}
    (hd : decide ((e.scene b).snapshot b.selection p) = d) :
    e.run decide =
      .ok (d, { e.looked b with editor := some (b.follow d), origin := d.originAfter p }) := by
  have hseen : decide (e.snapshot b).1 = d := by
    rw [snapshot_fst, hp, hd]
  have hlooked : (e.snapshot b).2 = { e.looked b with editor := some b, origin := some p } := by
    rw [snapshot_snd, hp, ← hb, looked_with e e.editor]
  rw [run_eq hb, hseen, hlooked, apply_eq rfl rfl]

/-- One command decides on the snapshot of the scene, the selection and the origin in effect.  The
buffer follows the decision, the origin is stored unless the cursor is restored, and commands go
on by the same scene. -/
theorem run_spec (hb : e.editor = some b) (decide : Snapshot → Decision) {p : Position}
    (hp : e.origin.inEffect b.selection b.anchor = p) {d : Decision}
    (hd : decide ((e.scene b).snapshot b.selection p) = d) :
    ∃ e', e.run decide = .ok (d, e') ∧ e'.editor = some (b.follow d) ∧
      e'.origin = d.originAfter p ∧ e'.scene (b.follow d) = e.scene b := by
  refine ⟨_, run_eq_follow hb decide hp hd, rfl, rfl, ?_⟩
  rw [scene_with]
  exact scene_looked e (b.follow_text d) (b.follow_version d)

end Engine

end SelectionLadder
