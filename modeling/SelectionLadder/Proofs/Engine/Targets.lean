import SelectionLadder.Proofs.Ladder.Origin

/-!
# What is reported and what is selected

A command reports its decision, and a host takes from `Decision.target` what is selected now.  The
editor moves what it is given into its text, so the report is right only as far as targets are
ranges of the text.

* `Scene.has_or_of_decide`: they are, unless the cursor is restored to the origin.
* `Buffer.MovesTo` says what a command makes of the buffer, whether the report is right or not.
  `Engine.exists_movesTo` is the step.
* `Engine.OriginFits` is the invariant under which every report is right.  Only a host that stores
  an origin, replaces the text or binds another editor can break it (`OriginFits.handle`).
* `Engine.selects_target` says this of the engines that settings and events lead to.

The invariant does break: positions are compared line first, so an origin past the end of its line
is in effect while the selection reaches to a later line.  The cursor is then restored elsewhere
than reported (`selection_ne_target_emptiedLine`).
-/

namespace SelectionLadder

/-! ## Decisions -/

/-- A decision is for nothing, or restores the cursor, or is for a range of the text.  Expanding
always finds a range of the text. -/
theorem Scene.has_or_of_decide {scene : Scene} {p : Position} {r : Range}
    (hwords : scene.WordsStayInside) (houtline : scene.OutlineFits) (hr : scene.text.Has r)
    (hp : r.Holds p) (c : Command) :
    (c = .shrink ∧ (c.decide (scene.snapshot r p) = .noOp ∨
        c.decide (scene.snapshot r p) = .restoreCursor p)) ∨
      ∃ s, (c.decide (scene.snapshot r p)).target = some s ∧ scene.text.Has s := by
  cases c with
  | expand =>
    obtain ⟨s, htarget, -, hhas, -⟩ := holds_of_expand hwords houtline hr hp
    exact Or.inr ⟨s, htarget, hhas⟩
  | shrink =>
    by_cases hempty : r.IsEmpty
    · exact Or.inl ⟨rfl, Or.inl (Snapshot.shrink_of_isEmpty hempty)⟩
    have hshrinks := shrink_shrinks hwords houtline hr hp hempty
    rw [Command.decide]
    generalize (scene.snapshot r p).shrink = d at hshrinks
    cases hshrinks with
    | cursor _ => exact Or.inl ⟨rfl, Or.inr rfl⟩
    | part htarget _ hhas _ _ _ => exact Or.inr ⟨_, htarget, hhas⟩

/-- The origin in effect is the anchor or the stored one. -/
theorem Origin.inEffect_eq_or (stored : Origin) (r : Range) (anchor : Position) :
    stored.inEffect r anchor = anchor ∨ stored = some (stored.inEffect r anchor) := by
  cases stored with
  | none => exact Or.inl rfl
  | some p =>
    rw [Origin.inEffect]
    split
    · exact Or.inr rfl
    · exact Or.inl rfl

/-! ## One command -/

/-- What a command makes of a buffer, where `stored` is the origin that was stored and `d` what is
reported. -/
structure Buffer.MovesTo (b : Buffer) (stored : Origin) (d : Decision) (b' : Buffer) : Prop where
  text_eq : b'.text = b.text
  version_eq : b'.version = b.version
  idle : d.target = none → b' = b
  selects_iff : ∀ r ∈ d.target, b'.selection = r ↔ b.text.Has r
  astray : ∀ r ∈ d.target, ¬ b.text.Has r → ∃ p, stored = some p ∧ b.selection.Holds p ∧
    d = .restoreCursor p ∧ b'.selection = .caret (b.text.clamp p)

/-- The target is selected if the stored origin is a position of the text. -/
theorem Buffer.MovesTo.selects {b b' : Buffer} {stored : Origin} {d : Decision}
    (h : b.MovesTo stored d b') (hstored : ∀ p ∈ stored, b.text.Inside p) :
    ∀ r ∈ d.target, b'.selection = r := by
  intro r hr
  rw [h.selects_iff r hr]
  by_contra hnot
  obtain ⟨p, hp, -, rfl, -⟩ := h.astray r hr hnot
  obtain rfl := Option.some.inj hr
  exact hnot (Text.has_caret (hstored p hp))

/-- What is selected after a decision is a range of the text, so it can only be the target if that
is one, too. -/
theorem Buffer.follow_selection_iff {b : Buffer} {d : Decision} {r : Range}
    (ht : d.target = some r) : (b.follow d).selection = r ↔ b.text.Has r := by
  constructor
  · rintro rfl
    have hhas := (b.follow d).has_selection
    rwa [follow_text] at hhas
  · exact fun hhas => (follow_of_target ht hhas).2

namespace Engine

variable {e : Engine} {b : Buffer} {p : Position}

/-- The step.  What an expansion reports is always selected. -/
theorem exists_movesTo (hb : e.editor = some b) (hwords : (e.scene b).WordsStayInside)
    (houtline : (e.scene b).OutlineFits) (c : Command) :
    ∃ d b', (e.handle (.command c)).1 = .ok (some d) ∧
      (e.handle (.command c)).2.editor = some b' ∧ b.MovesTo e.origin d b' ∧
      (c = .expand → ∀ r ∈ d.target, b'.selection = r) := by
  have hholds : b.selection.Holds (e.origin.inEffect b.selection b.anchor) := (standsAt hb).holds
  have hdecide := Scene.has_or_of_decide hwords houtline b.has_selection hholds c
  rw [handle_command_eq hb c rfl rfl]
  generalize c.decide ((e.scene b).snapshot b.selection
    (e.origin.inEffect b.selection b.anchor)) = d at hdecide ⊢
  refine ⟨d, b.follow d, rfl, rfl, ?_, ?_⟩
  · constructor
    case text_eq => exact b.follow_text d
    case version_eq => exact b.follow_version d
    case idle =>
      intro hnone
      rw [Decision.eq_noOp_of_target hnone, Buffer.follow]
    case selects_iff => exact fun r hr => Buffer.follow_selection_iff hr
    case astray =>
      intro r hr hnot
      rcases hdecide with ⟨-, rfl | rfl⟩ | ⟨s, hs, hhas⟩
      · cases hr
      · obtain rfl := Option.some.inj hr
        rcases e.origin.inEffect_eq_or b.selection b.anchor with hanchor | hstored
        · rw [hanchor] at hnot
          exact absurd (Text.has_caret b.anchor_inside) hnot
        · exact ⟨_, hstored, hholds, rfl, Range.spanning_self _⟩
      · obtain rfl := Option.some.inj (hs.symm.trans hr)
        exact absurd hhas hnot
  · rintro rfl r hr
    rcases hdecide with ⟨hshrink, -⟩ | ⟨s, hs, hhas⟩
    · cases hshrink
    · obtain rfl := Option.some.inj (hs.symm.trans hr)
      exact (Buffer.follow_of_target hr hhas).2

end Engine

/-! ## Where every report is right -/

/-- The event stores no origin and leaves the text as it is. -/
def Event.KeepsPlaces : Event → Prop
  | setEditor (some _) | setOrigin _ | setText _ => False
  | _ => True

/-- If a decision is reported, its target is what the editor has selected. -/
def Observation.IsRight (seen : Observation) : Prop :=
  ∀ d, seen.reply = .ok (some d) → ∃ b, seen.editor = some b ∧ ∀ r ∈ d.target, b.selection = r

namespace Engine

variable {e : Engine} {b : Buffer} {event : Event} {events : List Event}

/-- The stored origin, if there is one, is a position of the text. -/
def OriginFits (e : Engine) : Prop := ∀ b ∈ e.editor, ∀ p ∈ e.origin, b.text.Inside p

theorem OriginFits.mapEditor_setSelection (h : e.OriginFits) (anchor head : Position) :
    (e.mapEditor (·.setSelection anchor head)).OriginFits := by
  intro b' hb' p hp
  obtain ⟨b, hb, rfl⟩ := Option.map_eq_some_iff.1 hb'
  exact h b hb p hp

/-- A command stores an origin of the text, or what is stored already. -/
theorem OriginFits.handle_command (h : e.OriginFits) (c : Command) :
    (e.handle (.command c)).2.OriginFits := by
  cases hb : e.editor with
  | none =>
    rw [handle_command_of_editor_eq_none hb]
    exact h
  | some b =>
    have hinside : b.text.Inside (e.origin.inEffect b.selection b.anchor) := by
      rcases e.origin.inEffect_eq_or b.selection b.anchor with hanchor | hstored
      · rw [hanchor]
        exact b.anchor_inside
      · exact h b hb _ hstored
    rw [handle_command_eq hb c rfl rfl]
    generalize c.decide ((e.scene b).snapshot b.selection
      (e.origin.inEffect b.selection b.anchor)) = d
    intro b' hb' p hp
    obtain rfl := Option.some.inj hb'
    rw [Buffer.follow_text]
    cases d with
    | restoreCursor q => cases hp
    | _ =>
      obtain rfl := Option.some.inj hp
      exact hinside

/-- The step. -/
theorem OriginFits.handle (h : e.OriginFits) (hevent : event.KeepsPlaces) :
    (e.handle event).2.OriginFits := by
  cases event with
  | setEditor editor =>
    cases editor with
    | none => exact h
    | some b => exact hevent.elim
  | setOrigin origin => exact hevent.elim
  | setText text => exact hevent.elim
  | setOutline outline => exact h
  | setSource source => exact h
  | setCursor p => exact h.mapEditor_setSelection p p
  | setSelection anchor head => exact h.mapEditor_setSelection anchor head
  | command c => exact h.handle_command c

/-- Only commands report decisions. -/
theorem exists_command_of_reply {d : Decision} (h : (e.handle event).1 = .ok (some d)) :
    ∃ c, event = .command c := by
  cases event with
  | command c => exact ⟨c, rfl⟩
  | setEditor editor => cases editor <;> cases h
  | _ => cases h

/-- The run: every report is right. -/
theorem OriginFits.run (h : e.OriginFits) (hreached : Reached e) (hcache : e.CacheAgrees)
    (hevents : ∀ event ∈ events, event.KeepsPlaces)
    (hvalid : ∀ o, Event.setOutline (some o) ∈ events → o.validate = .ok ()) :
    ∀ seen ∈ observations Engine.handle e events, seen.IsRight := by
  induction events generalizing e with
  | nil => simp [observations]
  | cons event events ih =>
    rw [List.forall_mem_cons] at hevents
    have hrest : ∀ seen ∈ observations Engine.handle (e.handle event).2 events, seen.IsRight := by
      refine ih (h.handle hevents.1) (hreached.handle ?_) (hcache.handle event) hevents.2 ?_
      · rintro o rfl
        exact hvalid o List.mem_cons_self
      · exact fun o ho => hvalid o (List.mem_cons_of_mem _ ho)
    simp only [observations, List.forall_mem_cons]
    refine ⟨?_, hrest⟩
    intro d hreply
    obtain ⟨c, rfl⟩ := exists_command_of_reply hreply
    cases hb : e.editor with
    | none =>
      rw [handle_command_of_editor_eq_none hb] at hreply
      cases hreply
    | some b =>
      obtain ⟨d', b', hreply', hb', hmoves, -⟩ :=
        exists_movesTo hb (wordsStayInside_scene hreached.staysInside b)
          (outlineFits_scene hb hreached.validate_outline hcache) c
      obtain rfl := Option.some.inj (Except.ok.inj (hreply'.symm.trans hreply))
      exact ⟨b', hb', hmoves.selects (h b hb)⟩

/-- Whatever the settings are and whatever has happened to the engine, a command on an editor
reports a decision and leaves the text as it is.  If the decision is for nothing, the editor stays
as it is.  Otherwise the target is selected exactly if it is a range of the text; it always is for
an expansion, and for a shrink if the stored origin is a position of the text.  A target outside the
text is the stored origin, and the caret is then put on the nearest position of the text.

So every report of a run is right if the origin that is stored at its start is a position of the
text, and the host neither stores another one nor replaces the text or the editor. -/
theorem selects_target {settings : Settings} (hsettings : ofSettings settings = .ok e)
    {history : List Event}
    (hvalid : ∀ o, Event.setOutline (some o) ∈ history → o.validate = .ok ()) :
    (∀ b c, (e.after history).editor = some b →
      ∃ d b', ((e.after history).handle (.command c)).1 = .ok (some d) ∧
        ((e.after history).handle (.command c)).2.editor = some b' ∧
        b.MovesTo (e.after history).origin d b' ∧
        (c = .expand ∨ (e.after history).OriginFits → ∀ r ∈ d.target, b'.selection = r)) ∧
      ((e.after history).OriginFits → ∀ events : List Event,
        (∀ event ∈ events, event.KeepsPlaces) →
        (∀ o, Event.setOutline (some o) ∈ events → o.validate = .ok ()) →
        ∀ seen ∈ observations handle (e.after history) events, seen.IsRight) := by
  have hreached : Reached (e.after history) := (Reached.ofSettings hsettings).after hvalid
  have hcache : (e.after history).CacheAgrees := (cacheAgrees_of_ofSettings hsettings).after history
  constructor
  · intro b c hb
    obtain ⟨d, b', hreply, hb', hmoves, hexpand⟩ :=
      exists_movesTo hb (wordsStayInside_scene hreached.staysInside b)
        (outlineFits_scene hb hreached.validate_outline hcache) c
    refine ⟨d, b', hreply, hb', hmoves, ?_⟩
    rintro (hc | hfits)
    · exact hexpand hc
    · exact hmoves.selects (hfits b hb)
  · intro hfits events hevents hvalid'
    exact hfits.run hreached hcache hevents hvalid'

end Engine

/-! ## A report that is wrong -/

/-- The word at the caret and then both lines are selected, and the line of the caret is emptied. -/
def emptiedLine : List Event :=
  [.setEditor (some (.ofText (.ofChars "abcdef\ngh".toList))), .setCursor ⟨0, 5⟩,
    .command .expand, .command .expand, .setText (.ofChars "\ngh".toList)]

/-- The same with an outline of the host, before it all. -/
def emptiedBlock : List Event :=
  .setOutline (some (.ofTree 9 ⟨⟨.document, 0, 9⟩, 0, 9⟩
    (.tree ⟨⟨.paragraph, 0, 6⟩, 0, 6⟩ .empty .empty))) :: emptiedLine

/-- Commands, and a selection that is made backwards. -/
def commandsAround : List Event :=
  [.command .expand, .setSelection ⟨1, 1⟩ ⟨0, 1⟩, .command .shrink, .command .shrink]

theorem selects_target_emptiedBlock :
    ∃ e b, Engine.ofSettings {} = .ok e ∧ (e.after emptiedBlock).editor = some b ∧
      (e.after emptiedBlock).origin = some ⟨0, 5⟩ ∧
      (∃ d b', ((e.after emptiedBlock).handle (.command .shrink)).1 = .ok (some d) ∧
        ((e.after emptiedBlock).handle (.command .shrink)).2.editor = some b' ∧
        b.MovesTo (e.after emptiedBlock).origin d b') ∧
      ∀ seen ∈ Engine.observations Engine.handle (e.after (emptiedBlock.take 4)) commandsAround,
        seen.IsRight := by
  obtain ⟨b, hb⟩ : ∃ b, (({} : Engine).after emptiedBlock).editor = some b :=
    Option.isSome_iff_exists.1 (by decide +kernel)
  have horigin : (({} : Engine).after emptiedBlock).origin = some ⟨0, 5⟩ := by decide +kernel
  have hfits : (({} : Engine).after (emptiedBlock.take 4)).OriginFits := by
    unfold Engine.OriginFits
    decide +kernel
  have hvalid : ∀ o, Event.setOutline (some o) ∈ emptiedBlock → o.validate = .ok () := by
    simp only [emptiedBlock, emptiedLine, List.mem_cons, List.not_mem_nil, or_false, reduceCtorEq,
      Event.setOutline.injEq, Option.some.injEq]
    rintro o rfl
    decide +kernel
  have hsettings : Engine.ofSettings {} = .ok {} := rfl
  obtain ⟨hstep, -⟩ := Engine.selects_target hsettings hvalid
  have hvalid' : ∀ o, Event.setOutline (some o) ∈ emptiedBlock.take 4 → o.validate = .ok () :=
    fun o ho => hvalid o (List.mem_of_mem_take ho)
  obtain ⟨-, hrun⟩ := Engine.selects_target hsettings hvalid'
  obtain ⟨d, b', hreply, hb', hmoves, -⟩ := hstep b .shrink hb
  refine ⟨{}, b, rfl, hb, horigin, ⟨d, b', hreply, hb', hmoves⟩, ?_⟩
  exact hrun hfits commandsAround (by simp [commandsAround, Event.KeepsPlaces])
    (by simp [commandsAround])

/-- The cursor is reported to be where the origin was, past the end of the emptied line; it is at
the start of the line. -/
theorem selection_ne_target_emptiedLine :
    ∃ e d r b, Engine.ofSettings {} = .ok e ∧
      ((e.after emptiedLine).handle (.command .shrink)).1 = .ok (some d) ∧ d.target = some r ∧
      ((e.after emptiedLine).handle (.command .shrink)).2.editor = some b ∧
      r = .caret ⟨0, 5⟩ ∧ b.selection = .caret ⟨0, 0⟩ ∧ b.selection ≠ r := by
  obtain ⟨b, hb⟩ : ∃ b,
      ((({} : Engine).after emptiedLine).handle (.command .shrink)).2.editor = some b :=
    Option.isSome_iff_exists.1 (by decide +kernel)
  have hreply : ((({} : Engine).after emptiedLine).handle (.command .shrink)).1 =
      .ok (some (.restoreCursor ⟨0, 5⟩)) := by
    decide +kernel
  have hselected : ((({} : Engine).after emptiedLine).handle (.command .shrink)).2.editor.map
      (·.selection) = some (.caret ⟨0, 0⟩) := by
    decide +kernel
  rw [hb] at hselected
  have hselection : b.selection = .caret ⟨0, 0⟩ := Option.some.inj hselected
  refine ⟨{}, _, _, b, rfl, hreply, rfl, hb, rfl, hselection, ?_⟩
  rw [hselection]
  decide

end SelectionLadder
