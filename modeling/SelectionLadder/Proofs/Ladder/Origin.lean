import SelectionLadder.Proofs.Ladder.Shrinking

/-!
# The origin stays

A command that selects something selects a range that holds the origin, so the origin is still in
effect at the next command.

* `Scene.holds_of_decide` is what one decision does.  Expanding selects more than is selected.
  Shrinking selects the meet of the selection with a unit of the text, the word or a node, and each
  of them holds the origin, though nodes are looked up at the start of the word
  (`Scene.holds_of_shrinkStructural`).
* `Engine.IsAround` is the invariant, `IsAround.handle` the step and `IsAround.run` the run.  A host
  may change the selection in between if the origin stays inside.
* `Engine.origin_stays` says this of the engines that settings and events lead to.
-/

namespace SelectionLadder

/-! ## Decisions -/

/-- What shrinking selects, if it is no caret, is its target before carets are told apart. -/
theorem Snapshot.target_shrinkTarget {s : Snapshot} {r : Range} (h : s.shrink.target = some r)
    (hr : ¬ r.IsEmpty) : s.shrinkTarget.target = some r := by
  cases htarget : s.shrinkTarget.target with
  | none => simp [shrink, htarget] at h
  | some u =>
    rw [shrink_of_target htarget] at h
    split at h
    · obtain rfl := Option.some.inj h
      exact absurd (Range.isEmpty_caret s.origin) hr
    · rw [← htarget, h]

namespace Scene

variable {scene : Scene} {o : Outline} {p : Position} {r s : Range}

/-- A node that is not passed over holds the origin, or lies in the word. -/
theorem holds_or_of_mem_chainAt (hwords : scene.WordsStayInside) (hsound : o.IsSound)
    (hlength : o.length = scene.text.length) (hinside : scene.text.Inside p) {u : Range}
    (hu : u ∈ o.chainAt scene.text (scene.text.offsetAt (scene.wordAt p).start))
    (hcrosses : ¬ u.Crosses (scene.wordAt p)) :
    u.Holds p ∨ (scene.wordAt p).Contains u := by
  have hword := isWordAt_wordAt hwords p
  by_cases hempty : (scene.wordAt p).IsEmpty
  · rw [hword.eq_caret hempty, Range.caret_start] at hu
    exact Or.inl (hsound.holds_of_mem_chainAt hinside hu)
  · rcases contains_or_of_mem_chainAt hwords hsound hlength hempty hu hcrosses with hover | hunder
    · exact Or.inl (hover.holds hword.holds)
    · exact Or.inr hunder

/-- What shrinking by an outline selects holds the origin.  Of a node that lies in the word it could
only be all of the word that is selected, as a smaller part gives way to that. -/
theorem holds_of_shrinkStructural (hwords : scene.WordsStayInside) (hsound : o.IsSound)
    (hlength : o.length = scene.text.length) (hinside : scene.text.Inside p) (hp : r.Holds p)
    (hne : ¬ r.IsEmpty) {blocks : Option Range}
    (ht : ((scene.snapshot r p).shrinkStructural
      ⟨o.chainAt scene.text (scene.text.offsetAt (scene.wordAt p).start), blocks⟩).target =
        some s) :
    s.Holds p := by
  have hword := isWordAt_wordAt hwords p
  by_cases hwithin : (scene.wordAt p).Contains r
  · rw [Snapshot.shrinkStructural, snapshot_selection, snapshot_word, if_neg hne,
      if_pos hwithin] at ht
    obtain rfl := Option.some.inj ht
    exact Range.contains_caret.1 (Range.contains_refl _)
  rcases Snapshot.shrinkStructural_cases (s := scene.snapshot r p)
      ⟨o.chainAt scene.text (scene.text.offsetAt (scene.wordAt p).start), blocks⟩ hne hwithin with
    ⟨part, hpart, htarget⟩ | ⟨part, hnode, hlarger, htarget⟩ | ⟨-, hcursor⟩
  · obtain rfl := Option.some.inj (htarget.symm.trans ht)
    obtain ⟨hmeet, -⟩ := Snapshot.innerPart?_eq_some_iff.1 hpart
    exact Range.holds_of_intersection hmeet hword.holds hp
  · obtain rfl := Option.some.inj (htarget.symm.trans ht)
    obtain ⟨u, hu, hpart⟩ := List.exists_of_findSome?_eq_some hnode
    rw [List.mem_filter, List.mem_reverse, snapshot_word, decide_eq_true_eq] at hu
    obtain ⟨hmeet, -⟩ := Snapshot.innerPart?_eq_some_iff.1 hpart
    rw [snapshot_selection] at hmeet
    rcases holds_or_of_mem_chainAt hwords hsound hlength hinside hu.1 hu.2 with hholds | hunder
    · exact Range.holds_of_intersection hmeet hholds hp
    · obtain ⟨hpartNe, hcontains, hselected⟩ := Range.intersection_spec hmeet
      have hless : (scene.wordAt p).Contains part := hunder.trans hcontains
      obtain ⟨whole, hwhole⟩ := Range.exists_intersection hpartNe hless hselected
      have hinner : (scene.snapshot r p).innerPart? (scene.wordAt p) = some whole := by
        obtain ⟨-, hin, hwhole'⟩ := Range.intersection_spec hwhole
        refine Snapshot.innerPart?_eq_some_iff.2 ⟨hwhole, hwhole', ?_⟩
        rintro rfl
        exact hwithin hin
      have hover := Range.contains_of_intersection hwhole hless hselected
      have heq := hover.eq_of_not_strictlyContains (hlarger whole hinner)
      rw [← heq]
      exact Range.holds_of_intersection hwhole hword.holds hp
  · rw [hcursor] at ht
    obtain rfl := Option.some.inj ht
    exact Range.contains_caret.1 (Range.contains_refl _)

/-- What shrinking selects holds the origin. -/
theorem holds_of_shrink (hwords : scene.WordsStayInside) (houtline : scene.OutlineFits)
    (hinside : scene.text.Inside p) (hr : scene.text.Has r) (hp : r.Holds p) (hne : ¬ r.IsEmpty)
    (ht : (scene.snapshot r p).shrink.target = some s) (hs : ¬ s.IsEmpty) : s.Holds p := by
  cases ho : scene.outline with
  | none =>
    obtain ⟨-, hmeet⟩ := intersection_of_target_shrink ho hwords hr hp hne ht hs
    exact Range.holds_of_intersection hmeet (unitBelow_holds hwords hinside) hp
  | some o =>
    obtain ⟨hsound, hlength⟩ := houtline o ho
    have htarget := Snapshot.target_shrinkTarget ht hs
    rw [Snapshot.shrinkTarget, snapshot_surroundings_eq hwords ho] at htarget
    exact holds_of_shrinkStructural hwords hsound hlength hinside hp hne htarget

/-- What expanding selects contains the selection, and so it holds the origin. -/
theorem holds_of_expand (hwords : scene.WordsStayInside) (houtline : scene.OutlineFits)
    (hr : scene.text.Has r) (hp : r.Holds p) :
    ∃ s, (scene.snapshot r p).expand.target = some s ∧
      (scene.snapshot r p).expand.originAfter p = some p ∧ scene.text.Has s ∧ s.Holds p := by
  rcases expand_grows hwords (fun o ho => (houtline o ho).1) hr hp with
    hdocument | ⟨s, htarget, hhas, hlarger⟩
  · rw [hdocument]
    exact ⟨_, rfl, rfl, scene.text.has_documentRange, (Text.documentRange_contains hr).holds hp⟩
  · exact ⟨s, htarget, Decision.originAfter_of_target htarget hlarger.not_isEmpty p, hhas,
      hlarger.1.holds hp⟩

/-- A command does nothing, restores the cursor to the origin, or keeps the origin and selects a
range of the text that holds it. -/
theorem holds_of_decide (hwords : scene.WordsStayInside) (houtline : scene.OutlineFits)
    (hinside : scene.text.Inside p) (hr : scene.text.Has r) (hp : r.Holds p) (c : Command) :
    c.decide (scene.snapshot r p) = .noOp ∨ c.decide (scene.snapshot r p) = .restoreCursor p ∨
      ∃ s, (c.decide (scene.snapshot r p)).target = some s ∧
        (c.decide (scene.snapshot r p)).originAfter p = some p ∧ scene.text.Has s ∧ s.Holds p := by
  cases c with
  | expand => exact Or.inr (Or.inr (holds_of_expand hwords houtline hr hp))
  | shrink =>
    by_cases hempty : r.IsEmpty
    · exact Or.inl (Snapshot.shrink_of_isEmpty hempty)
    have hshrinks := shrink_shrinks hwords houtline hr hp hempty
    have hholds := fun s => holds_of_shrink (s := s) hwords houtline hinside hr hp hempty
    rw [Command.decide]
    generalize (scene.snapshot r p).shrink = d at hshrinks hholds
    cases hshrinks with
    | cursor _ => exact Or.inr (Or.inl rfl)
    | part htarget hne hhas _ _ _ =>
      exact Or.inr (Or.inr ⟨_, htarget, Decision.originAfter_of_target htarget hne p, hhas,
        hholds _ htarget hne⟩)

end Scene

/-! ## Runs -/

/-- The event leaves the text and what commands go by as they are, and if it changes the selection
then to one of the text that holds the position. -/
def Event.KeepsAround (t : Text) (p : Position) : Event → Prop
  | .command _ => True
  | .setSelection anchor head => (Range.spanning (t.clamp anchor) (t.clamp head)).Holds p
  | _ => False

/-- An origin that the selection holds is in effect. -/
theorem Buffer.inEffect_of_holds {b : Buffer} {p : Position} (h : b.selection.Holds p) :
    Origin.inEffect (some p) b.selection b.anchor = p := by
  by_cases hempty : b.selection.IsEmpty
  · rw [Origin.inEffect_of_isEmpty hempty]
    exact anchor_eq_of_selection_eq_caret (hempty.eq_caret_of_holds h)
  · exact Origin.inEffect_some hempty h _

namespace Engine

variable {e e' : Engine} {scene : Scene} {version : Nat} {p : Position} {r : Range} {b b' : Buffer}

/-- Commands see the same of buffers with the same text and version. -/
theorem scene_congr (e : Engine) (htext : b'.text = b.text) (hversion : b'.version = b.version) :
    e.scene b' = e.scene b := by
  simp only [scene, outlineInEffect, currentOutline, cachedOutline?, builtOutline?, htext,
    hversion]

/-- The engine stands somewhere with its stored origin in effect. -/
def IsAround (e : Engine) (scene : Scene) (version : Nat) (p : Position) : Prop :=
  e.origin = some p ∧ ∃ r, e.StandsAt scene version p r

theorem isAround (hb : e.editor = some b) (horigin : e.origin = some p)
    (hp : b.selection.Holds p) : e.IsAround (e.scene b) b.version p := by
  refine ⟨horigin, b.selection, b, hb, rfl, rfl, rfl, ?_⟩
  rw [horigin]
  exact Buffer.inEffect_of_holds hp

theorem IsAround.exists_editor (h : e.IsAround scene version p) :
    ∃ b, e.editor = some b ∧ b.text = scene.text ∧ b.selection.Holds p := by
  obtain ⟨-, r, hstands⟩ := h
  have hholds := hstands.holds
  obtain ⟨b, hb, rfl, -, rfl, -⟩ := hstands
  exact ⟨b, hb, rfl, hholds⟩

/-- The step of a command.  It is decided with the origin in effect, which it stores unless it
restores the cursor. -/
theorem StandsAt.handle_command (h : e.StandsAt scene version p r)
    (hwords : scene.WordsStayInside) (houtline : scene.OutlineFits)
    (hinside : scene.text.Inside p) (c : Command) :
    (e.handle (.command c)).1 = .ok (some (c.decide (scene.snapshot r p))) ∧
      (c.decide (scene.snapshot r p) = .restoreCursor p ∨
        (e.handle (.command c)).2.IsAround scene version p) := by
  have hstored : ∀ d e', e.run c.decide = .ok (d, e') → e'.origin = d.originAfter p := by
    intro d e' hrun
    obtain ⟨b, hb, rfl, rfl, rfl, horigin⟩ := h
    rw [run_eq_follow hb c.decide horigin rfl] at hrun
    obtain ⟨rfl, rfl⟩ := Prod.mk.inj (Except.ok.inj hrun)
    rfl
  have hhandle : ∀ d e', e.run c.decide = .ok (d, e') →
      e.handle (.command c) = (.ok (some d), e') := by
    intro d e' hrun
    simp only [Engine.handle, perform_eq_run, hrun]
  rcases Scene.holds_of_decide hwords houtline hinside h.has h.holds c with
    hnone | hcursor | ⟨s, htarget, horigin, hhas, hholds⟩
  · obtain ⟨e', hrun, -, hstands⟩ :=
      h.run_of_target_eq_none c.decide (by rw [hnone, Decision.target])
    rw [hhandle _ _ hrun, hnone]
    exact ⟨rfl, Or.inr ⟨hstored _ _ hrun, r, hstands⟩⟩
  · obtain ⟨e', hrun, -, -⟩ := h.run_of_restoreCursor c.decide hcursor
    rw [hhandle _ _ hrun, hcursor]
    exact ⟨rfl, Or.inl rfl⟩
  · obtain ⟨e', hrun, hstands⟩ := h.run c.decide htarget hhas hholds
    rw [hhandle _ _ hrun]
    exact ⟨rfl, Or.inr ⟨(hstored _ _ hrun).trans horigin, s, hstands⟩⟩

/-- The step of a host that selects something around the origin. -/
theorem IsAround.setSelection (h : e.IsAround scene version p) {anchor head : Position}
    (hholds : (Range.spanning (scene.text.clamp anchor) (scene.text.clamp head)).Holds p) :
    (e.mapEditor (·.setSelection anchor head)).IsAround scene version p := by
  obtain ⟨horigin, r, b, hb, rfl, rfl, -, -⟩ := h
  have heditor : (e.mapEditor (·.setSelection anchor head)).editor =
      some (b.setSelection anchor head) := by
    rw [mapEditor, hb]
    rfl
  have haround := isAround heditor horigin hholds
  have hscene : (e.mapEditor (·.setSelection anchor head)).scene (b.setSelection anchor head) =
      e.scene b := by
    have hmap : e.mapEditor (·.setSelection anchor head) =
        { e with editor := some (b.setSelection anchor head), origin := e.origin } := by
      simp only [mapEditor, hb, Option.map_some]
    rw [hmap, scene_with]
    exact e.scene_congr rfl rfl
  rw [hscene] at haround
  exact haround

/-- The step. -/
theorem IsAround.handle (h : e.IsAround scene version p) (hwords : scene.WordsStayInside)
    (houtline : scene.OutlineFits) (hinside : scene.text.Inside p) {event : Event}
    (hevent : event.KeepsAround scene.text p) :
    (∃ d, (e.handle event).1 = .ok d) ∧
      ((e.handle event).1 = .ok (some (.restoreCursor p)) ∨
        (e.handle event).2.IsAround scene version p) := by
  cases event with
  | setSelection anchor head => exact ⟨⟨none, rfl⟩, Or.inr (h.setSelection hevent)⟩
  | command c =>
    obtain ⟨-, r, hstands⟩ := h
    obtain ⟨hreply, hafter⟩ := hstands.handle_command hwords houtline hinside c
    refine ⟨⟨_, hreply⟩, hafter.imp_left ?_⟩
    intro hcursor
    rw [hreply, hcursor]
  | _ => exact hevent.elim

/-- The run: while no command restores the cursor, the origin stays and is in the selection. -/
theorem IsAround.run (h : e.IsAround scene version p) (hwords : scene.WordsStayInside)
    (houtline : scene.OutlineFits) (hinside : scene.text.Inside p) {events : List Event}
    (hevents : ∀ event ∈ events, event.KeepsAround scene.text p)
    (hcursor : ∀ seen ∈ observations Engine.handle e events,
      seen.reply ≠ .ok (some (.restoreCursor p))) :
    (∀ seen ∈ observations Engine.handle e events,
      (∃ d, seen.reply = .ok d) ∧ seen.origin = some p ∧
      ∃ b, seen.editor = some b ∧ b.text = scene.text ∧ b.selection.Holds p) ∧
    (e.after events).IsAround scene version p := by
  induction events generalizing e with
  | nil => exact ⟨by simp [Engine.observations], h⟩
  | cons event events ih =>
    simp only [Engine.observations, List.forall_mem_cons] at hevents hcursor ⊢
    obtain ⟨hreply, hafter⟩ := h.handle hwords houtline hinside hevents.1
    have haround := hafter.resolve_left hcursor.1
    obtain ⟨hrest, hlast⟩ := ih haround hevents.2 hcursor.2
    exact ⟨⟨⟨hreply, haround.1, haround.exists_editor⟩, hrest⟩, hlast⟩

/-! ## Engines -/

/-- An event in which the host supplies no other outlines than valid ones leads on. -/
theorem Reached.handle (h : Reached e) {event : Event}
    (hvalid : ∀ o, event = .setOutline (some o) → o.validate = .ok ()) :
    Reached (e.handle event).2 := by
  cases event with
  | setEditor editor =>
    cases editor with
    | none => exact h
    | some b => exact h.setEditor b
  | setOutline outline =>
    refine h.setOutline ?_
    intro o ho
    exact hvalid o (by rw [ho])
  | setSource source => exact h.setSource source
  | setOrigin origin => exact h.setOrigin origin
  | setText text => exact h.mapEditor _
  | setCursor p => exact h.mapEditor _
  | setSelection anchor head => exact h.mapEditor _
  | command c =>
    simp only [Engine.handle]
    split
    · rename_i d e' hperform
      rw [perform_eq_run] at hperform
      exact h.run hperform
    · exact h

theorem Reached.after (h : Reached e) {events : List Event}
    (hvalid : ∀ o, Event.setOutline (some o) ∈ events → o.validate = .ok ()) :
    Reached (e.after events) := by
  induction events generalizing e with
  | nil => exact h
  | cons event events ih =>
    refine ih (h.handle ?_) fun o ho => hvalid o (List.mem_cons_of_mem _ ho)
    rintro o rfl
    exact hvalid o List.mem_cons_self

/-- A command that leaves an origin stored has found it in effect. -/
theorem origin_of_command (hb : e.editor = some b) {c : Command}
    (horigin : (e.handle (.command c)).2.origin = some p) :
    e.origin.inEffect b.selection b.anchor = p := by
  rw [handle_command_eq hb c rfl rfl] at horigin
  generalize c.decide ((e.scene b).snapshot b.selection
    (e.origin.inEffect b.selection b.anchor)) = d at horigin
  cases d with
  | restoreCursor q => exact absurd horigin (by simp [Decision.originAfter])
  | _ => exact Option.some.inj horigin

/-- So it leaves the origin in the selection, if that is a position of the text. -/
theorem holds_of_command (h : Reached e) (hcache : e.CacheAgrees) {c : Command}
    (hb : (e.handle (.command c)).2.editor = some b)
    (horigin : (e.handle (.command c)).2.origin = some p) (hinside : b.text.Inside p) :
    b.selection.Holds p := by
  cases hb₀ : e.editor with
  | none =>
    rw [handle_command_of_editor_eq_none hb₀, hb₀] at hb
    cases hb
  | some b₀ =>
    have hstands := standsAt hb₀
    rw [origin_of_command hb₀ horigin] at hstands
    have htext : b.text = b₀.text := by
      rw [handle_command_eq hb₀ c rfl rfl] at hb
      rw [← Option.some.inj hb, Buffer.follow_text]
    have hinside₀ : (e.scene b₀).text.Inside p := by
      show b₀.text.Inside p
      rw [← htext]
      exact hinside
    obtain ⟨-, hafter⟩ := hstands.handle_command (wordsStayInside_scene h.staysInside b₀)
      (outlineFits_scene hb₀ h.validate_outline hcache) hinside₀ c
    rcases hafter with hcursor | haround
    · rw [handle_command_eq hb₀ c (origin_of_command hb₀ horigin) hcursor] at horigin
      cases horigin
    · obtain ⟨b', hb', -, hholds⟩ := haround.exists_editor
      obtain rfl := Option.some.inj (hb.symm.trans hb')
      exact hholds

/-- Whatever the settings are and whatever has happened to the engine: suppose that its origin is a
position of the text, and that the last event was a command or the selection holds the origin.  Then
the selection holds the origin.  While there are only commands that do not restore the cursor and
selections of the host that hold the origin, it stays so and the origin stays stored.  The next
command is decided with this origin. -/
theorem origin_stays {settings : Settings} (hsettings : ofSettings settings = .ok e)
    {history : List Event}
    (hvalid : ∀ o, Event.setOutline (some o) ∈ history → o.validate = .ok ())
    (hb : (e.after history).editor = some b) (horigin : (e.after history).origin = some p)
    (hinside : b.text.Inside p)
    (hstart : (∃ events c, history = events ++ [.command c]) ∨ b.selection.Holds p) :
    b.selection.Holds p ∧
      ∀ events : List Event, (∀ event ∈ events, event.KeepsAround b.text p) →
        (∀ seen ∈ observations handle (e.after history) events,
          ∀ q, seen.reply ≠ .ok (some (.restoreCursor q))) →
        (∀ seen ∈ observations handle (e.after history) events, (∃ d, seen.reply = .ok d) ∧
          seen.origin = some p ∧
          ∃ b', seen.editor = some b' ∧ b'.text = b.text ∧ b'.selection.Holds p) ∧
        ∃ b', ((e.after history).after events).editor = some b' ∧
          ∀ c, (((e.after history).after events).handle (.command c)).1 =
            .ok (some (c.decide (((e.after history).scene b).snapshot b'.selection p))) := by
  have hreached : Reached (e.after history) := (Reached.ofSettings hsettings).after hvalid
  have hcache : (e.after history).CacheAgrees := (cacheAgrees_of_ofSettings hsettings).after history
  have hholds : b.selection.Holds p := by
    rcases hstart with ⟨earlier, c, rfl⟩ | hholds
    · have hlast : e.after (earlier ++ [.command c]) =
          ((e.after earlier).handle (.command c)).2 := by
        rw [after, List.foldl_append]
        rfl
      rw [hlast] at hb horigin
      refine holds_of_command ((Reached.ofSettings hsettings).after ?_)
        ((cacheAgrees_of_ofSettings hsettings).after earlier) hb horigin hinside
      exact fun o ho => hvalid o (List.mem_append_left _ ho)
    · exact hholds
  refine ⟨hholds, ?_⟩
  intro events hevents hcursor
  have hwords := wordsStayInside_scene hreached.staysInside b
  have houtline := outlineFits_scene hb hreached.validate_outline hcache
  obtain ⟨hseen, haround⟩ := (isAround hb horigin hholds).run hwords houtline hinside hevents
    fun seen hseen => hcursor seen hseen p
  refine ⟨hseen, ?_⟩
  obtain ⟨-, r, hstands⟩ := haround
  have hreplies := fun c => (hstands.handle_command hwords houtline hinside c).1
  obtain ⟨b', hb', -, -, rfl, -⟩ := hstands
  exact ⟨b', hb', hreplies⟩

end Engine

/-- A host supplies an outline, and the word at the caret is selected. -/
def wordSelected : List Event :=
  [.setEditor (some (.ofText (.ofChars "ab cd\nef".toList))),
   .setOutline (some (.ofTree 8 ⟨⟨.document, 0, 8⟩, 0, 8⟩
     (.tree ⟨⟨.paragraph, 1, 5⟩, 1, 5⟩ .empty .empty))),
   .setCursor ⟨0, 5⟩, .command .expand]

/-- More is selected by hand, from the end to the start, and then less again. -/
def draggedOver : List Event :=
  [.setSelection ⟨1, 1⟩ ⟨0, 1⟩, .command .shrink, .command .shrink]

theorem origin_stays_draggedOver :
    ∃ e b, Engine.ofSettings {} = .ok e ∧ (e.after wordSelected).editor = some b ∧
      (e.after wordSelected).origin = some ⟨0, 5⟩ ∧ b.text.Inside ⟨0, 5⟩ ∧
      b.selection.Holds ⟨0, 5⟩ ∧
      ∀ seen ∈ Engine.observations Engine.handle (e.after wordSelected) draggedOver,
        seen.origin = some ⟨0, 5⟩ := by
  obtain ⟨b, hb⟩ : ∃ b, (({} : Engine).after wordSelected).editor = some b :=
    Option.isSome_iff_exists.1 (by decide +kernel)
  have horigin : (({} : Engine).after wordSelected).origin = some ⟨0, 5⟩ := by decide +kernel
  have hvalid : ∀ o, Event.setOutline (some o) ∈ wordSelected → o.validate = .ok () := by
    simp only [wordSelected, List.mem_cons, List.not_mem_nil, or_false, reduceCtorEq, false_or,
      Event.setOutline.injEq, Option.some.injEq]
    rintro o rfl
    decide +kernel
  have hfits : ∀ b ∈ (({} : Engine).after wordSelected).editor, b.text.Inside ⟨0, 5⟩ ∧
      (Range.spanning (b.text.clamp ⟨1, 1⟩) (b.text.clamp ⟨0, 1⟩)).Holds ⟨0, 5⟩ := by
    decide +kernel
  obtain ⟨hinside, hdragged⟩ := hfits b hb
  have haround : ∀ event ∈ draggedOver, event.KeepsAround b.text ⟨0, 5⟩ := by
    simp only [draggedOver, List.forall_mem_cons, Event.KeepsAround]
    exact ⟨hdragged, trivial, trivial, by simp⟩
  have hreplies : (Engine.observations Engine.handle (({} : Engine).after wordSelected)
      draggedOver).map (·.reply) =
        [.ok none, .ok (some (.selectNode (.spanning ⟨0, 1⟩ ⟨0, 5⟩))),
          .ok (some (.selectWord (.spanning ⟨0, 3⟩ ⟨0, 5⟩)))] := by
    decide +kernel
  have hcursor : ∀ seen ∈ Engine.observations Engine.handle (({} : Engine).after wordSelected)
      draggedOver, ∀ q, seen.reply ≠ .ok (some (.restoreCursor q)) := by
    intro seen hseen q hq
    have hmem := List.mem_map_of_mem (f := (·.reply)) hseen
    rw [hreplies, hq] at hmem
    simp at hmem
  have hsettings : Engine.ofSettings {} = .ok {} := rfl
  obtain ⟨hholds, hrun⟩ := Engine.origin_stays hsettings hvalid hb horigin hinside
    (Or.inl ⟨wordSelected.dropLast, .expand, rfl⟩)
  obtain ⟨hseen, -⟩ := hrun draggedOver haround hcursor
  exact ⟨{}, b, rfl, hb, horigin, hinside, hholds, fun seen h => (hseen seen h).2.1⟩

end SelectionLadder
