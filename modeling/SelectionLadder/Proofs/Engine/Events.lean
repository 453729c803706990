import SelectionLadder.Proofs.Engine.Run

/-!
# Events

Everything that happens to an engine: what the host supplies, what it does to the buffer that is
bound, and the commands.  `Engine.handle` is one event, and `Engine.after` a run of them.

The cache is the part of an engine that events could spoil.  `Engine.CacheAgrees` is its invariant:
an outline that is cached for the present version of the buffer is the one that the source gives for
the buffer now, and none is cached for a later version.  `CacheAgrees.handle` is the step, one case
for each event, and `CacheAgrees.after` the run.
-/

namespace SelectionLadder

/-- What happens to an engine. -/
inductive Event where
  | setEditor (editor : Option Buffer)
  | setOutline (outline : Option Outline)
  | setSource (source : Option SpanSource)
  | setOrigin (origin : Origin)
  /-- The text of the bound buffer is replaced. -/
  | setText (text : Text)
  /-- The caret of the bound buffer is put somewhere. -/
  | setCursor (p : Position)
  /-- Something is selected in the bound buffer. -/
  | setSelection (anchor head : Position)
  | command (c : Command)

/-- What the host is told of an event: a decision if it was a command, or an error. -/
abbrev Reply := Except EngineError (Option Decision)

/-- How the command decides. -/
def Command.decide : Command → Snapshot → Decision
  | .expand => Snapshot.expand
  | .shrink => Snapshot.shrink

namespace Engine

variable {e e' : Engine} {b : Buffer} {source : SpanSource} {o : Outline}

/-- One event: the reply to the host, and the engine after it. -/
def handle (e : Engine) : Event → Reply × Engine
  | .setEditor editor =>
    match e.bind editor with
    | .ok e' => (.ok none, e')
    | .error error => (.error error, e)
  | .setOutline outline => (.ok none, e.setOutline outline)
  | .setSource source => (.ok none, e.setSource source)
  | .setOrigin origin => (.ok none, e.setOrigin origin)
  | .setText text => (.ok none, e.mapEditor (·.setText text))
  | .setCursor p => (.ok none, e.mapEditor (·.setCursor p))
  | .setSelection anchor head => (.ok none, e.mapEditor (·.setSelection anchor head))
  | .command c =>
    match e.perform c with
    | .ok (d, e') => (.ok (some d), e')
    | .error error => (.error error, e)

/-- The engine after a run of events. -/
def after (e : Engine) (events : List Event) : Engine :=
  events.foldl (fun e event => (e.handle event).2) e

theorem after_cons (e : Engine) (event : Event) (events : List Event) :
    e.after (event :: events) = (e.handle event).2.after events := rfl

theorem perform_eq_run (e : Engine) (c : Command) : e.perform c = e.run c.decide := by
  cases c <;> rfl

/-- A command without an editor changes nothing. -/
theorem handle_command_of_editor_eq_none (hb : e.editor = none) (c : Command) :
    e.handle (.command c) = (.error .notConfigured, e) := by
  simp only [handle, perform_eq_run, run, hb]

/-- A command with an editor looks up the outline and follows its decision. -/
theorem handle_command_eq (hb : e.editor = some b) (c : Command) {p : Position}
    (hp : e.origin.inEffect b.selection b.anchor = p) {d : Decision}
    (hd : c.decide ((e.scene b).snapshot b.selection p) = d) :
    e.handle (.command c) = (.ok (some d),
      { e.looked b with editor := some (b.follow d), origin := d.originAfter p }) := by
  simp only [handle, perform_eq_run, run_eq_follow hb c.decide hp hd]

/-! ## The invariant of the cache -/

/-- What is cached is cached for the source and for the present version of the buffer or an earlier
one, and in the first case it is what the source gives for the buffer. -/
def CacheAgrees (e : Engine) : Prop :=
  ∀ c ∈ e.cache, ∃ b source, e.editor = some b ∧ e.source = some source ∧
    c.version ≤ b.version ∧ (c.version = b.version → e.builtOutline? source b = some c.outline)

theorem cacheAgrees_of_cache_eq_none (h : e.cache = none) : e.CacheAgrees := by
  intro c hc
  exact absurd hc (by simp [h])

theorem cacheAgrees_of_ofSettings {settings : Settings} (h : ofSettings settings = .ok e) :
    e.CacheAgrees := by
  obtain ⟨m, -, rfl⟩ := exists_eq_of_ofSettings h
  exact cacheAgrees_of_cache_eq_none rfl

/-- What is found in the cache is what the source gives. -/
theorem CacheAgrees.builtOutline?_eq (h : e.CacheAgrees) (hb : e.editor = some b)
    (hsource : e.source = some source) (ho : e.cachedOutline? b = some o) :
    e.builtOutline? source b = some o := by
  obtain ⟨c, hc, rfl⟩ := Option.map_eq_some_iff.1 ho
  obtain ⟨hc, hversion⟩ := Option.filter_eq_some_iff.1 hc
  obtain ⟨b', source', hb', hsource', -, hbuilt⟩ := h c hc
  obtain rfl := Option.some.inj (hb.symm.trans hb')
  obtain rfl := Option.some.inj (hsource.symm.trans hsource')
  exact hbuilt (by simpa using hversion)

/-- Looking up the outline caches what the source gives for the buffer. -/
theorem CacheAgrees.currentOutline (h : e.CacheAgrees) (hb : e.editor = some b) :
    (e.currentOutline b).2.CacheAgrees := by
  unfold Engine.currentOutline
  split
  · exact h
  · split
    · exact h
    · rename_i source hsource
      split
      · exact h
      · intro c hc
        obtain ⟨o, ho, rfl⟩ := Option.map_eq_some_iff.1 hc
        exact ⟨b, source, hb, hsource, Nat.le_refl _, fun _ => ho⟩

theorem CacheAgrees.looked (h : e.CacheAgrees) (hb : e.editor = some b) :
    (e.looked b).CacheAgrees := by
  unfold Engine.looked
  split
  · exact h.currentOutline hb
  · exact h

/-- A buffer with the same text and version does not matter to the cache, and neither does the
origin. -/
theorem CacheAgrees.with_editor (h : e.CacheAgrees) (hb : e.editor = some b) {b' : Buffer}
    (htext : b'.text = b.text) (hversion : b'.version = b.version) (origin : Origin) :
    { e with editor := some b', origin }.CacheAgrees := by
  intro c hc
  obtain ⟨b₀, source, hb₀, hsource, hle, hbuilt⟩ := h c hc
  obtain rfl := Option.some.inj (hb.symm.trans hb₀)
  refine ⟨b', source, rfl, hsource, ?_, ?_⟩
  · rw [hversion]
    exact hle
  · intro heq
    rw [hversion] at heq
    rw [← hbuilt heq]
    simp only [builtOutline?, htext]

/-- Selecting something in the buffer does not matter to the cache. -/
theorem CacheAgrees.mapEditor_setSelection (h : e.CacheAgrees) (anchor head : Position) :
    (e.mapEditor (·.setSelection anchor head)).CacheAgrees := by
  cases hb : e.editor with
  | none =>
    intro c hc
    obtain ⟨b, -, hb', -⟩ := h c hc
    exact absurd hb' (by simp [hb])
  | some b =>
    have heq : e.mapEditor (·.setSelection anchor head) =
        { e with editor := some (b.setSelection anchor head), origin := e.origin } := by
      simp only [mapEditor, hb, Option.map_some]
    have htext : (b.setSelection anchor head).text = b.text := rfl
    rw [heq]
    exact h.with_editor hb htext rfl e.origin

/-- With a new text the buffer has a later version than any cached outline. -/
theorem CacheAgrees.mapEditor_setText (h : e.CacheAgrees) (text : Text) :
    (e.mapEditor (·.setText text)).CacheAgrees := by
  intro c hc
  obtain ⟨b, source, hb, hsource, hle, -⟩ := h c hc
  refine ⟨b.setText text, source, ?_, hsource, Nat.le_succ_of_le hle, ?_⟩
  · simp only [mapEditor, hb, Option.map_some]
  · intro heq
    simp only [Buffer.setText] at heq
    omega

/-- The step: every event keeps the invariant. -/
theorem CacheAgrees.handle (h : e.CacheAgrees) (event : Event) :
    (e.handle event).2.CacheAgrees := by
  cases event with
  | setEditor editor =>
    cases editor with
    | none => exact h
    | some b => exact cacheAgrees_of_cache_eq_none rfl
  | setOutline outline => exact h
  | setSource source => exact cacheAgrees_of_cache_eq_none rfl
  | setOrigin origin => exact h
  | setText text => exact h.mapEditor_setText text
  | setCursor p => exact h.mapEditor_setSelection p p
  | setSelection anchor head => exact h.mapEditor_setSelection anchor head
  | command c =>
    cases hb : e.editor with
    | none =>
      rw [handle_command_of_editor_eq_none hb]
      exact h
    | some b =>
      rw [handle_command_eq hb c rfl rfl]
      obtain ⟨cache, sourceCalls, hlooked⟩ := e.exists_looked b
      have heditor : (e.looked b).editor = some b := by
        rw [hlooked]
        exact hb
      exact (h.looked hb).with_editor heditor (b.follow_text _) (b.follow_version _) _

theorem CacheAgrees.after (h : e.CacheAgrees) (events : List Event) :
    (e.after events).CacheAgrees := by
  induction events generalizing e with
  | nil => exact h
  | cons event events ih => exact ih (h.handle event)

end Engine

end SelectionLadder
