import SelectionLadder.Proofs.Engine.Events
import SelectionLadder.Source.Lines

/-!
# Caching cannot be observed

An engine keeps the outline that it has built from a source.  Nobody who sees the replies, the
editor and the origin can tell it from an engine that builds the outline again for every command.

* `Engine.SameButCache` relates two engines that differ in the cache and in the count of calls to
  the source only.  `SameButCache.handle` is the step: if both caches agree with what the source
  gives, one event leads to the same reply and to such engines again.
* `observations_eq_of_sameButCache` is the run.
* `handleAfresh_command` says what the other engine goes by: the outline of the host, or the one that
  the source gives for the text of the moment (`Engine.freshOutline`).
* `Engine.Keeps` is what an event leaves as it is, unless it resets the cache.  Between two resets
  the source is asked once at most (`sourceCalls_after_le`), because what it gives stays cached.
* `Engine.caching_unobservable` puts this together for the engines that settings give.
-/

namespace SelectionLadder

/-- What the host sees of an event: the reply, and the editor and the origin after it. -/
structure Observation where
  reply : Reply
  editor : Option Buffer
  origin : Origin

/-- The event empties the cache, or leaves it without use. -/
def Event.Resets : Event → Prop
  | setEditor (some _) | setSource _ | setText _ => True
  | _ => False

namespace Engine

variable {e e' : Engine} {b : Buffer} {source : SpanSource} {event : Event} {events : List Event}

/-- One event for an engine that has forgotten what it had cached. -/
def handleAfresh (e : Engine) (event : Event) : Reply × Engine :=
  { e with cache := none }.handle event

/-- What the host sees of a run, if events are handled this way. -/
def observations (handle : Engine → Event → Reply × Engine) (e : Engine) :
    List Event → List Observation
  | [] => []
  | event :: events =>
    let (reply, e') := handle e event
    ⟨reply, e'.editor, e'.origin⟩ :: observations handle e' events

/-! ## What a cache is good for -/

/-- The outline to go by where nothing is cached. -/
def freshOutline (e : Engine) (b : Buffer) : Option Outline :=
  match e.outline with
  | some o => if o.length = b.text.length then some o else none
  | none => e.source.bind (e.builtOutline? · b)

/-- The cache does not change which outline is found. -/
theorem CacheAgrees.currentOutline_fst (h : e.CacheAgrees) (hb : e.editor = some b) :
    (e.currentOutline b).1 = e.freshOutline b := by
  unfold Engine.currentOutline freshOutline
  cases houtline : e.outline with
  | some o => rfl
  | none =>
    cases hsource : e.source with
    | none => rfl
    | some source =>
      cases hcached : e.cachedOutline? b with
      | some o => exact (h.builtOutline?_eq hb hsource hcached).symm
      | none => rfl

/-- What commands go by where nothing is cached. -/
def freshScene (e : Engine) (b : Buffer) : Scene :=
  { e.scene b with outline := if e.settings.structural.enabled then e.freshOutline b else none }

theorem scene_of_cache_eq_none (hcache : e.cache = none) (hb : e.editor = some b) :
    e.scene b = e.freshScene b := by
  have houtline := (cacheAgrees_of_cache_eq_none hcache).currentOutline_fst hb
  unfold freshScene scene outlineInEffect
  rw [houtline]

/-- An engine that has forgotten what it had cached decides by the outline of the host, or by the
one that the source gives now. -/
theorem handleAfresh_command (hb : e.editor = some b) (c : Command) :
    (e.handleAfresh (.command c)).1 = .ok (some (c.decide
      ((e.freshScene b).snapshot b.selection (e.origin.inEffect b.selection b.anchor)))) := by
  have hscene : { e with cache := none }.scene b = e.freshScene b :=
    scene_of_cache_eq_none (e := { e with cache := none }) rfl hb
  rw [handleAfresh, handle_command_eq (e := { e with cache := none }) hb c rfl rfl, hscene]

/-! ## Engines that differ in the cache only -/

/-- The engines differ only in what is cached and in how often the source has been asked. -/
def SameButCache (e e' : Engine) : Prop :=
  ∃ cache sourceCalls, e' = { e with cache, sourceCalls }

theorem sameButCache_refl (e : Engine) : e.SameButCache e :=
  ⟨e.cache, e.sourceCalls, rfl⟩

theorem SameButCache.forget (h : e.SameButCache e') : e.SameButCache { e' with cache := none } := by
  obtain ⟨cache, sourceCalls, rfl⟩ := h
  exact ⟨none, sourceCalls, rfl⟩

theorem SameButCache.editor_eq (h : e.SameButCache e') : e'.editor = e.editor := by
  obtain ⟨cache, sourceCalls, rfl⟩ := h
  rfl

theorem SameButCache.origin_eq (h : e.SameButCache e') : e'.origin = e.origin := by
  obtain ⟨cache, sourceCalls, rfl⟩ := h
  rfl

/-- Commands go by the same scene. -/
theorem SameButCache.scene_eq (h : e.SameButCache e') (hcache : e.CacheAgrees)
    (hcache' : e'.CacheAgrees) (hb : e.editor = some b) : e'.scene b = e.scene b := by
  have houtline := hcache.currentOutline_fst hb
  have houtline' := hcache'.currentOutline_fst (h.editor_eq.trans hb)
  obtain ⟨cache, sourceCalls, rfl⟩ := h
  unfold scene outlineInEffect
  rw [houtline, houtline']
  rfl

/-- After looking up the outline the engines differ in the cache only, with any editor and any
origin. -/
theorem SameButCache.looked_with (h : e.SameButCache e') (b : Buffer) (editor : Option Buffer)
    (origin : Origin) :
    { e.looked b with editor, origin }.SameButCache { e'.looked b with editor, origin } := by
  obtain ⟨cache, sourceCalls, rfl⟩ := h
  obtain ⟨cache₁, sourceCalls₁, hlooked₁⟩ := e.exists_looked b
  obtain ⟨cache₂, sourceCalls₂, hlooked₂⟩ := { e with cache, sourceCalls }.exists_looked b
  rw [hlooked₁, hlooked₂]
  exact ⟨cache₂, sourceCalls₂, rfl⟩

/-- The step: to one event such engines reply the same, and they still differ in the cache
only. -/
theorem SameButCache.handle (h : e.SameButCache e') (hcache : e.CacheAgrees)
    (hcache' : e'.CacheAgrees) (event : Event) :
    (e'.handle event).1 = (e.handle event).1 ∧
      (e.handle event).2.SameButCache (e'.handle event).2 := by
  cases event with
  | command c =>
    have horigin := h.origin_eq
    cases hb : e.editor with
    | none =>
      rw [handle_command_of_editor_eq_none hb,
        handle_command_of_editor_eq_none (h.editor_eq.trans hb)]
      exact ⟨rfl, h⟩
    | some b =>
      rw [handle_command_eq hb c rfl rfl,
        handle_command_eq (h.editor_eq.trans hb) c rfl rfl, horigin,
        h.scene_eq hcache hcache' hb]
      exact ⟨rfl, h.looked_with b _ _⟩
  | setEditor editor =>
    obtain ⟨cache, sourceCalls, rfl⟩ := h
    cases editor with
    | none => exact ⟨rfl, cache, sourceCalls, rfl⟩
    | some b => exact ⟨rfl, none, sourceCalls, rfl⟩
  | setSource source =>
    obtain ⟨cache, sourceCalls, rfl⟩ := h
    exact ⟨rfl, none, sourceCalls, rfl⟩
  | setOutline | setOrigin | setText | setCursor | setSelection =>
    obtain ⟨cache, sourceCalls, rfl⟩ := h
    exact ⟨rfl, cache, sourceCalls, rfl⟩

/-- The run: with a cache and without one the host sees the same. -/
theorem observations_eq_of_sameButCache (h : e.SameButCache e') (hcache : e.CacheAgrees)
    (events : List Event) :
    observations handle e events = observations handleAfresh e' events := by
  induction events generalizing e e' with
  | nil => rfl
  | cons event events ih =>
    have hforget : { e' with cache := none }.CacheAgrees := cacheAgrees_of_cache_eq_none rfl
    obtain ⟨hreply, hsame⟩ := h.forget.handle hcache hforget event
    simp only [observations, handleAfresh]
    rw [hreply, hsame.editor_eq, hsame.origin_eq, ih hsame (hcache.handle event)]

/-! ## Calls to the source -/

/-- Looking up the outline asks the source. -/
def Asks (e : Engine) (b : Buffer) : Prop :=
  e.settings.structural.enabled = true ∧ e.outline = none ∧ e.source.isSome ∧
    e.cachedOutline? b = none

instance (e : Engine) (b : Buffer) : Decidable (e.Asks b) :=
  inferInstanceAs (Decidable (_ ∧ _))

theorem looked_eq_of_not_asks (h : ¬ e.Asks b) : e.looked b = e := by
  unfold looked
  split
  · rename_i henabled
    unfold currentOutline
    split
    · rfl
    · rename_i houtline
      split
      · rfl
      · rename_i source hsource
        split
        · rfl
        · rename_i hcached
          exact absurd ⟨henabled, houtline, by simp [hsource], hcached⟩ h
  · rfl

theorem looked_eq_of_asks (h : e.Asks b) :
    ∃ source, e.source = some source ∧ e.looked b =
      { e with
        cache := (e.builtOutline? source b).map fun o => ⟨b.version, o⟩
        sourceCalls := e.sourceCalls + 1 } := by
  obtain ⟨henabled, houtline, hsource, hcached⟩ := h
  obtain ⟨source, hsource⟩ := Option.isSome_iff_exists.1 hsource
  refine ⟨source, hsource, ?_⟩
  simp only [looked, henabled, if_true, currentOutline, houtline, hsource, hcached]

/-- With an outline of the host, or with structure switched off, no event asks the source. -/
theorem sourceCalls_handle (h : e.outline.isSome ∨ e.settings.structural.enabled = false)
    (event : Event) : (e.handle event).2.sourceCalls = e.sourceCalls := by
  cases event with
  | command c =>
    cases hb : e.editor with
    | none => rw [handle_command_of_editor_eq_none hb]
    | some b =>
      have hnot : ¬ e.Asks b := by
        rintro ⟨henabled, houtline, -, -⟩
        rcases h with h | h
        · rw [houtline] at h
          exact absurd h (by simp)
        · rw [henabled] at h
          exact absurd h (by simp)
      rw [handle_command_eq hb c rfl rfl, looked_eq_of_not_asks hnot]
  | setEditor editor => cases editor <;> rfl
  | setSource | setOutline | setOrigin | setText | setCursor | setSelection => rfl

/-! ## Between two resets -/

/-- The engines have the same source and settings, and buffers of the same text and version. -/
structure Keeps (e e' : Engine) : Prop where
  buffer : e'.editor.map (fun b => (b.text, b.version)) =
    e.editor.map fun b => (b.text, b.version)
  source : e'.source = e.source
  settings : e'.settings = e.settings

theorem Keeps.exists_editor (h : e.Keeps e') {b' : Buffer} (hb' : e'.editor = some b') :
    ∃ b, e.editor = some b ∧ b'.text = b.text ∧ b'.version = b.version := by
  have hbuffer := h.buffer
  rw [hb', Option.map_some, eq_comm, Option.map_eq_some_iff] at hbuffer
  obtain ⟨b, hb, heq⟩ := hbuffer
  obtain ⟨htext, hversion⟩ := Prod.mk.inj heq
  exact ⟨b, hb, htext.symm, hversion.symm⟩

theorem keeps_setSelection (e : Engine) (anchor head : Position) :
    e.Keeps (e.mapEditor (·.setSelection anchor head)) where
  buffer := by
    simp only [mapEditor, Option.map_map, Function.comp_def, Buffer.setSelection]
  source := rfl
  settings := rfl

/-- An event that does not reset the cache leaves this as it is. -/
theorem keeps_handle (h : ¬ event.Resets) : e.Keeps (e.handle event).2 := by
  cases event with
  | setEditor editor =>
    cases editor with
    | none => exact ⟨rfl, rfl, rfl⟩
    | some b => exact absurd trivial h
  | setSource source => exact absurd trivial h
  | setText text => exact absurd trivial h
  | setOutline outline => exact ⟨rfl, rfl, rfl⟩
  | setOrigin origin => exact ⟨rfl, rfl, rfl⟩
  | setCursor p => exact e.keeps_setSelection p p
  | setSelection anchor head => exact e.keeps_setSelection anchor head
  | command c =>
    cases hb : e.editor with
    | none =>
      rw [handle_command_of_editor_eq_none hb]
      exact ⟨rfl, rfl, rfl⟩
    | some b =>
      obtain ⟨cache, sourceCalls, hlooked⟩ := e.exists_looked b
      rw [handle_command_eq hb c rfl rfl, hlooked]
      refine ⟨?_, rfl, rfl⟩
      rw [hb, Option.map_some, Option.map_some, Buffer.follow_text, Buffer.follow_version]

/-- The spans that the source finds in the text of the buffer fit it. -/
def SpansBuild (e : Engine) : Prop :=
  ∀ b ∈ e.editor, ∀ source ∈ e.source, (e.builtOutline? source b).isSome

theorem SpansBuild.of_keeps (h : e.SpansBuild) (hkeeps : e.Keeps e') : e'.SpansBuild := by
  intro b' hb' source hsource
  obtain ⟨b, hb, htext, -⟩ := hkeeps.exists_editor hb'
  rw [hkeeps.source] at hsource
  have hbuilt := h b hb source hsource
  simp only [builtOutline?, htext, hkeeps.settings] at hbuilt ⊢
  exact hbuilt

/-- An outline is cached for the present version of the buffer. -/
def IsCached (e : Engine) : Prop := ∃ b, e.editor = some b ∧ (e.cachedOutline? b).isSome

theorem IsCached.of_cache_eq (h : e.IsCached) (hcache : e'.cache = e.cache)
    (hbuffer : e'.editor.map (fun b => (b.text, b.version)) =
      e.editor.map fun b => (b.text, b.version)) : e'.IsCached := by
  obtain ⟨b, hb, hcached⟩ := h
  rw [hb, Option.map_some, Option.map_eq_some_iff] at hbuffer
  obtain ⟨b', hb', heq⟩ := hbuffer
  refine ⟨b', hb', ?_⟩
  simp only [cachedOutline?, hcache, (Prod.mk.inj heq).2] at hcached ⊢
  exact hcached

/-- What one event costs, unless it resets the cache: a call to the source if nothing is cached for
the buffer, after which something is. -/
theorem sourceCalls_handle_of_not_resets (h : ¬ event.Resets) (hbuild : e.SpansBuild) :
    ((e.handle event).2.sourceCalls = e.sourceCalls ∧ (e.IsCached → (e.handle event).2.IsCached)) ∨
      (e.handle event).2.sourceCalls = e.sourceCalls + 1 ∧ ¬ e.IsCached ∧
        (e.handle event).2.IsCached := by
  have hkeeps := keeps_handle (e := e) h
  cases event with
  | setEditor editor =>
    cases editor with
    | none => exact Or.inl ⟨rfl, id⟩
    | some b => exact absurd trivial h
  | setSource source => exact absurd trivial h
  | setText text => exact absurd trivial h
  | setOutline outline => exact Or.inl ⟨rfl, id⟩
  | setOrigin origin => exact Or.inl ⟨rfl, id⟩
  | setCursor p => exact Or.inl ⟨rfl, fun hcached => hcached.of_cache_eq rfl hkeeps.buffer⟩
  | setSelection anchor head =>
    exact Or.inl ⟨rfl, fun hcached => hcached.of_cache_eq rfl hkeeps.buffer⟩
  | command c =>
    cases hb : e.editor with
    | none =>
      rw [handle_command_of_editor_eq_none hb]
      exact Or.inl ⟨rfl, id⟩
    | some b =>
      have hbuffer := hkeeps.buffer
      rw [handle_command_eq hb c rfl rfl] at hbuffer ⊢
      by_cases hasks : e.Asks b
      · right
        obtain ⟨source, hsource, hlooked⟩ := looked_eq_of_asks hasks
        obtain ⟨o, ho⟩ := Option.isSome_iff_exists.1 (hbuild b hb source hsource)
        rw [hlooked, ho]
        refine ⟨rfl, ?_, _, rfl, ?_⟩
        · rintro ⟨b', hb', hcached⟩
          obtain rfl := Option.some.inj (hb.symm.trans hb')
          rw [hasks.2.2.2] at hcached
          exact absurd hcached (by simp)
        · simp [cachedOutline?]
      · left
        rw [looked_eq_of_not_asks hasks] at hbuffer ⊢
        exact ⟨rfl, fun hcached => hcached.of_cache_eq rfl hbuffer⟩

/-- Without a reset nothing that is cached is asked for. -/
theorem sourceCalls_after_of_isCached (h : ∀ event ∈ events, ¬ event.Resets)
    (hbuild : e.SpansBuild) (hcached : e.IsCached) :
    (e.after events).sourceCalls = e.sourceCalls := by
  induction events generalizing e with
  | nil => rfl
  | cons event events ih =>
    have hevent : ¬ event.Resets := h event List.mem_cons_self
    obtain ⟨hcalls, hstill⟩ := (sourceCalls_handle_of_not_resets hevent hbuild).resolve_right
      fun hright => hright.2.1 hcached
    rw [after_cons, ih (fun event hmem => h event (List.mem_cons_of_mem _ hmem))
      (hbuild.of_keeps (keeps_handle hevent)) (hstill hcached), hcalls]

/-- Without a reset the source is asked once at most, if its spans fit the text. -/
theorem sourceCalls_after_le (h : ∀ event ∈ events, ¬ event.Resets) (hbuild : e.SpansBuild) :
    (e.after events).sourceCalls ≤ e.sourceCalls + 1 := by
  induction events generalizing e with
  | nil => exact Nat.le_succ _
  | cons event events ih =>
    have hevent : ¬ event.Resets := h event List.mem_cons_self
    have hrest : ∀ event ∈ events, ¬ event.Resets :=
      fun event hmem => h event (List.mem_cons_of_mem _ hmem)
    have hbuild' := hbuild.of_keeps (keeps_handle hevent)
    rw [after_cons]
    rcases sourceCalls_handle_of_not_resets hevent hbuild with ⟨hcalls, -⟩ | ⟨hcalls, -, hcached⟩
    · rw [← hcalls]
      exact ih hrest hbuild'
    · rw [sourceCalls_after_of_isCached hrest hbuild' hcached, hcalls]

/-! ## Engines from settings -/

/-- Whatever happens to an engine, the host sees what it would see of an engine that builds the
outline from the source again for every command: there each command decides by the outline of the
host, or by what the source gives for the text of the moment.  From one reset of the cache to the
next the source is asked once at most, if its spans fit the text; and it is never asked while there
is an outline of the host or structure is switched off. -/
theorem caching_unobservable {settings : Settings} (h : ofSettings settings = .ok e) :
    (∀ events, observations handle e events = observations handleAfresh e events) ∧
      (∀ (e' : Engine) b c, e'.editor = some b →
        (e'.handleAfresh (.command c)).1 = .ok (some (c.decide
          ((e'.freshScene b).snapshot b.selection (e'.origin.inEffect b.selection b.anchor))))) ∧
      (∀ before between, (∀ event ∈ between, ¬ event.Resets) → (e.after before).SpansBuild →
        ((e.after before).after between).sourceCalls ≤ (e.after before).sourceCalls + 1) ∧
      ∀ before event, ((e.after before).outline.isSome ∨
          (e.after before).settings.structural.enabled = false) →
        ((e.after before).handle event).2.sourceCalls = (e.after before).sourceCalls := by
  refine ⟨?_, fun _ _ c hb => handleAfresh_command hb c, ?_, ?_⟩
  · intro events
    exact observations_eq_of_sameButCache e.sameButCache_refl (cacheAgrees_of_ofSettings h) events
  · intro before between hbetween hbuild
    exact sourceCalls_after_le hbetween hbuild
  · intro before event hhost
    exact sourceCalls_handle hhost event

/-- A source and an editor are bound. -/
def openLines : List Event :=
  [.setSource (some .lines), .setEditor (some (.ofText (.ofChars "ab cd\nef".toList)))]

/-- Commands between which the host supplies an outline and takes it back. -/
def shadowedCommands : List Event :=
  [.command .expand, .setOutline (some (.ofTree 8 ⟨⟨.document, 0, 8⟩, 0, 8⟩ .empty)),
    .command .expand, .setOutline none, .setOrigin (some ⟨1, 1⟩), .command .shrink]

theorem caching_unobservable_openLines :
    ∃ e, ofSettings {} = .ok e ∧
      observations handle e (openLines ++ shadowedCommands ++
          [.setText (.ofChars "x y".toList), .command .expand]) =
        observations handleAfresh e (openLines ++ shadowedCommands ++
          [.setText (.ofChars "x y".toList), .command .expand]) ∧
      ((e.after openLines).after shadowedCommands).sourceCalls ≤
        (e.after openLines).sourceCalls + 1 ∧
      ((e.after (openLines ++ shadowedCommands.take 2)).handle (.command .expand)).2.sourceCalls =
        (e.after (openLines ++ shadowedCommands.take 2)).sourceCalls := by
  have hnew : ofSettings {} = .ok .new := rfl
  obtain ⟨hsame, -, honce, hnever⟩ := caching_unobservable hnew
  refine ⟨.new, hnew, ?_⟩
  refine ⟨hsame _, honce openLines shadowedCommands ?_ ?_, hnever _ _ ?_⟩
  · simp [shadowedCommands, Event.Resets]
  · intro b hb source hsource
    obtain rfl := Option.some.inj hb
    obtain rfl := Option.some.inj hsource
    rfl
  · exact Or.inl rfl

end Engine

end SelectionLadder
