import SelectionLadder.Proofs.Engine.Scene
import SelectionLadder.Proofs.Outline.Validity

/-!
# Outlines in effect

The outline that commands go by is the host's, or it is built from the spans of the source, now or
at an earlier command.

* `Engine.CachesBuilt`: the cached outline, if there is one, was built from spans.  Looking up an
  outline keeps this, and so do commands (`CachesBuilt.run`).
* `isSound_of_outlineInEffect`: with a host's outline that passes the check, or without one, the
  outline in effect is sound.
* `Engine.Reached`: the engines that calls of a host and commands lead to.  Their caches are built,
  their outlines are valid and their words stay inside their line.
-/

namespace SelectionLadder.Engine

variable {e e' : Engine} {b : Buffer} {o : Outline}

/-- A cached outline was built from spans.  Binding an editor and supplying a source empty the
cache, and no call of a host puts anything else there. -/
def CachesBuilt (e : Engine) : Prop := ∀ c ∈ e.cache, c.outline.IsBuilt

theorem builtOutline?_eq_some_iff {source : SpanSource} :
    e.builtOutline? source b = some o ↔
      Outline.build e.settings.structural.ignoredKinds (source b.text.chars) b.text.chars =
        .ok o := by
  unfold builtOutline?
  cases Outline.build e.settings.structural.ignoredKinds (source b.text.chars) b.text.chars <;>
    simp [Except.toOption]

theorem isBuilt_of_builtOutline? {source : SpanSource} (h : e.builtOutline? source b = some o) :
    o.IsBuilt :=
  ⟨_, _, _, builtOutline?_eq_some_iff.1 h⟩

theorem CachesBuilt.isBuilt_of_cachedOutline? (h : e.CachesBuilt)
    (ho : e.cachedOutline? b = some o) : o.IsBuilt := by
  obtain ⟨c, hc, rfl⟩ := Option.map_eq_some_iff.1 ho
  exact h c (Option.filter_eq_some_iff.1 hc).1

/-- Looking up the outline caches built outlines only. -/
theorem CachesBuilt.currentOutline (h : e.CachesBuilt) (b : Buffer) :
    (e.currentOutline b).2.CachesBuilt := by
  unfold Engine.currentOutline
  split
  · exact h
  · split
    · exact h
    · split
      · exact h
      · intro c hc
        obtain ⟨o, ho, rfl⟩ := Option.map_eq_some_iff.1 hc
        exact isBuilt_of_builtOutline? ho

/-- So do commands. -/
theorem CachesBuilt.run (h : e.CachesBuilt) {decide : Snapshot → Decision} {d : Decision}
    (hrun : e.run decide = .ok (d, e')) : e'.CachesBuilt := by
  cases hb : e.editor with
  | none => exact absurd hrun (by simp [Engine.run, hb])
  | some b =>
    rw [run_eq_follow hb decide rfl rfl] at hrun
    obtain ⟨-, rfl⟩ := Prod.mk.inj (Except.ok.inj hrun)
    intro c hc
    simp only [looked] at hc
    split at hc
    · exact h.currentOutline b c hc
    · exact h c hc

/-- The outline in effect is sound. -/
theorem isSound_of_outlineInEffect (hhost : ∀ o ∈ e.outline, o.validate = .ok ())
    (hcache : e.CachesBuilt) (ho : e.outlineInEffect b = some o) : o.IsSound := by
  unfold outlineInEffect at ho
  split at ho
  case isFalse => exact absurd ho (by simp)
  unfold Engine.currentOutline at ho
  split at ho
  · rename_i host hhost'
    simp only at ho
    split at ho
    · obtain rfl := Option.some.inj ho
      exact Outline.isSound_of_validate (hhost host hhost')
    · exact absurd ho (by simp)
  · split at ho
    · exact absurd ho (by simp)
    · split at ho
      · rename_i cached hcached
        obtain rfl := Option.some.inj ho
        exact (hcache.isBuilt_of_cachedOutline? hcached).isSound
      · exact (isBuilt_of_builtOutline? ho).isSound

/-! ## Engines that a host brings about -/

/-- Calls of a host and commands have led to the engine.  The host has supplied valid outlines
only; it may have changed the buffer in any way. -/
inductive Reached : Engine → Prop where
  | ofSettings {settings : Settings} {e : Engine} (h : Engine.ofSettings settings = .ok e) :
    Reached e
  | setEditor {e : Engine} (h : Reached e) (b : Buffer) : Reached (e.setEditor b)
  | mapEditor {e : Engine} (h : Reached e) (f : Buffer → Buffer) : Reached (e.mapEditor f)
  | setOutline {e : Engine} (h : Reached e) {outline : Option Outline}
    (hvalid : ∀ o ∈ outline, o.validate = .ok ()) : Reached (e.setOutline outline)
  | setSource {e : Engine} (h : Reached e) (source : Option SpanSource) :
    Reached (e.setSource source)
  | setOrigin {e : Engine} (h : Reached e) (origin : Origin) : Reached (e.setOrigin origin)
  | run {e e' : Engine} (h : Reached e) {decide : Snapshot → Decision} {d : Decision}
    (hrun : e.run decide = .ok (d, e')) : Reached e'

/-- Commands change neither the host's outline nor how words are found. -/
theorem run_keeps {decide : Snapshot → Decision} {d : Decision}
    (hrun : e.run decide = .ok (d, e')) : e'.outline = e.outline ∧ e'.matcher = e.matcher := by
  cases hb : e.editor with
  | none => exact absurd hrun (by simp [Engine.run, hb])
  | some b =>
    rw [run_eq_follow hb decide rfl rfl] at hrun
    obtain ⟨-, rfl⟩ := Prod.mk.inj (Except.ok.inj hrun)
    obtain ⟨cache, sourceCalls, hlooked⟩ := e.exists_looked b
    rw [hlooked]
    exact ⟨rfl, rfl⟩

theorem Reached.cachesBuilt (h : Reached e) : e.CachesBuilt := by
  induction h with
  | ofSettings h =>
    obtain ⟨m, -, rfl⟩ := exists_eq_of_ofSettings h
    simp [CachesBuilt]
  | setEditor _ b => simp [CachesBuilt, Engine.setEditor]
  | setSource _ source => simp [CachesBuilt, Engine.setSource]
  | mapEditor _ _ ih | setOutline _ _ ih | setOrigin _ _ ih => exact ih
  | run _ hrun ih => exact ih.run hrun

theorem Reached.validate_outline (h : Reached e) : ∀ o ∈ e.outline, o.validate = .ok () := by
  induction h with
  | ofSettings h =>
    obtain ⟨m, -, rfl⟩ := exists_eq_of_ofSettings h
    simp
  | setOutline _ hvalid => exact hvalid
  | setEditor _ _ ih | mapEditor _ _ ih | setSource _ _ ih | setOrigin _ _ ih => exact ih
  | run _ hrun ih =>
    rw [(run_keeps hrun).1]
    exact ih

theorem Reached.staysInside (h : Reached e) : e.matcher.StaysInside := by
  induction h with
  | ofSettings h =>
    obtain ⟨m, hm, rfl⟩ := exists_eq_of_ofSettings h
    exact hm
  | setEditor _ _ ih | mapEditor _ _ ih | setOutline _ _ ih | setSource _ _ ih
  | setOrigin _ _ ih => exact ih
  | run _ hrun ih =>
    rw [(run_keeps hrun).2]
    exact ih

end SelectionLadder.Engine
