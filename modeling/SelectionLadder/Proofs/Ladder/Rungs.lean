import SelectionLadder.Proofs.Engine.Run

/-!
# Ladders

A ladder is a list of ranges of which each strictly contains the one before it.  This module is
about any ladder; which units of a text are on it is the matter of the modules that use it.

* `rungsAbove` takes from a list of units, small to large, those that are larger than what was
  taken before them.
* `next?_eq_getElem?`: the first unit that strictly contains a rung is the rung above it.  So the
  search of a command among all units finds what the greedy choice has taken.
* `Scene.Climbs` says what the two commands do on the rungs, one command at a time, and
  `Climbs.climbsOn` what follows for every list of commands: the selection is the rung at the
  height of the list.  The run is `StandsAt.performAll`, whatever rungs commands lead to.
* `Climbs.selectionAfter_retrace`: shrinking retraces expanding.
-/

namespace SelectionLadder

/-! ## Rungs -/

/-- The units of the list that are larger than `r` and than every unit taken before them. -/
def rungsAbove (r : Range) : List Range → List Range
  | [] => []
  | s :: rest => if s.StrictlyContains r then s :: rungsAbove s rest else rungsAbove r rest

/-- The first unit of the list that is larger than the range. -/
def next? (units : List Range) (r : Range) : Option Range :=
  units.find? fun s => s.StrictlyContains r

/-- The ladder of the units of a list from the caret at a position. -/
def ladder (p : Position) (units : List Range) : List Range :=
  .caret p :: rungsAbove (.caret p) units

variable {r s : Range} {units : List Range} {p : Position}

theorem mem_of_mem_rungsAbove (h : s ∈ rungsAbove r units) : s ∈ units := by
  induction units generalizing r with
  | nil => exact absurd h (by simp [rungsAbove])
  | cons u units ih =>
    rw [rungsAbove] at h
    split at h
    · rcases List.mem_cons.1 h with rfl | h
      · exact List.mem_cons_self
      · exact List.mem_cons_of_mem u (ih h)
    · exact List.mem_cons_of_mem u (ih h)

theorem strictlyContains_of_mem_rungsAbove (h : s ∈ rungsAbove r units) :
    s.StrictlyContains r := by
  induction units generalizing r with
  | nil => exact absurd h (by simp [rungsAbove])
  | cons u units ih =>
    rw [rungsAbove] at h
    split at h
    · rename_i hu
      rcases List.mem_cons.1 h with rfl | h
      · exact hu
      · exact (ih h).trans hu
    · exact ih h

/-- Every rung holds the position at the foot of the ladder. -/
theorem holds_of_mem_ladder (h : s ∈ ladder p units) : s.Holds p := by
  rcases List.mem_cons.1 h with rfl | h
  · exact Range.holds_start _
  · exact (strictlyContains_of_mem_rungsAbove h).1

/-- What is larger than a rung was larger than the rungs below it, and would have been taken
there.  The units passed so far, of which none is larger than the last rung, are `passed`. -/
theorem find?_append_eq_getElem? (passed : List Range)
    (hpassed : ∀ u ∈ passed, ¬ u.StrictlyContains r) {i : Nat}
    (h : (r :: rungsAbove r units)[i]? = some s) :
    next? (passed ++ units) s = (r :: rungsAbove r units)[i + 1]? := by
  induction units generalizing passed r i with
  | nil =>
    cases i with
    | zero =>
      obtain rfl : r = s := by simpa using h
      simpa [next?, rungsAbove] using hpassed
    | succ i => exact absurd h (by simp [rungsAbove])
  | cons u units ih =>
    have happend : passed ++ u :: units = (passed ++ [u]) ++ units := by simp
    by_cases hu : u.StrictlyContains r
    · rw [rungsAbove, if_pos hu] at h ⊢
      cases i with
      | zero =>
        obtain rfl : r = s := by simpa using h
        have hnone : passed.find? (fun x => decide (x.StrictlyContains r)) = none := by
          simpa using hpassed
        simp [next?, List.find?_append, hnone, hu]
      | succ i =>
        rw [happend]
        apply ih (passed ++ [u]) _ h
        intro x hx
        rcases List.mem_append.1 hx with hx | hx
        · intro hxu
          exact hpassed x hx (hxu.trans hu)
        · rw [List.mem_singleton.1 hx]
          exact u.not_strictlyContains_self
    · rw [rungsAbove, if_neg hu] at h ⊢
      rw [happend]
      apply ih (passed ++ [u]) _ h
      intro x hx
      rcases List.mem_append.1 hx with hx | hx
      · exact hpassed x hx
      · rw [List.mem_singleton.1 hx]
        exact hu

/-- The first unit that is larger than a rung is the next rung. -/
theorem next?_eq_getElem? {i : Nat} (h : (ladder p units)[i]? = some s) :
    next? units s = (ladder p units)[i + 1]? :=
  find?_append_eq_getElem? [] (by simp) h

/-- Below a unit that contains no other unit strictly is the caret. -/
theorem eq_caret_of_next? (hr : r ∈ ladder p units)
    (hs : next? units r = some s) (hnone : ∀ v ∈ units, ¬ s.StrictlyContains v) :
    r = .caret p := by
  rcases List.mem_cons.1 hr with rfl | hr
  · rfl
  · have hsr : s.StrictlyContains r := by simpa using List.find?_some hs
    exact absurd hsr (hnone r (mem_of_mem_rungsAbove hr))

/-- Next after the other units is the one that contains all, unless it is selected already. -/
theorem next?_append_getD {top : Range} (hr : top.Contains r) :
    (next? (units ++ [top]) r).getD r = (next? units r).getD top := by
  unfold next?
  rw [List.find?_append]
  cases units.find? fun s => s.StrictlyContains r with
  | some s => rfl
  | none =>
    rcases hr.eq_or_strictlyContains with rfl | hlarger
    · simp [Range.not_strictlyContains_self]
    · simp [hlarger]

/-- A unit that contains all the others is the topmost rung. -/
theorem getLast?_rungsAbove {top : Range} (htop : ∀ u ∈ units, top.Contains u)
    (hr : top.Contains r) : (r :: rungsAbove r (units ++ [top])).getLast? = some top := by
  induction units generalizing r with
  | nil =>
    rcases hr.eq_or_strictlyContains with rfl | hlarger
    · simp [rungsAbove, Range.not_strictlyContains_self]
    · simp [rungsAbove, hlarger]
  | cons u units ih =>
    have hunits : ∀ v ∈ units, top.Contains v := fun v hv => htop v (List.mem_cons_of_mem u hv)
    rw [List.cons_append, rungsAbove]
    split
    · rw [List.getLast?_cons_cons]
      exact ih hunits (htop u List.mem_cons_self)
    · exact ih hunits hr

/-! ## Nested units -/

/-- Each unit holds the position and lies in the units after it. -/
structure Nested (p : Position) (units : List Range) : Prop where
  holds : ∀ u ∈ units, u.Holds p
  pairwise : units.Pairwise fun u v => v.Contains u

namespace Nested

variable {u : Range}

/-- Of two units one contains the other. -/
theorem contains_or (h : Nested p units) (hr : r ∈ units) (hu : u ∈ units) :
    u.Contains r ∨ r.Contains u := by
  let comparable : Range → Range → Prop := fun a b => b.Contains a ∨ a.Contains b
  have hup : units.Pairwise comparable := h.pairwise.imp fun hab => Or.inl hab
  have hdown : units.Pairwise (flip comparable) := h.pairwise.imp fun hab => Or.inr hab
  have hself : ∀ a ∈ units, comparable a a := fun a _ => Or.inl a.contains_refl
  exact List.Pairwise.forall_of_forall_of_flip hself hup hdown hr hu

/-- Of the units that pass a test the first one is the smallest. -/
theorem contains_of_find? (h : Nested p units) {test : Range → Bool}
    (hs : units.find? test = some s) (hu : u ∈ units) (htest : test u) : u.Contains s := by
  obtain ⟨-, before, after, rfl, hbefore⟩ := List.find?_eq_some_iff_append.1 hs
  have hpairwise := (List.pairwise_append.1 h.pairwise).2.1
  rcases List.mem_append.1 hu with hmem | hmem
  · exact absurd htest (by simpa using hbefore u hmem)
  · rcases List.mem_cons.1 hmem with rfl | hmem
    · exact u.contains_refl
    · exact (List.pairwise_cons.1 hpairwise).1 u hmem

/-- A rung contains all units that lie strictly inside the next one. -/
theorem contains_of_next? (h : Nested p units) (hr : r ∈ ladder p units)
    (hs : next? units r = some s) (hu : u ∈ units) (hsu : s.StrictlyContains u) :
    r.Contains u := by
  have hnot : ¬ u.StrictlyContains r := by
    intro hur
    have hus : u.Contains s := h.contains_of_find? hs hu (by simpa using hur)
    exact hus.not_strictlyContains hsu
  have hcomparable : u.Contains r ∨ r.Contains u := by
    rcases List.mem_cons.1 hr with rfl | hr
    · exact Or.inl (h.holds u hu)
    · exact h.contains_or (mem_of_mem_rungsAbove hr) hu
  rcases hcomparable with hur | hru
  · rw [hur.eq_of_not_strictlyContains hnot]
    exact r.contains_refl
  · exact hru

/-- The rung below a unit is the largest unit strictly inside it. -/
theorem eq_of_next? (h : Nested p units) (hr : r ∈ ladder p units)
    (hs : next? units r = some s) (hu : u ∈ units) (hsu : s.StrictlyContains u)
    (hlargest : ∀ v ∈ units, s.StrictlyContains v → u.Contains v) : r = u := by
  have hsr : s.StrictlyContains r := by simpa using List.find?_some hs
  have hur : u.Contains r := by
    rcases List.mem_cons.1 hr with rfl | hr
    · exact h.holds u hu
    · exact hlargest r (mem_of_mem_rungsAbove hr) hsr
  exact (h.contains_of_next? hr hs hu hsu).antisymm hur

end Nested

/-! ## Heights -/

namespace Command

/-- The height after a command: one more or one less, between the foot and the top. -/
def climb (top : Nat) (height : Nat) : Command → Nat
  | expand => min (height + 1) top
  | shrink => height - 1

end Command

/-- The height after a list of commands from the foot of a ladder. -/
def heightAfter (top : Nat) (cs : List Command) : Nat := cs.foldl (Command.climb top) 0

theorem foldl_expand {top height : Nat} (h : height ≤ top) (k : Nat) :
    (List.replicate k Command.expand).foldl (Command.climb top) height = min (height + k) top := by
  induction k generalizing height with
  | zero => simpa using h
  | succ k ih =>
    rw [List.replicate_succ, List.foldl_cons, Command.climb, ih (Nat.min_le_right _ _)]
    omega

theorem foldl_shrink (top height k : Nat) :
    (List.replicate k Command.shrink).foldl (Command.climb top) height = height - k := by
  induction k generalizing height with
  | zero => rfl
  | succ k ih =>
    rw [List.replicate_succ, List.foldl_cons, Command.climb, ih]
    omega

/-- Shrinking goes back down the steps that expanding has gone up. -/
theorem heightAfter_retrace (top k j : Nat) :
    heightAfter top (List.replicate k .expand ++ List.replicate j .shrink) =
      heightAfter top (List.replicate (min k top - j) .expand) := by
  unfold heightAfter
  rw [List.foldl_append, foldl_expand (Nat.zero_le top), foldl_expand (Nat.zero_le top),
    foldl_shrink]
  omega

/-! ## Climbing -/

/-- Shrinking a caret does nothing. -/
theorem Snapshot.shrink_of_isEmpty {s : Snapshot} (h : s.selection.IsEmpty) :
    s.shrink = .noOp := by
  have htarget : s.shrinkTarget = .noOp := by
    unfold shrinkTarget
    split
    · rw [shrinkStructural, if_pos h]
    · rw [shrinkTextual, if_pos h]
  simp only [shrink, htarget, Decision.target]

/-- A range that holds the origin is selected as it is, or by restoring the cursor if it is a
caret. -/
theorem Snapshot.shrink_target {s : Snapshot} {u : Range} (h : s.shrinkTarget.target = some u)
    (hu : u.Holds s.origin) : s.shrink.target = some u := by
  simp only [shrink, h]
  split
  · rename_i hempty
    rw [Decision.target, hempty.eq_caret_of_holds hu]
  · exact h

/-- Where the selected part of a range is all of it, clipping does not change it. -/
theorem Snapshot.clip_eq {s : Snapshot} {u : Range} (h : s.selection.Contains u)
    (hu : u.Holds s.origin) : s.clip u = u := by
  unfold clip
  by_cases hempty : u.IsEmpty
  · rw [Range.intersection_eq_none_of_isEmpty hempty, Option.getD_none,
      hempty.eq_caret_of_holds hu]
  · rw [Range.intersection_eq_left hempty h, Option.getD_some]

/-- From a rung of the ladder of these units, expanding selects the next unit that is larger, if
there is one, and shrinking selects the rung that it is the next one of. -/
structure Scene.Climbs (scene : Scene) (p : Position) (units : List Range) : Prop where
  has : ∀ r ∈ ladder p units, scene.text.Has r
  expand : ∀ r ∈ ladder p units,
    (scene.snapshot r p).expand.target = some ((next? units r).getD r)
  shrink : ∀ r ∈ ladder p units, ∀ s ∈ next? units r,
    (scene.snapshot s p).shrink.target = some r

namespace Engine

/-- Whatever commands follow, the selection after them is the rung at their height, and the text
and its version are as before. -/
def ClimbsOn (e : Engine) (b : Buffer) (rungs : List Range) : Prop :=
  ∀ cs, ∃ e' b', e.performAll cs = .ok e' ∧ e'.editor = some b' ∧ b'.text = b.text ∧
    b'.version = b.version ∧ rungs[heightAfter (rungs.length - 1) cs]? = some b'.selection

/-- The same where `climb` gives the height after a command. -/
def ClimbsBy (climb : Nat → Command → Nat) (e : Engine) (b : Buffer) (rungs : List Range) : Prop :=
  ∀ cs, ∃ e' b', e.performAll cs = .ok e' ∧ e'.editor = some b' ∧ b'.text = b.text ∧
    b'.version = b.version ∧ rungs[cs.foldl climb 0]? = some b'.selection

variable {e : Engine} {scene : Scene} {version : Nat} {b : Buffer} {rungs : List Range}
  {climb : Nat → Command → Nat}

/-- Expanding goes from a rung to the one above it, or stays on the topmost one. -/
theorem StandsAt.perform_expand (h : e.StandsAt scene version p r)
    (hhas : ∀ r ∈ ladder p units, scene.text.Has r)
    (hexpand : ∀ r ∈ ladder p units,
      (scene.snapshot r p).expand.target = some ((next? units r).getD r))
    {i : Nat} (hi : (ladder p units)[i]? = some r) :
    ∃ d e' s, e.perform .expand = .ok (d, e') ∧ e'.StandsAt scene version p s ∧
      (ladder p units)[min (i + 1) ((ladder p units).length - 1)]? = some s := by
  have hr : r ∈ ladder p units := List.mem_of_getElem? hi
  have hlt : i < (ladder p units).length := (List.getElem?_eq_some_iff.1 hi).1
  have htarget := hexpand r hr
  rw [next?_eq_getElem? hi] at htarget
  cases habove : (ladder p units)[i + 1]? with
  | some s =>
    rw [habove] at htarget
    have hs : s ∈ ladder p units := List.mem_of_getElem? habove
    obtain ⟨e', hrun, hstands⟩ :=
      h.run Snapshot.expand htarget (hhas s hs) (holds_of_mem_ladder hs)
    have hlt' : i + 1 < (ladder p units).length := (List.getElem?_eq_some_iff.1 habove).1
    refine ⟨_, e', s, hrun, hstands, ?_⟩
    rw [Nat.min_eq_left (by omega), habove]
  | none =>
    rw [habove] at htarget
    obtain ⟨e', hrun, hstands⟩ :=
      h.run Snapshot.expand htarget (hhas r hr) (holds_of_mem_ladder hr)
    have hge : (ladder p units).length ≤ i + 1 := List.getElem?_eq_none_iff.1 habove
    have htop : min (i + 1) ((ladder p units).length - 1) = i := by omega
    refine ⟨_, e', r, hrun, hstands, ?_⟩
    rw [htop, hi]

/-- Shrinking stays on the caret, which is the origin that is stored then. -/
theorem StandsAt.perform_shrink_caret (h : e.StandsAt scene version p (.caret p)) :
    ∃ e', e.perform .shrink = .ok (.noOp, e') ∧ e'.origin = some p ∧
      e'.StandsAt scene version p (.caret p) := by
  apply h.run_of_target_eq_none Snapshot.shrink
  rw [Snapshot.shrink_of_isEmpty (Range.isEmpty_caret p), Decision.target]

/-- Shrinking goes from a rung to the one below it, or stays on the caret. -/
theorem StandsAt.perform_shrink (h : e.StandsAt scene version p r)
    (hclimbs : scene.Climbs p units) {i : Nat} (hi : (ladder p units)[i]? = some r) :
    ∃ d e' s, e.perform .shrink = .ok (d, e') ∧ e'.StandsAt scene version p s ∧
      (ladder p units)[i - 1]? = some s := by
  have hlt : i < (ladder p units).length := (List.getElem?_eq_some_iff.1 hi).1
  cases i with
  | zero =>
    obtain rfl : .caret p = r := by simpa [ladder] using hi
    obtain ⟨e', hrun, -, hstands⟩ := h.perform_shrink_caret
    exact ⟨_, e', _, hrun, hstands, hi⟩
  | succ i =>
    obtain ⟨s, hs⟩ : ∃ s, (ladder p units)[i]? = some s :=
      ⟨_, List.getElem?_eq_getElem (by omega)⟩
    have hmem : s ∈ ladder p units := List.mem_of_getElem? hs
    have habove : next? units s = some r := by
      rw [next?_eq_getElem? hs, hi]
    obtain ⟨e', hrun, hstands⟩ :=
      h.run Snapshot.shrink (hclimbs.shrink s hmem r habove) (hclimbs.has s hmem)
        (holds_of_mem_ladder hmem)
    exact ⟨_, e', s, hrun, hstands, hs⟩

/-- The step: one command goes from a rung to the one that is due. -/
theorem StandsAt.perform (h : e.StandsAt scene version p r) (hclimbs : scene.Climbs p units)
    {i : Nat} (hi : (ladder p units)[i]? = some r) (c : Command) :
    ∃ d e' s, e.perform c = .ok (d, e') ∧ e'.StandsAt scene version p s ∧
      (ladder p units)[c.climb ((ladder p units).length - 1) i]? = some s := by
  cases c with
  | expand => exact h.perform_expand hclimbs.has hclimbs.expand hi
  | shrink => exact h.perform_shrink hclimbs hi

/-- The run: if each command leads from the rung at one height to the rung at the next, the
commands lead to the rung at the height after all of them.  By induction on the commands, from any
rung. -/
theorem StandsAt.performAll
    (hstep : ∀ (e : Engine) (r : Range) (i : Nat) (c : Command),
      e.StandsAt scene version p r → rungs[i]? = some r →
      ∃ d e' s, e.perform c = .ok (d, e') ∧ e'.StandsAt scene version p s ∧
        rungs[climb i c]? = some s)
    (h : e.StandsAt scene version p r) {i : Nat} (hi : rungs[i]? = some r) (cs : List Command) :
    ∃ e' s, e.performAll cs = .ok e' ∧ e'.StandsAt scene version p s ∧
      rungs[cs.foldl climb i]? = some s := by
  induction cs generalizing e r i with
  | nil => exact ⟨e, r, rfl, h, hi⟩
  | cons c cs ih =>
    obtain ⟨d, e₁, s, hfirst, hstands, hs⟩ := hstep e r i c h hi
    obtain ⟨e', s', hrest, hstands', hs'⟩ := ih hstands hs
    exact ⟨e', s', by rw [performAll_cons hfirst, hrest], hstands', hs'⟩

/-- So an engine with a caret climbs from there, whatever commands follow. -/
theorem climbsBy_of_step (hb : e.editor = some b) (hcaret : b.selection = .caret p)
    (hfoot : rungs[0]? = some (.caret p))
    (hstep : ∀ (e' : Engine) (r : Range) (i : Nat) (c : Command),
      e'.StandsAt (e.scene b) b.version p r → rungs[i]? = some r →
      ∃ d e'' s, e'.perform c = .ok (d, e'') ∧ e''.StandsAt (e.scene b) b.version p s ∧
        rungs[climb i c]? = some s) :
    e.ClimbsBy climb b rungs := by
  intro cs
  obtain ⟨e', s, hrun, hstands, hs⟩ := (standsAt_caret hb hcaret).performAll hstep hfoot cs
  obtain ⟨b', hb', hscene, hversion, rfl, -⟩ := hstands
  exact ⟨e', b', hrun, hb', congrArg Scene.text hscene, hversion, hs⟩

theorem ClimbsBy.selectionAfter_eq (h : e.ClimbsBy climb b rungs) (cs : List Command) :
    e.selectionAfter cs = rungs[cs.foldl climb 0]? := by
  obtain ⟨e', b', hrun, hb', -, -, hrung⟩ := h cs
  simp only [selectionAfter, hrun, hb', hrung, Option.map_some]

end Engine

/-- An engine with a caret climbs the ladder from there. -/
theorem Scene.Climbs.climbsOn {e : Engine} {b : Buffer} (hclimbs : (e.scene b).Climbs p units)
    (hb : e.editor = some b) (hcaret : b.selection = .caret p) :
    e.ClimbsOn b (ladder p units) :=
  Engine.climbsBy_of_step hb hcaret rfl fun _ _ _ c h hi => h.perform hclimbs hi c

/-- Where the commands climb, shrinking retraces expanding. -/
theorem Engine.ClimbsOn.selectionAfter_retrace {e : Engine} {b : Buffer} {rungs : List Range}
    (h : e.ClimbsOn b rungs) (k j : Nat) :
    e.selectionAfter (List.replicate k .expand ++ List.replicate j .shrink) =
      e.selectionAfter (List.replicate (min k (rungs.length - 1) - j) .expand) := by
  have hafter : ∀ cs, e.selectionAfter cs = rungs[heightAfter (rungs.length - 1) cs]? :=
    ClimbsBy.selectionAfter_eq h
  rw [hafter, hafter, heightAfter_retrace]

end SelectionLadder
