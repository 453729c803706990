import SelectionLadder.Proofs.Outline.Chain

/-!
# The blocks over a range

Blocks are the children of the root.  Over a range that is no caret lie the blocks from the one that
holds its first character to the one that holds its last.

* `Tiled.pairwise_roots`: blocks are in order, so one of two stops before the other starts
  (`Tiled.stop_le_or`).
* `IsTiledTree.exists_blocksOver?`: where the blocks over a range start and stop.
* `blocksOver?_contains` and `blocksOver?_blocksOver?`: together they contain the range, and the
  blocks over them are the same blocks.
-/

namespace SelectionLadder

/-! ## Roots of tiled forests -/

namespace Forest

variable {f : Forest Node} {start stop : Nat}

/-- The roots stop before those after them start. -/
theorem Tiled.pairwise_roots (h : f.Tiled start stop) :
    f.roots.Pairwise fun m n => m.stop ≤ n.start := by
  induction f generalizing start with
  | empty => exact List.Pairwise.nil
  | tree k below rest _ ihRest =>
    obtain ⟨-, -, -, hrest⟩ := h
    exact List.pairwise_cons.2
      ⟨fun n hn => (hrest.bounds (mem_preorder_of_mem_roots hn)).1, ihRest hrest⟩

/-- Of two roots one stops before the other starts. -/
theorem Tiled.stop_le_or (h : f.Tiled start stop) {m n : Node} (hm : m ∈ f.roots)
    (hn : n ∈ f.roots) (hne : m ≠ n) : m.stop ≤ n.start ∨ n.stop ≤ m.start := by
  have hpairwise : f.roots.Pairwise fun m n => m.stop ≤ n.start ∨ n.stop ≤ m.start :=
    h.pairwise_roots.imp Or.inl
  have : Std.Symm fun m n : Node => m.stop ≤ n.start ∨ n.stop ≤ m.start := ⟨fun _ _ => Or.symm⟩
  exact hpairwise.forall hm hn hne

end Forest

/-! ## Ranges of stretches -/

namespace Text

variable {t : Text} {r : Range}

/-- A range lies between two offsets if its own offsets do. -/
theorem rangeAt_contains_iff (h : t.Has r) {m n : Nat} (hmn : m ≤ n) (hn : n ≤ t.length) :
    (t.rangeAt m n).Contains r ↔ m ≤ t.offsetAt r.start ∧ t.offsetAt r.stop ≤ n := by
  rw [Range.Contains, rangeAt_start hmn, rangeAt_stop hmn,
    ← offsetAt_le_offsetAt_iff (t.inside_positionAt m) h.1,
    ← offsetAt_le_offsetAt_iff h.2 (t.inside_positionAt n), offsetAt_positionAt_of_le hn,
    offsetAt_positionAt_of_le (hmn.trans hn)]

theorem union_rangeAt {a b c d : Nat} (hab : a ≤ b) (hcd : c ≤ d) (hac : a ≤ c) (hbd : b ≤ d) :
    (t.rangeAt a b).union (t.rangeAt c d) = t.rangeAt a d := by
  have had : a ≤ d := hab.trans hbd
  apply Range.ext
  · show min (t.rangeAt a b).start (t.rangeAt c d).start = (t.rangeAt a d).start
    rw [rangeAt_start hab, rangeAt_start hcd, rangeAt_start had]
    exact min_eq_left (t.positionAt_mono hac)
  · show max (t.rangeAt a b).stop (t.rangeAt c d).stop = (t.rangeAt a d).stop
    rw [rangeAt_stop hab, rangeAt_stop hcd, rangeAt_stop had]
    exact max_eq_right (t.positionAt_mono hbd)

end Text

/-! ## Blocks -/

namespace Outline.IsTiledTree

variable {o : Outline} {t : Text} {root : Node} {below : Forest Node} {r u : Range}

/-- The blocks over a range go from the one that holds its first character to the one that holds
its last. -/
theorem blocksOver?_eq_rangeAt (h : o.IsTiledTree root below) {m n : Node} (hm : m ∈ below.roots)
    (hn : n ∈ below.roots)
    (hfirst : m.start ≤ t.offsetAt r.start ∧ t.offsetAt r.start < m.stop)
    (hlast : n.start ≤ max (t.offsetAt r.stop - 1) (t.offsetAt r.start) ∧
      max (t.offsetAt r.stop - 1) (t.offsetAt r.start) < n.stop) :
    o.blocksOver? t r = some (t.rangeAt m.start n.stop) := by
  have hbelow : below ≠ .empty := by
    rintro rfl
    exact List.not_mem_nil hm
  have htiled := h.tiled_below hbelow
  have horder : m.start ≤ n.start ∧ m.stop ≤ n.stop := by
    by_cases heq : m = n
    · simp [heq]
    · rcases htiled.stop_le_or hm hn heq with hbefore | hafter <;> omega
  rw [h.blocksOver?_eq hm hn hfirst hlast,
    Text.union_rangeAt (by omega) (by omega) horder.1 horder.2]

/-- Over a range that is no caret there are blocks, if there are any at all. -/
theorem exists_blocksOver? (h : o.IsTiledTree root below) (hlength : o.length = t.length)
    (hbelow : below ≠ .empty) (hr : t.Has r) (hne : ¬ r.IsEmpty) :
    ∃ m ∈ below.roots, ∃ n ∈ below.roots, m.start ≤ t.offsetAt r.start ∧
      t.offsetAt r.start < m.stop ∧ n.start < t.offsetAt r.stop ∧ t.offsetAt r.stop ≤ n.stop ∧
      n.stop ≤ t.length ∧ o.blocksOver? t r = some (t.rangeAt m.start n.stop) := by
  have htiled := h.tiled_below hbelow
  have hlt := Text.offsetAt_lt_offsetAt hr.1 hr.2 (Range.start_lt_stop hne)
  have hle := t.offsetAt_le_length r.stop
  have hblock : ∀ x < o.length, ∃ k ∈ below.roots, k.start ≤ x ∧ x < k.stop := by
    intro x hx
    obtain ⟨k, hk, hstart, hstop⟩ := htiled.exists_root (o := o) hbelow (Nat.zero_le x) (Or.inl hx)
    exact ⟨k, hk, hstart, by omega⟩
  obtain ⟨m, hm, hfirst⟩ := hblock (t.offsetAt r.start) (by omega)
  obtain ⟨n, hn, hlast⟩ := hblock (t.offsetAt r.stop - 1) (by omega)
  have hend := (htiled.bounds (Forest.mem_preorder_of_mem_roots hn)).2.2
  exact ⟨m, hm, n, hn, hfirst.1, hfirst.2, by omega, by omega, by omega,
    h.blocksOver?_eq_rangeAt hm hn hfirst (by omega)⟩

/-- The blocks over a range contain it. -/
theorem blocksOver?_contains (h : o.IsTiledTree root below) (hlength : o.length = t.length)
    (hbelow : below ≠ .empty) (hr : t.Has r) (hne : ¬ r.IsEmpty)
    (hu : o.blocksOver? t r = some u) : u.Contains r := by
  obtain ⟨m, -, n, -, hfirst, -, hlast, hstop, hend, hblocks⟩ :=
    h.exists_blocksOver? hlength hbelow hr hne
  have hlt := Text.offsetAt_lt_offsetAt hr.1 hr.2 (Range.start_lt_stop hne)
  obtain rfl := Option.some.inj (hblocks.symm.trans hu)
  exact (Text.rangeAt_contains_iff hr (by omega) hend).2 ⟨hfirst, hstop⟩

/-- The blocks over these blocks are the same blocks. -/
theorem blocksOver?_blocksOver? (h : o.IsTiledTree root below) (hlength : o.length = t.length)
    (hbelow : below ≠ .empty) (hr : t.Has r) (hne : ¬ r.IsEmpty)
    (hu : o.blocksOver? t r = some u) : o.blocksOver? t u = some u := by
  obtain ⟨m, hm, n, hn, hfirst, hfirst', hlast, hlast', hend, hblocks⟩ :=
    h.exists_blocksOver? hlength hbelow hr hne
  have hlt := Text.offsetAt_lt_offsetAt hr.1 hr.2 (Range.start_lt_stop hne)
  have hmn : m.start ≤ n.stop := by omega
  obtain rfl := Option.some.inj (hblocks.symm.trans hu)
  have hstart : t.offsetAt (t.rangeAt m.start n.stop).start = m.start := by
    rw [Text.rangeAt_start hmn, Text.offsetAt_positionAt_of_le (by omega)]
  have hstop : t.offsetAt (t.rangeAt m.start n.stop).stop = n.stop := by
    rw [Text.rangeAt_stop hmn, Text.offsetAt_positionAt_of_le hend]
  exact h.blocksOver?_eq_rangeAt hm hn (by omega) (by omega)

end Outline.IsTiledTree

end SelectionLadder
