import Mathlib.Data.List.SplitBy
import SelectionLadder.Word.Rule

/-!
# Words lie inside their line

A cut of a line covers no more than the line, whichever rule makes it, so the words of every rule
lie inside the line.

* `Matcher.StaysInside` is this property of a matcher, and `Matcher.staysInside_ofCut` the way to
  it: the pieces together are no longer than the line.
* `segments_flatten`: the segments of a line are the line.
* `Pattern.Machine.find_bounds`: a match of a machine starts no earlier than the search and stops
  no earlier than it starts.  The invariant is that every thread has started on the way.
* `WordRule.staysInside`: the result for every word rule.
-/

namespace SelectionLadder

/-- Words lie inside their line. -/
def Matcher.StaysInside (m : Matcher) : Prop :=
  ∀ line, ∀ w ∈ m line, w.stop ≤ line.length

/-! ## Cuts -/

/-- The number of characters of all pieces. -/
def totalLength (pieces : List Piece) : Nat := (pieces.flatMap (·.chars)).length

@[simp] theorem totalLength_cons (piece : Piece) (rest : List Piece) :
    totalLength (piece :: rest) = piece.chars.length + totalLength rest := by
  simp [totalLength]

theorem totalLength_map (runs : List Line) (f : Line → Bool) :
    totalLength (runs.map fun run => ⟨run, f run⟩) = runs.flatten.length := by
  simp [totalLength, List.length_flatten, Function.comp_def]

/-- Words stop where the pieces stop. -/
theorem stop_le_of_mem_wordsFrom {pieces : List Piece} {column : Nat} {w : Word}
    (hw : w ∈ wordsFrom column pieces) : w.stop ≤ column + totalLength pieces := by
  induction pieces generalizing column with
  | nil => exact absurd hw (by simp [wordsFrom])
  | cons piece rest ih =>
    rw [totalLength_cons]
    simp only [wordsFrom] at hw
    split at hw
    · rcases List.mem_cons.1 hw with rfl | hw
      · show column + piece.chars.length ≤ _
        omega
      · have := ih hw
        omega
    · have := ih hw
      omega

/-- A matcher that cuts lines into pieces stays inside them, if the pieces are no longer than the
line. -/
theorem Matcher.staysInside_ofCut {cut : Line → List Piece}
    (h : ∀ line, totalLength (cut line) ≤ line.length) : (Matcher.ofCut cut).StaysInside := by
  intro line w hw
  have hstop := stop_le_of_mem_wordsFrom hw
  have := h line
  omega

theorem Matcher.staysInside_ascii : Matcher.ascii.StaysInside := by
  apply staysInside_ofCut
  intro line
  rw [asciiPieces, totalLength_map, List.flatten_splitBy]

/-! ## Segments -/

theorem segmentsFrom_flatten (before : List Unicode.WordBreak) (current cs : List Char) :
    (segmentsFrom before current cs).flatten = current.reverse ++ cs := by
  induction cs generalizing before current with
  | nil =>
    rw [segmentsFrom]
    split
    · rename_i hempty
      simp [List.isEmpty_iff.1 hempty]
    · simp
  | cons c cs ih =>
    rw [segmentsFrom]
    split
    · simp [ih]
    · simp [ih]

/-- The segments of a line are the line. -/
theorem segments_flatten (line : Line) : (segments line).flatten = line :=
  segmentsFrom_flatten [] [] line

theorem Matcher.staysInside_unicode : Matcher.unicode.StaysInside := by
  apply staysInside_ofCut
  intro line
  rw [segmentPieces, totalLength_map, segments_flatten]

/-! ## Matches of a pattern -/

namespace Pattern

variable {m : Machine} {program : Program} {before after : Option Char}

/-- Every thread has started between the two columns. -/
def StartsIn (lo hi : Nat) (threads : List Thread) : Prop :=
  ∀ t ∈ threads, lo ≤ t.start ∧ t.start ≤ hi

variable {lo hi : Nat} {threads waiting ready : List Thread}

/-- Following branches starts no threads.  By induction on the steps: every thread that is added
has the start of the one that it replaces. -/
theorem StartsIn.follow (fuel : Nat) (seen : Array Bool) (hwaiting : StartsIn lo hi waiting)
    (hready : StartsIn lo hi ready) :
    StartsIn lo hi (Pattern.follow program before after fuel waiting seen ready).2 := by
  induction fuel generalizing waiting seen ready with
  | zero => exact hready
  | succ fuel ih =>
    cases waiting with
    | nil => exact hready
    | cons t waiting =>
      have ht := hwaiting t List.mem_cons_self
      have hrest : StartsIn lo hi waiting :=
        fun u hu => hwaiting u (List.mem_cons_of_mem t hu)
      have hcons : ∀ {state us}, StartsIn lo hi us → StartsIn lo hi (⟨state, t.start⟩ :: us) := by
        intro state us hus u hu
        rcases List.mem_cons.1 hu with rfl | hu
        · exact ht
        · exact hus u hu
      simp only [Pattern.follow]
      split
      · exact ih _ hrest hready
      · split
        · split
          · exact ih _ (hcons hrest) hready
          · exact ih _ hrest hready
        · exact ih _ (hcons (hcons hrest)) hready
        · exact ih _ hrest (hcons hready)

theorem StartsIn.closure (h : StartsIn lo hi waiting) :
    StartsIn lo hi (Pattern.closure m before after waiting) := by
  have hempty : StartsIn lo hi [] := fun t ht => absurd ht List.not_mem_nil
  intro t ht
  exact h.follow _ _ hempty t (List.mem_reverse.1 ht)

theorem StartsIn.step (h : StartsIn lo hi threads) (c : Char) :
    StartsIn lo hi (Pattern.step m c threads) := by
  intro t ht
  obtain ⟨u, hu, hread⟩ := List.mem_filterMap.1 ht
  have hstart : t.start = u.start := by
    split at hread
    · split at hread
      · obtain rfl := Option.some.inj hread
        rfl
      · exact absurd hread (by simp)
    · exact absurd hread (by simp)
  rw [hstart]
  exact h u hu

/-- The threads that are kept are some of the threads, and a match starts where one of them has
started. -/
theorem StartsIn.cutAtAccept (h : StartsIn lo hi threads) :
    StartsIn lo hi (Pattern.cutAtAccept m threads).1 ∧
      ∀ start ∈ (Pattern.cutAtAccept m threads).2, lo ≤ start ∧ start ≤ hi := by
  induction threads with
  | nil => exact ⟨h, fun start hstart => absurd hstart (by simp [Pattern.cutAtAccept])⟩
  | cons t rest ih =>
    have ht := h t List.mem_cons_self
    obtain ⟨hkept, haccepted⟩ := ih fun u hu => h u (List.mem_cons_of_mem t hu)
    simp only [Pattern.cutAtAccept]
    split
    · refine ⟨fun u hu => absurd hu List.not_mem_nil, ?_⟩
      intro start hstart
      obtain rfl := Option.some.inj hstart
      exact ht
    · refine ⟨?_, haccepted⟩
      intro u hu
      rcases List.mem_cons.1 hu with rfl | hu
      · exact ht
      · exact hkept u hu

theorem StartsIn.append_start (h : StartsIn lo hi threads) (hle : lo ≤ hi) (state : Nat) :
    StartsIn lo hi (threads ++ [⟨state, hi⟩]) := by
  intro t ht
  rcases List.mem_append.1 ht with ht | ht
  · exact h t ht
  · rw [List.mem_singleton.1 ht]
    exact ⟨hle, Nat.le_refl hi⟩

/-- The threads that are kept at one column of a run, and where a match that ends there starts. -/
def cutAt (m : Machine) (before after : Option Char) (column : Nat) (threads : List Thread)
    (best : Option (Nat × Nat)) : List Thread × Option Nat :=
  cutAtAccept m (closure m before after
    (if best.isNone then threads ++ [⟨m.start, column⟩] else threads))

/-- The best match when the run leaves a column. -/
def bestAt (m : Machine) (before after : Option Char) (column : Nat) (threads : List Thread)
    (best : Option (Nat × Nat)) : Option (Nat × Nat) :=
  ((cutAt m before after column threads best).2.map fun start => (start, column)).or best

theorem run_cons (m : Machine) (before : Option Char) (column : Nat) (threads : List Thread)
    (best : Option (Nat × Nat)) (c : Char) (cs : List Char) :
    run m before column threads best (c :: cs) =
      if (bestAt m before c column threads best).isSome &&
          (cutAt m before c column threads best).1.isEmpty then
        bestAt m before c column threads best
      else
        run m (some c) (column + 1) (step m c (cutAt m before c column threads best).1)
          (bestAt m before c column threads best) cs :=
  rfl

/-- What one column of a run keeps: the threads have started by now, and the best match so far
starts on the way and stops no earlier. -/
theorem StartsIn.cutAt (m : Machine) (before after : Option Char) {column : Nat}
    {best : Option (Nat × Nat)} (hlo : lo ≤ column) (hthreads : StartsIn lo column threads)
    (hbest : ∀ found ∈ best, lo ≤ found.1 ∧ found.1 ≤ found.2) :
    StartsIn lo column (Pattern.cutAt m before after column threads best).1 ∧
      ∀ found ∈ bestAt m before after column threads best,
        lo ≤ found.1 ∧ found.1 ≤ found.2 := by
  have hcut : StartsIn lo column (Pattern.cutAt m before after column threads best).1 ∧
      ∀ start ∈ (Pattern.cutAt m before after column threads best).2,
        lo ≤ start ∧ start ≤ column := by
    unfold Pattern.cutAt
    split
    · exact (hthreads.append_start hlo m.start).closure.cutAtAccept
    · exact hthreads.closure.cutAtAccept
  refine ⟨hcut.1, ?_⟩
  intro found hfound
  unfold bestAt at hfound
  cases haccepted : (Pattern.cutAt m before after column threads best).2 with
  | none =>
    rw [haccepted] at hfound
    exact hbest found hfound
  | some start =>
    rw [haccepted] at hfound
    obtain rfl : (start, column) = found := Option.some.inj hfound
    exact hcut.2 start haccepted

/-- A match starts where the run has been since `lo`, and stops no earlier.  By induction on the
rest of the line; the invariant is about the threads started so far and the best match so far. -/
theorem run_bounds {column : Nat} {best : Option (Nat × Nat)} (rest : List Char)
    (hlo : lo ≤ column) (hthreads : StartsIn lo column threads)
    (hbest : ∀ found ∈ best, lo ≤ found.1 ∧ found.1 ≤ found.2) :
    ∀ found ∈ run m before column threads best rest, lo ≤ found.1 ∧ found.1 ≤ found.2 := by
  induction rest generalizing before column threads best with
  | nil => exact (hthreads.cutAt m before none hlo hbest).2
  | cons c cs ih =>
    obtain ⟨hkept, hbest'⟩ := hthreads.cutAt m before c hlo hbest
    rw [run_cons]
    split
    · exact hbest'
    · apply ih (by omega) _ hbest'
      intro t ht
      have hbounds := hkept.step c t ht
      exact ⟨hbounds.1, by omega⟩

/-- A match starts no earlier than the search, and stops no earlier than it starts. -/
theorem Machine.find_bounds {column : Nat} {rest : List Char} {start stop : Nat}
    (h : m.find before column rest = some (start, stop)) : column ≤ start ∧ start ≤ stop :=
  run_bounds rest (Nat.le_refl column) (fun t ht => absurd ht List.not_mem_nil)
    (fun found hfound => absurd hfound (by simp)) (start, stop) h

/-- The pieces of a line are the line. -/
theorem flatMap_matchPieces (fuel : Nat) (before : Option Char) (column : Nat)
    (rest : List Char) : (matchPieces m fuel before column rest).flatMap (·.chars) = rest := by
  induction fuel generalizing before column rest with
  | zero => simp [matchPieces]
  | succ fuel ih =>
    unfold matchPieces
    split
    · simp
    · rename_i start stop hfind
      obtain ⟨hstart, hstop⟩ := Machine.find_bounds hfind
      split
      · have hlength : stop - column = (start - column) + (stop - start) := by omega
        simp only [List.flatMap_cons, ih, hlength, ← List.drop_drop, List.take_append_drop]
      · cases rest with
        | nil => rfl
        | cons c cs => simp [ih]

end Pattern

/-- Whatever the rule, words lie inside their line. -/
theorem WordRule.staysInside {rule : WordRule} {m : Matcher} (h : rule.matcher = .ok m) :
    m.StaysInside := by
  cases rule with
  | ascii =>
    obtain rfl : Matcher.ascii = m := Except.ok.inj h
    exact Matcher.staysInside_ascii
  | unicode =>
    obtain rfl : Matcher.unicode = m := Except.ok.inj h
    exact Matcher.staysInside_unicode
  | pattern description =>
    rw [matcher] at h
    split at h
    · exact absurd h (by simp)
    · split at h
      · exact absurd h (by simp)
      · split at h
        · obtain rfl := Except.ok.inj h
          apply Matcher.staysInside_ofCut
          intro line
          rw [totalLength, Pattern.Machine.pieces, Pattern.flatMap_matchPieces]
        · exact absurd h (by simp)

end SelectionLadder
