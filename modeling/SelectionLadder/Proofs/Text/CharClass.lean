import SelectionLadder.Text.CharClass

/-!
# Growing over runs

What `CharClass.grow` adds to a stretch of a text is a run of one class on either side, and no more
of that class stands next to what it gives.

* `CallsFor` says which class the neighbours of a stretch call for, and `callsFor_classAround` that
  it is the one that is taken.
* `GrowsTo` says what growing a stretch gives: `growsTo_grown` for every stretch of a text.
* `grow_reverse`: a text read backwards is grown backwards.
* `growTimes_of_le`: growing over and over reaches the whole text, since a stretch that does not
  grow is the whole text (`GrowsTo.grows`).
* `grow_fills_runs` puts them together.
-/

namespace SelectionLadder.CharClass

variable {cs : List Char} {start stop s e n i : Nat} {k : CharClass} {c : Char}

/-! ## Runs at the head of a list -/

theorem runLength_le (k : CharClass) (cs : List Char) : runLength k cs ≤ cs.length :=
  (List.takeWhile_sublist _).length_le

theorem of_eq_of_lt_runLength (hi : i < runLength k cs) (hc : cs[i]? = some c) : of c = k := by
  induction cs generalizing i with
  | nil => exact absurd hi (Nat.not_lt_zero i)
  | cons d cs ih =>
    unfold runLength at hi ih
    by_cases hd : of d = k
    · rw [List.takeWhile_cons_of_pos (by simpa using hd), List.length_cons] at hi
      cases i with
      | zero =>
        obtain rfl : d = c := Option.some.inj hc
        exact hd
      | succ i => exact ih (Nat.lt_of_succ_lt_succ hi) hc
    · rw [List.takeWhile_cons_of_neg (by simpa using hd)] at hi
      exact absurd hi (Nat.not_lt_zero i)

theorem of_ne_of_getElem?_runLength (hc : cs[runLength k cs]? = some c) : of c ≠ k := by
  induction cs with
  | nil => exact absurd hc (by simp)
  | cons d cs ih =>
    unfold runLength at hc ih
    by_cases hd : of d = k
    · rw [List.takeWhile_cons_of_pos (by simpa using hd), List.length_cons,
        List.getElem?_cons_succ] at hc
      exact ih hc
    · rw [List.takeWhile_cons_of_neg (by simpa using hd)] at hc
      obtain rfl : d = c := Option.some.inj hc
      exact hd

theorem runLength_pos (h : cs.head?.map of = some k) : 0 < runLength k cs := by
  cases cs with
  | nil => exact absurd h (by simp)
  | cons c cs =>
    have hc : of c = k := Option.some.inj h
    rw [runLength, List.takeWhile_cons_of_pos (by simpa using hc)]
    exact Nat.succ_pos _

/-! ## The class that the neighbours call for -/

/-- The character stands right before or right after the stretch. -/
def IsBeside (cs : List Char) (start stop : Nat) (c : Char) : Prop :=
  (∃ i, i + 1 = start ∧ cs[i]? = some c) ∨ cs[stop]? = some c

/-- The class that a stretch grows over: word if a word character is beside it, else whitespace if
whitespace is, else punctuation. -/
def CallsFor (cs : List Char) (start stop : Nat) : CharClass → Prop
  | word => ∃ c, IsBeside cs start stop c ∧ of c = word
  | whitespace =>
    (∃ c, IsBeside cs start stop c ∧ of c = whitespace) ∧
      ∀ c, IsBeside cs start stop c → of c ≠ word
  | punctuation => ∀ c, IsBeside cs start stop c → of c = punctuation

/-- The characters before a place, last first. -/
def charsBefore (cs : List Char) (start : Nat) : List Char := (cs.take start).reverse

/-- The class that is taken for a stretch. -/
def classAround (cs : List Char) (start stop : Nat) : CharClass :=
  choose ((charsBefore cs start).head?.map of) ((cs.drop stop).head?.map of)

theorem length_charsBefore (h : start ≤ cs.length) : (charsBefore cs start).length = start := by
  rw [charsBefore, List.length_reverse, List.length_take, Nat.min_eq_left h]

theorem getElem?_charsBefore (h : start ≤ cs.length) (hi : i < start) :
    (charsBefore cs start)[start - 1 - i]? = cs[i]? := by
  have hlength : (cs.take start).length = start := by rw [List.length_take, Nat.min_eq_left h]
  have hplace : (cs.take start).length - 1 - (start - 1 - i) = i := by omega
  rw [charsBefore, List.getElem?_reverse (by omega), hplace, List.getElem?_take_of_lt hi]

theorem head?_charsBefore_eq_some_iff (h : start ≤ cs.length) :
    (charsBefore cs start).head? = some c ↔ ∃ i, i + 1 = start ∧ cs[i]? = some c := by
  rw [List.head?_eq_getElem?]
  constructor
  · intro hc
    have hpos : 0 < start := by
      have hlt := (List.getElem?_eq_some_iff.1 hc).1
      rwa [length_charsBefore h] at hlt
    refine ⟨start - 1, by omega, ?_⟩
    rwa [← getElem?_charsBefore h (by omega), Nat.sub_self]
  · rintro ⟨i, rfl, hc⟩
    rwa [← getElem?_charsBefore h (Nat.lt_succ_self i), Nat.add_sub_cancel, Nat.sub_self] at hc

/-- A class is beside a stretch if it is that of the neighbour before it or of the one after it. -/
theorem exists_isBeside_iff (h : start ≤ cs.length) :
    (∃ c, IsBeside cs start stop c ∧ of c = k) ↔
      (charsBefore cs start).head?.map of = some k ∨ (cs.drop stop).head?.map of = some k := by
  simp only [IsBeside, Option.map_eq_some_iff, head?_charsBefore_eq_some_iff h, List.head?_drop,
    or_and_right, exists_or]

theorem callsFor_classAround (h : start ≤ cs.length) :
    CallsFor cs start stop (classAround cs start stop) := by
  have hbeside : ∀ k, (∃ c, IsBeside cs start stop c ∧ of c = k) ↔
      (charsBefore cs start).head?.map of = some k ∨ (cs.drop stop).head?.map of = some k :=
    fun k => exists_isBeside_iff h
  have hnone : ∀ {k}, ¬ ((charsBefore cs start).head?.map of = some k ∨
      (cs.drop stop).head?.map of = some k) → ∀ c, IsBeside cs start stop c → of c ≠ k :=
    fun hk c hc heq => hk ((hbeside _).1 ⟨c, hc, heq⟩)
  unfold classAround choose
  split
  · next hword => exact (hbeside word).2 hword
  · next hword =>
    split
    · next hspace => exact ⟨(hbeside whitespace).2 hspace, hnone hword⟩
    · next hspace =>
      intro c hc
      cases hk : of c with
      | word => exact absurd hk (hnone hword c hc)
      | whitespace => exact absurd hk (hnone hspace c hc)
      | punctuation => rfl

theorem choose_comm (b a : Option CharClass) : choose b a = choose a b := by
  simp only [choose, or_comm]

/-- The class that is chosen is that of a neighbour, if there is one. -/
theorem eq_some_choose {b a : Option CharClass} (h : b ≠ none ∨ a ≠ none) :
    b = some (choose b a) ∨ a = some (choose b a) := by
  rcases b with _ | _ | _ | _ <;> rcases a with _ | _ | _ | _ <;> simp_all [choose]

/-! ## What growing gives -/

/-- Growing the stretch from `start` to `stop` over the class `k` gives the one from `s` to `e`:
what is added on either side has the class, and what stands beside it then has not.  Only the whole
text does not grow. -/
structure GrowsTo (cs : List Char) (start stop s e : Nat) (k : CharClass) : Prop where
  calledFor : CallsFor cs start stop k
  start_le : s ≤ start
  le_stop : stop ≤ e
  stop_le_length : e ≤ cs.length
  filled : ∀ i c, cs[i]? = some c → s ≤ i ∧ i < start ∨ stop ≤ i ∧ i < e → of c = k
  starts : ∀ i c, i + 1 = s → cs[i]? = some c → of c ≠ k
  stops : ∀ c, cs[e]? = some c → of c ≠ k
  grows : s = start → e = stop → start = 0 ∧ stop = cs.length

/-- The stretch that growing gives. -/
def grown (cs : List Char) (start stop : Nat) : Nat × Nat :=
  let k := classAround cs start stop
  (start - runLength k (charsBefore cs start), stop + runLength k (cs.drop stop))

theorem grow_eq_ok (hle : start ≤ stop) (hstop : stop ≤ cs.length) :
    grow cs start stop = .ok (grown cs start stop) := by
  rw [grow, if_neg (by omega)]
  rfl

theorem grow_eq_error_iff {bad : BadOffsets} :
    grow cs start stop = .error bad ↔
      bad = ⟨start, stop, cs.length⟩ ∧ (stop < start ∨ cs.length < stop) := by
  by_cases h : stop < start ∨ cs.length < stop
  · rw [grow, if_pos h]
    simp [h, eq_comm]
  · rw [grow_eq_ok (by omega) (by omega)]
    simp [h]

/-- A stretch with nothing beside it is the whole text. -/
theorem eq_whole_of_head? (hle : start ≤ stop) (hstop : stop ≤ cs.length)
    (hbefore : (charsBefore cs start).head? = none) (hafter : (cs.drop stop).head? = none) :
    start = 0 ∧ stop = cs.length := by
  have hstart : (charsBefore cs start).length = 0 := by
    rw [List.head?_eq_none_iff.1 hbefore, List.length_nil]
  have hend : (cs.drop stop).length = 0 := by
    rw [List.head?_eq_none_iff.1 hafter, List.length_nil]
  rw [length_charsBefore (by omega)] at hstart
  rw [List.length_drop] at hend
  omega

theorem growsTo_grown (hle : start ≤ stop) (hstop : stop ≤ cs.length) :
    GrowsTo cs start stop (grown cs start stop).1 (grown cs start stop).2
      (classAround cs start stop) := by
  have hstart : start ≤ cs.length := Nat.le_trans hle hstop
  have hbefore := runLength_le (classAround cs start stop) (charsBefore cs start)
  have hafter := runLength_le (classAround cs start stop) (cs.drop stop)
  rw [length_charsBefore hstart] at hbefore
  rw [List.length_drop] at hafter
  refine ⟨callsFor_classAround hstart, Nat.sub_le _ _, Nat.le_add_right _ _, ?_, ?_, ?_, ?_, ?_⟩
  · show stop + _ ≤ _
    omega
  · rintro i c hc (⟨hlow, hhigh⟩ | ⟨hlow, hhigh⟩)
    · rw [← getElem?_charsBefore hstart hhigh] at hc
      simp only [grown] at hlow
      exact of_eq_of_lt_runLength (by omega) hc
    · have hplace : stop + (i - stop) = i := by omega
      rw [← hplace, ← List.getElem?_drop] at hc
      simp only [grown] at hhigh
      exact of_eq_of_lt_runLength (by omega) hc
  · intro i c hi hc
    simp only [grown] at hi
    have hplace : start - 1 - i = runLength (classAround cs start stop) (charsBefore cs start) := by
      omega
    rw [← getElem?_charsBefore hstart (by omega), hplace] at hc
    exact of_ne_of_getElem?_runLength hc
  · intro c hc
    simp only [grown, ← List.getElem?_drop] at hc
    exact of_ne_of_getElem?_runLength hc
  · intro hs he
    simp only [grown] at hs he
    -- A neighbour of the chosen class would start a run.
    have hnone : ¬ ((charsBefore cs start).head?.map of ≠ none ∨
        (cs.drop stop).head?.map of ≠ none) := by
      intro hsome
      rcases eq_some_choose hsome with hk | hk
      · have := runLength_pos hk
        change 0 < runLength (classAround cs start stop) _ at this
        omega
      · have := runLength_pos hk
        change 0 < runLength (classAround cs start stop) _ at this
        omega
    simp only [not_or, ne_eq, Decidable.not_not, Option.map_eq_none_iff] at hnone
    exact eq_whole_of_head? hle hstop hnone.1 hnone.2

/-! ## Backwards -/

theorem charsBefore_reverse (hstop : stop ≤ cs.length) :
    charsBefore cs.reverse (cs.length - stop) = cs.drop stop := by
  rw [charsBefore, List.take_reverse, List.reverse_reverse, Nat.sub_sub_self hstop]

theorem drop_reverse (hstart : start ≤ cs.length) :
    cs.reverse.drop (cs.length - start) = charsBefore cs start := by
  rw [charsBefore, List.drop_reverse, Nat.sub_sub_self hstart]

theorem grown_reverse (hle : start ≤ stop) (hstop : stop ≤ cs.length) :
    grown cs.reverse (cs.length - stop) (cs.length - start) =
      (cs.length - (grown cs start stop).2, cs.length - (grown cs start stop).1) := by
  have hstart : start ≤ cs.length := Nat.le_trans hle hstop
  have hclass : classAround cs.reverse (cs.length - stop) (cs.length - start) =
      classAround cs start stop := by
    rw [classAround, charsBefore_reverse hstop, drop_reverse hstart, choose_comm, classAround]
  have hbefore := runLength_le (classAround cs start stop) (charsBefore cs start)
  rw [length_charsBefore hstart] at hbefore
  simp only [grown, hclass, charsBefore_reverse hstop, drop_reverse hstart, Prod.mk.injEq]
  omega

/-! ## Over and over -/

/-- The stretch after growing `n` times. -/
def growTimes (cs : List Char) : Nat → Nat → Nat → Except BadOffsets (Nat × Nat)
  | 0, start, stop => .ok (start, stop)
  | n + 1, start, stop => do
    let (s, e) ← grow cs start stop
    growTimes cs n s e

/-- Growing as often as there are characters outside the stretch reaches the whole text.  Each time
some of them come in, or none is left. -/
theorem growTimes_of_le (hle : start ≤ stop) (hstop : stop ≤ cs.length)
    (hn : cs.length - (stop - start) ≤ n) : growTimes cs n start stop = .ok (0, cs.length) := by
  induction n generalizing start stop with
  | zero =>
    obtain ⟨rfl, rfl⟩ : start = 0 ∧ stop = cs.length := by omega
    rfl
  | succ n ih =>
    have hgrown := growsTo_grown hle hstop
    have hstart := hgrown.start_le
    have hend := hgrown.le_stop
    have hlength := hgrown.stop_le_length
    have hgrows := hgrown.grows
    rw [growTimes, grow_eq_ok hle hstop]
    show growTimes cs n (grown cs start stop).1 (grown cs start stop).2 = _
    apply ih <;> omega

/-- Growing fails exactly on offsets that do not delimit a stretch of the text.  Otherwise it adds
on either side the whole run of the class that the neighbours call for, and something unless the
stretch is the whole text.  On the text read backwards it gives the same stretch read backwards, and
done over and over it reaches the whole text and stays there. -/
theorem grow_fills_runs (cs : List Char) (start stop : Nat) :
    (∀ bad, grow cs start stop = .error bad ↔
      bad = ⟨start, stop, cs.length⟩ ∧ (stop < start ∨ cs.length < stop)) ∧
    (start ≤ stop → stop ≤ cs.length →
      ∃ s e k, grow cs start stop = .ok (s, e) ∧ GrowsTo cs start stop s e k ∧
        grow cs.reverse (cs.length - stop) (cs.length - start) =
          .ok (cs.length - e, cs.length - s) ∧
        ∀ n, cs.length - (stop - start) ≤ n → growTimes cs n start stop = .ok (0, cs.length)) := by
  refine ⟨fun bad => grow_eq_error_iff, fun hle hstop => ?_⟩
  refine ⟨(grown cs start stop).1, (grown cs start stop).2, classAround cs start stop,
    grow_eq_ok hle hstop, growsTo_grown hle hstop, ?_, ?_⟩
  · rw [grow_eq_ok (by omega) (by rw [List.length_reverse]; omega), grown_reverse hle hstop]
  · intro n hn
    exact growTimes_of_le hle hstop hn

/-- A word with a hyphen between punctuation and spaces. -/
def hyphenChars : List Char := ['.', ' ', 'd', 'a', '-', 's', 'h', ' ', 'é']

theorem grow_fills_runs_hyphenChars :
    (4 ≤ 5 ∧ 5 ≤ hyphenChars.length) ∧
      grow hyphenChars 4 5 = .ok (2, 7) ∧ GrowsTo hyphenChars 4 5 2 7 .word ∧
      grow hyphenChars.reverse 4 5 = .ok (2, 7) ∧
      growTimes hyphenChars 8 4 5 = .ok (0, 9) := by
  obtain ⟨-, hgrow⟩ := grow_fills_runs hyphenChars 4 5
  obtain ⟨s, e, k, hok, hgrows, hreverse, htimes⟩ := hgrow (by decide) (by decide)
  obtain ⟨rfl, rfl⟩ : s = 2 ∧ e = 7 := by
    have hpair : Except.ok (s, e) = (.ok (2, 7) : Except BadOffsets _) := hok.symm.trans rfl
    simpa using hpair
  have hk : k = .word := (hgrows.filled 3 'a' rfl (.inl (by decide))).symm.trans (by decide)
  exact ⟨by decide, hok, hk ▸ hgrows, hreverse, htimes 8 (by decide)⟩

end SelectionLadder.CharClass
