import Mathlib.Data.List.SplitBy
import SelectionLadder.Proofs.Word.Columns
import SelectionLadder.Text.Tiers
import SelectionLadder.Word.Rule

/-!
# ASCII words are runs

The words that `Matcher.ascii` finds are the maximal runs of word characters.

* `Alternates` says of a cut that its pieces are of word characters and of others in turn, as those
  of `asciiPieces` are (`alternates_splitBy`).
* `hasWordChar_iff`: the words cover the columns of word characters and no others.
  `separated_ascii`: between two words there is a column.  These two determine the words, so that
  they are the runs (`isRun_of_mem_ascii` and `exists_mem_ascii`).
* `asciiColumns` reads the line one character after the other, with the start of the word that is
  being read.  It finds the same words (`asciiColumns_eq`).
* `ascii_words_are_runs` puts them together, with what is found at a column.
-/

namespace SelectionLadder

variable {line run : Line} {runs : List Line} {ws : List Word} {w w' : Word}
variable {i column start stop : Nat}

/-! ## Runs of a line -/

/-- The column holds a word character. -/
def HasWordChar (cs : Line) (i : Nat) : Prop := cs[i]?.any isWordChar = true

instance (line : Line) (i : Nat) : Decidable (HasWordChar line i) :=
  inferInstanceAs (Decidable (_ = true))

/-- The columns from `start` up to `stop` are a maximal run of word characters. -/
structure IsRun (line : Line) (start stop : Nat) : Prop where
  start_lt_stop : start < stop
  full : ∀ i, start ≤ i → i < stop → HasWordChar line i
  starts : ∀ i, i + 1 = start → ¬ HasWordChar line i
  stops : ¬ HasWordChar line stop

/-- Between two words there is a column. -/
def Separated (ws : List Word) : Prop := ws.Pairwise fun w w' => w.stop < w'.start

theorem Separated.inOrder (h : Separated ws) : InOrder ws := h.imp Nat.le_of_lt

theorem isWordChar_iff (c : Char) :
    isWordChar c ↔
      'A' ≤ c ∧ c ≤ 'Z' ∨ 'a' ≤ c ∧ c ≤ 'z' ∨ '0' ≤ c ∧ c ≤ '9' ∨ c = '_' := by
  have hkinds : isWordChar c = (((c.isUpper || c.isLower) || c.isDigit) || c == '_') := rfl
  have hrange : ∀ low high : Char,
      (decide (c.val ≥ low.val) && decide (c.val ≤ high.val)) = true ↔ low ≤ c ∧ c ≤ high := by
    intro low high
    rw [Bool.and_eq_true, decide_eq_true_iff, decide_eq_true_iff]
    rfl
  have hupper : c.isUpper ↔ 'A' ≤ c ∧ c ≤ 'Z' := decide_eq_true_iff
  have hlower : c.isLower ↔ 'a' ≤ c ∧ c ≤ 'z' := hrange 'a' 'z'
  have hdigit : c.isDigit ↔ '0' ≤ c ∧ c ≤ '9' := hrange '0' '9'
  rw [hkinds, Bool.or_eq_true, Bool.or_eq_true, Bool.or_eq_true, hupper, hlower, hdigit, beq_iff_eq,
    or_assoc, or_assoc]

/-! ## Pieces of word characters and of others -/

/-- Pieces of word characters and pieces of other characters in turn. -/
structure Alternates (runs : List Line) : Prop where
  ne_nil : [] ∉ runs
  uniform : ∀ run ∈ runs, ∀ c ∈ run, isWordChar c = run.any isWordChar
  inTurn : runs.IsChain fun run next => run.any isWordChar ≠ next.any isWordChar

theorem Alternates.tail (h : Alternates (run :: runs)) : Alternates runs where
  ne_nil := fun hnil => h.ne_nil (List.mem_cons_of_mem run hnil)
  uniform := fun run' hrun' => h.uniform run' (List.mem_cons_of_mem run hrun')
  inTurn := h.inTurn.tail

/-- A piece in which neighbours are alike is of one kind. -/
theorem isWordChar_eq_any (h : run.IsChain fun a b => isWordChar a == isWordChar b) :
    ∀ c ∈ run, isWordChar c = run.any isWordChar := by
  induction run with
  | nil => exact fun c hc => absurd hc List.not_mem_nil
  | cons d run ih =>
    have hrest := ih h.tail
    cases run with
    | nil => simp
    | cons e run =>
      have hde : isWordChar d = isWordChar e := by simpa using (List.isChain_cons_cons.1 h).1
      have he := hrest e List.mem_cons_self
      intro c hc
      rw [List.any_cons, ← he, hde, Bool.or_self]
      rcases List.mem_cons.1 hc with rfl | hc
      · exact hde
      · rw [hrest c hc, he]

theorem alternates_splitBy (line : Line) :
    Alternates (line.splitBy fun a b => isWordChar a == isWordChar b) := by
  have huniform : ∀ run ∈ line.splitBy fun a b => isWordChar a == isWordChar b,
      ∀ c ∈ run, isWordChar c = run.any isWordChar :=
    fun run hrun => isWordChar_eq_any (List.isChain_of_mem_splitBy hrun)
  refine ⟨List.nil_notMem_splitBy _ line, huniform, ?_⟩
  have hends := List.isChain_getLast_head_splitBy (fun a b => isWordChar a == isWordChar b) line
  refine hends.imp_of_mem_imp ?_
  rintro run next hrun hnext ⟨hlast, hhead, hne⟩
  rw [← huniform run hrun _ (List.getLast_mem hlast), ← huniform next hnext _ (List.head_mem hhead)]
  simpa using hne

/-! ## Words of such pieces -/

/-- The words of a cut into such pieces. -/
def wordsOfRuns (column : Nat) (runs : List Line) : List Word :=
  wordsFrom column (runs.map fun run => ⟨run, run.any isWordChar⟩)

theorem wordsOfRuns_cons_of_pos (hrun : run.any isWordChar) (h : column < column + run.length)
    (runs : List Line) :
    wordsOfRuns column (run :: runs) =
      ⟨column, column + run.length, h⟩ :: wordsOfRuns (column + run.length) runs := by
  simp only [wordsOfRuns, List.map_cons, wordsFrom]
  rw [dif_pos ⟨hrun, h⟩]

theorem wordsOfRuns_cons_of_neg (hrun : ¬ run.any isWordChar) (column : Nat) (runs : List Line) :
    wordsOfRuns column (run :: runs) = wordsOfRuns (column + run.length) runs := by
  simp only [wordsOfRuns, List.map_cons, wordsFrom]
  rw [dif_neg fun h => hrun h.1]

theorem Alternates.length_pos (h : Alternates runs) (hrun : run ∈ runs) : 0 < run.length :=
  List.length_pos_of_ne_nil fun hnil => h.ne_nil (hnil ▸ hrun)

/-- After a piece of word characters there is one of other characters. -/
theorem Alternates.not_any_next {next : Line} (h : Alternates (run :: next :: runs))
    (hrun : run.any isWordChar) : ¬ next.any isWordChar := by
  have hne := (List.isChain_cons_cons.1 h.inTurn).1
  rw [hrun] at hne
  exact fun heq => hne heq.symm

/-- After a word there is a piece of other characters, unless the line ends. -/
theorem Alternates.separated (h : Alternates runs) (column : Nat) :
    Separated (wordsOfRuns column runs) := by
  induction runs generalizing column with
  | nil => exact .nil
  | cons run runs ih =>
    by_cases hrun : run.any isWordChar
    · have hpos := h.length_pos List.mem_cons_self
      rw [wordsOfRuns_cons_of_pos hrun (by omega)]
      refine .cons ?_ (ih h.tail _)
      intro w hw
      cases runs with
      | nil => exact absurd hw List.not_mem_nil
      | cons next runs =>
        have hnext := h.not_any_next hrun
        have hlength := h.tail.length_pos List.mem_cons_self
        rw [wordsOfRuns_cons_of_neg hnext] at hw
        have hstart := le_start_of_mem_wordsFrom hw
        show column + run.length < w.start
        omega
    · rw [wordsOfRuns_cons_of_neg hrun]
      exact ih h.tail _

theorem hasWordChar_append_left (hi : i < run.length) (rest : Line) :
    HasWordChar (run ++ rest) i ↔ HasWordChar run i := by
  rw [HasWordChar, HasWordChar, List.getElem?_append_left hi]

theorem hasWordChar_append_right (hi : run.length ≤ i) (rest : Line) :
    HasWordChar (run ++ rest) i ↔ HasWordChar rest (i - run.length) := by
  rw [HasWordChar, HasWordChar, List.getElem?_append_right hi]

/-- All columns of a piece hold word characters, or none does. -/
theorem Alternates.hasWordChar_iff_any (h : Alternates runs) (hrun : run ∈ runs)
    (hi : i < run.length) : HasWordChar run i ↔ run.any isWordChar := by
  rw [HasWordChar, List.getElem?_eq_getElem hi, Option.any_some,
    h.uniform run hrun _ (List.getElem_mem hi)]

/-- The words cover the columns of word characters and no others. -/
theorem Alternates.hasWordChar_iff (h : Alternates runs) (column i : Nat) :
    HasWordChar runs.flatten i ↔
      ∃ w ∈ wordsOfRuns column runs, w.start ≤ column + i ∧ column + i < w.stop := by
  induction runs generalizing column i with
  | nil => simp [HasWordChar, wordsOfRuns, wordsFrom]
  | cons run runs ih =>
    have hpos := h.length_pos List.mem_cons_self
    rw [List.flatten_cons]
    by_cases hi : i < run.length
    · have hnone : ¬ ∃ w ∈ wordsOfRuns (column + run.length) runs,
          w.start ≤ column + i ∧ column + i < w.stop := by
        rintro ⟨w, hw, hstart, -⟩
        have hle := le_start_of_mem_wordsFrom hw
        omega
      rw [hasWordChar_append_left hi, h.hasWordChar_iff_any List.mem_cons_self hi]
      by_cases hrun : run.any isWordChar
      · rw [wordsOfRuns_cons_of_pos hrun (by omega)]
        exact iff_of_true hrun ⟨_, List.mem_cons_self, Nat.le_add_right _ _, by simpa using hi⟩
      · rw [wordsOfRuns_cons_of_neg hrun]
        exact iff_of_false hrun hnone
    · have hplace : column + run.length + (i - run.length) = column + i := by omega
      rw [hasWordChar_append_right (Nat.le_of_not_lt hi), ih h.tail (column + run.length), hplace]
      by_cases hrun : run.any isWordChar
      · have hfirst : ¬ column + i < column + run.length := by omega
        rw [wordsOfRuns_cons_of_pos hrun (by omega)]
        simp only [List.mem_cons, exists_eq_or_imp, hfirst, and_false, false_or]
      · rw [wordsOfRuns_cons_of_neg hrun]

/-! ## One character after the other -/

/-- The words of what is left of a line from the column on.  The word that is being read starts at
`opened`; it stops before the next other character, or where the line ends. -/
def asciiColumnsFrom (column : Nat) (opened : Option Nat) : Line → List Columns
  | [] => (opened.map fun start => ⟨start, column⟩).toList
  | c :: cs =>
    match isWordChar c, opened with
    | true, none => asciiColumnsFrom (column + 1) (some column) cs
    | false, some start => ⟨start, column⟩ :: asciiColumnsFrom (column + 1) none cs
    | _, _ => asciiColumnsFrom (column + 1) opened cs

/-- The words of a line, read one character after the other. -/
def asciiColumns (line : Line) : List Columns := asciiColumnsFrom 0 none line

/-- Characters that go on with what is being read, a word or what stands between words, are passed
over. -/
theorem asciiColumnsFrom_append (opened : Option Nat)
    (hrun : ∀ c ∈ run, isWordChar c = opened.isSome) (column : Nat) (rest : Line) :
    asciiColumnsFrom column opened (run ++ rest) =
      asciiColumnsFrom (column + run.length) opened rest := by
  induction run generalizing column with
  | nil => rfl
  | cons c run ih =>
    have hc := hrun c List.mem_cons_self
    have hstep : asciiColumnsFrom column opened (c :: (run ++ rest)) =
        asciiColumnsFrom (column + 1) opened (run ++ rest) := by
      cases opened with
      | none => simp only [asciiColumnsFrom, hc, Option.isSome_none]
      | some start => simp only [asciiColumnsFrom, hc, Option.isSome_some]
    rw [List.cons_append, hstep, ih fun c hc => hrun c (List.mem_cons_of_mem _ hc), List.length_cons]
    congr 1
    omega

/-- The first of some word characters starts a word. -/
theorem asciiColumnsFrom_opens (hrun : ∀ c ∈ run, isWordChar c = true) (hne : run ≠ [])
    (column : Nat) (rest : Line) :
    asciiColumnsFrom column none (run ++ rest) =
      asciiColumnsFrom (column + run.length) (some column) rest := by
  cases run with
  | nil => exact absurd rfl hne
  | cons c run =>
    have hc := hrun c List.mem_cons_self
    simp only [List.cons_append, asciiColumnsFrom, hc]
    rw [asciiColumnsFrom_append (some column) fun c hc => hrun c (List.mem_cons_of_mem _ hc),
      List.length_cons]
    congr 1
    omega

/-- A word stops where no word character follows. -/
theorem asciiColumnsFrom_closes {rest : Line} (hrest : ∀ c ∈ rest.head?, isWordChar c = false)
    (column start : Nat) :
    asciiColumnsFrom column (some start) rest =
      ⟨start, column⟩ :: asciiColumnsFrom column none rest := by
  cases rest with
  | nil => rfl
  | cons c rest =>
    have hc := hrest c rfl
    simp only [asciiColumnsFrom, hc]

theorem Alternates.head?_flatten (h : Alternates (run :: runs)) (hrun : run.any isWordChar) :
    ∀ c ∈ runs.flatten.head?, isWordChar c = false := by
  intro c hc
  cases runs with
  | nil => exact absurd hc (by simp)
  | cons next runs =>
    obtain ⟨d, ds, hnext⟩ := List.exists_cons_of_ne_nil
      (List.length_pos_iff.1 (h.tail.length_pos List.mem_cons_self))
    have hd : d = c := by simpa [hnext] using hc
    have huniform := h.tail.uniform next List.mem_cons_self c (by simp [hnext, hd])
    rw [huniform]
    exact Bool.eq_false_iff.2 (h.not_any_next hrun)

/-- Reading finds the words of the pieces.  By induction on the pieces: a word is opened by the
first character of its piece and closed by the first of the next. -/
theorem Alternates.asciiColumnsFrom_flatten (h : Alternates runs) (column : Nat) :
    asciiColumnsFrom column none runs.flatten = (wordsOfRuns column runs).map Word.columns := by
  induction runs generalizing column with
  | nil => rfl
  | cons run runs ih =>
    have huniform := h.uniform run List.mem_cons_self
    have hpos := h.length_pos List.mem_cons_self
    rw [List.flatten_cons]
    by_cases hrun : run.any isWordChar
    · rw [asciiColumnsFrom_opens (fun c hc => (huniform c hc).trans hrun)
        (List.length_pos_iff.1 hpos), asciiColumnsFrom_closes (h.head?_flatten hrun), ih h.tail,
        wordsOfRuns_cons_of_pos hrun (by omega)]
      rfl
    · rw [asciiColumnsFrom_append none
        (fun c hc => (huniform c hc).trans (Bool.eq_false_iff.2 hrun)), ih h.tail,
        wordsOfRuns_cons_of_neg hrun]

/-! ## ASCII words -/

theorem asciiColumns_eq (line : Line) :
    asciiColumns line = (Matcher.ascii line).map Word.columns := by
  have hread := (alternates_splitBy line).asciiColumnsFrom_flatten 0
  rwa [List.flatten_splitBy] at hread

theorem separated_ascii (line : Line) : Separated (Matcher.ascii line) :=
  (alternates_splitBy line).separated 0

theorem hasWordChar_iff (line : Line) (i : Nat) :
    HasWordChar line i ↔ ∃ w ∈ Matcher.ascii line, w.start ≤ i ∧ i < w.stop := by
  have hcover := (alternates_splitBy line).hasWordChar_iff 0 i
  rw [List.flatten_splitBy, Nat.zero_add] at hcover
  exact hcover

/-- Words that have a column in common, or that touch one, are the same. -/
theorem Separated.eq_of_touches (h : Separated ws) (hw : w ∈ ws) (hw' : w' ∈ ws)
    (htouches : w.Touches column) (htouches' : w'.Touches column) : w = w' := by
  obtain ⟨hstart, hstop⟩ := htouches
  obtain ⟨hstart', hstop'⟩ := htouches'
  rcases eq_or_of_pairwise h hw hw' with heq | hlt | hlt
  · exact heq
  · omega
  · omega

/-- A word is a run: a word character next to it would be in a word of its own. -/
theorem isRun_of_mem_ascii (hw : w ∈ Matcher.ascii line) : IsRun line w.start w.stop := by
  have hlt := w.start_lt_stop
  refine ⟨hlt, fun i hlow hhigh => (hasWordChar_iff line i).2 ⟨w, hw, hlow, hhigh⟩, ?_, ?_⟩
  · intro i hi hword
    obtain ⟨v, hv, hstart, hstop⟩ := (hasWordChar_iff line i).1 hword
    have htouches : v.Touches w.start := ⟨by omega, by omega⟩
    obtain rfl : v = w := (separated_ascii line).eq_of_touches hv hw htouches
      ⟨Nat.le_refl _, Nat.le_of_lt hlt⟩
    omega
  · intro hword
    obtain ⟨v, hv, hstart, hstop⟩ := (hasWordChar_iff line w.stop).1 hword
    have htouches : v.Touches w.stop := ⟨hstart, Nat.le_of_lt hstop⟩
    obtain rfl : v = w := (separated_ascii line).eq_of_touches hv hw htouches
      ⟨Nat.le_of_lt hlt, Nat.le_refl _⟩
    omega

/-- A run is a word: the word at its first column can neither start before it nor stop elsewhere. -/
theorem exists_mem_ascii (h : IsRun line start stop) :
    ∃ w ∈ Matcher.ascii line, w.start = start ∧ w.stop = stop := by
  obtain ⟨w, hw, hstart, hstop⟩ :=
    (hasWordChar_iff line start).1 (h.full start (Nat.le_refl _) h.start_lt_stop)
  have hrun := isRun_of_mem_ascii hw
  have hlt := h.start_lt_stop
  refine ⟨w, hw, ?_, ?_⟩
  · by_contra hne
    exact h.starts (start - 1) (by omega) (hrun.full _ (by omega) (by omega))
  · rcases Nat.lt_trichotomy w.stop stop with hless | heq | hmore
    · exact absurd (h.full w.stop (by omega) hless) hrun.stops
    · exact heq
    · exact absurd (hrun.full stop (by omega) hmore) h.stops

theorem wordAt_ascii_eq_some_iff :
    Matcher.ascii.wordAt line column = some w ↔ w ∈ Matcher.ascii line ∧ w.Touches column := by
  rw [Matcher.wordAt_eq_some_iff (separated_ascii line).inOrder]
  refine and_congr_right fun hw => and_iff_left_of_imp fun htouches w' hw' htouches' => ?_
  rw [(separated_ascii line).eq_of_touches hw hw' htouches htouches']

theorem wordAt_ascii_eq_none_iff :
    Matcher.ascii.wordAt line column = none ↔
      ¬ HasWordChar line column ∧ ∀ i, i + 1 = column → ¬ HasWordChar line i := by
  rw [Matcher.wordAt_eq_none_iff]
  simp only [hasWordChar_iff]
  constructor
  · intro hnone
    refine ⟨?_, ?_⟩
    · rintro ⟨w, hw, hstart, hstop⟩
      exact hnone w hw ⟨hstart, Nat.le_of_lt hstop⟩
    · rintro i rfl ⟨w, hw, hstart, hstop⟩
      exact hnone w hw ⟨Nat.le_succ_of_le hstart, hstop⟩
  · rintro ⟨hafter, hbefore⟩ w hw ⟨hstart, hstop⟩
    have hlt := w.start_lt_stop
    rcases Nat.lt_or_eq_of_le hstop with hless | rfl
    · exact hafter ⟨w, hw, hstart, hless⟩
    · exact hbefore (w.stop - 1) (by omega) ⟨w, hw, by omega, by omega⟩

/-- The word that a text itself finds is that of the ASCII rule. -/
theorem Text.wordRange_ascii (t : Text) (p : Position) :
    t.wordRange .ascii p = (t.wordAt? p).getD (.caret p) := by
  rw [wordRange, wordAt?]
  cases t.line? p.line with
  | none => rfl
  | some line =>
    rw [Option.bind_some, Option.bind_some]
    cases Matcher.ascii.wordAt line p.column <;> rfl

/-- ASCII words are the maximal runs of letters, digits and low lines, from left to right.  Every
such character lies in exactly one word and no other character in any, and between two words there
is a column.  So at most one word touches a column, and it is the one that is found; none is found
if neither the character at the column nor the one before it is of a word.  Reading the line one
character after the other finds these words, and a text itself finds the same as the ASCII rule. -/
theorem ascii_words_are_runs (line : Line) :
    (∀ c, isWordChar c ↔
      'A' ≤ c ∧ c ≤ 'Z' ∨ 'a' ≤ c ∧ c ≤ 'z' ∨ '0' ≤ c ∧ c ≤ '9' ∨ c = '_') ∧
    (Matcher.ascii line).Pairwise (fun w w' => w.stop < w'.start) ∧
    (∀ start stop, (∃ w ∈ Matcher.ascii line, w.start = start ∧ w.stop = stop) ↔
      IsRun line start stop) ∧
    (∀ i, HasWordChar line i → ∃! w, w ∈ Matcher.ascii line ∧ w.start ≤ i ∧ i < w.stop) ∧
    (∀ i, ¬ HasWordChar line i → ∀ w ∈ Matcher.ascii line, ¬ (w.start ≤ i ∧ i < w.stop)) ∧
    (∀ column,
      (∀ w, Matcher.ascii.wordAt line column = some w ↔
        w ∈ Matcher.ascii line ∧ w.Touches column) ∧
      (Matcher.ascii.wordAt line column = none ↔
        ¬ HasWordChar line column ∧ ∀ i, i + 1 = column → ¬ HasWordChar line i)) ∧
    asciiColumns line = (Matcher.ascii line).map Word.columns ∧
    WordRule.ascii.matcher = .ok .ascii ∧
      ∀ (t : Text) (p : Position), t.wordRange .ascii p = (t.wordAt? p).getD (.caret p) := by
  refine ⟨isWordChar_iff, separated_ascii line, ?_, ?_, ?_,
    fun column => ⟨fun w => wordAt_ascii_eq_some_iff, wordAt_ascii_eq_none_iff⟩,
    asciiColumns_eq line, rfl, Text.wordRange_ascii⟩
  · intro start stop
    constructor
    · rintro ⟨w, hw, rfl, rfl⟩
      exact isRun_of_mem_ascii hw
    · exact exists_mem_ascii
  · intro i hi
    obtain ⟨w, hw, hstart, hstop⟩ := (hasWordChar_iff line i).1 hi
    refine ⟨w, ⟨hw, hstart, hstop⟩, ?_⟩
    rintro w' ⟨hw', hstart', hstop'⟩
    exact (separated_ascii line).eq_of_touches hw' hw ⟨hstart', Nat.le_of_lt hstop'⟩
      ⟨hstart, Nat.le_of_lt hstop⟩
  · rintro i hi w hw ⟨hstart, hstop⟩
    exact hi ((hasWordChar_iff line i).2 ⟨w, hw, hstart, hstop⟩)

/-- A word between letters of two bytes, and one at the end. -/
def accentedLine : Line := ['é', 'a', '_', 'é', ' ', '1']

theorem ascii_words_are_runs_accentedLine :
    HasWordChar accentedLine 2 ∧
      (∃! w, w ∈ Matcher.ascii accentedLine ∧ w.start ≤ 2 ∧ 2 < w.stop) ∧
      IsRun accentedLine 1 3 ∧
      Matcher.ascii.wordAt accentedLine 3 = some ⟨1, 3, by decide⟩ ∧
      ¬ HasWordChar accentedLine 0 ∧ Matcher.ascii.wordAt accentedLine 0 = none := by
  obtain ⟨-, -, hruns, hone, -, hfound, -⟩ := ascii_words_are_runs accentedLine
  refine ⟨by decide, hone 2 (by decide), (hruns 1 3).1 ⟨⟨1, 3, by decide⟩, by decide, rfl, rfl⟩,
    ((hfound 3).1 _).2 ⟨by decide, by decide⟩, by decide, (hfound 0).2.2 ⟨by decide, ?_⟩⟩
  exact fun i hi => absurd hi (Nat.succ_ne_zero i)

end SelectionLadder
