import SelectionLadder.Proofs.Text.Bytes
import SelectionLadder.Proofs.Word.Placement
import SelectionLadder.Proofs.Word.Runs

/-!
# Words that are reported in bytes

A search reports what it finds in a line as ranges of bytes, and the words are these ranges in
columns.  What is asked of the search is that its ranges stop between characters and come in order.

* `ByteRange.columns` counts the characters before a range and in it.  For ranges that stop between
  characters it inverts `Columns.bytes` (`Columns.columns_bytes`, `OnBoundaries.bytes_columns`), so
  that ranges which are reported well lie inside the line and come in order
  (`WellReported.stop_le`, `WellReported.pairwise_columns`).
* The words of a cut are those of a search that reports its pieces (`columns_reportsOfCut`).
* `Finders` are the searches that rules rely on: one for patterns and one for word segments.
  `WordRule.wordsBy` are the words that a rule makes of them.  Segments are words as they are
  reported, of matches only those that hold anything (`Finders.Reports`).  So that segments are
  words which are not empty, they have to hold a character (`Finders.SegmentsHold`).
* `Finders.own` are the searches of this library, which give the words of `WordRule.matcher`
  (`wordsBy_own`).
* `words_cover_reports` puts them together.
-/

namespace SelectionLadder

open Markdown (byteLength charOffset byteLength_append byteLength_pos byteLength_take_lt_iff
  charOffset_take charOffset_between)

/-! ## Ranges of bytes -/

/-- The bytes from `start` up to `stop` of a line. -/
structure ByteRange where
  start : Nat
  stop : Nat
deriving DecidableEq, Repr

variable {line : Line} {pieces : List Piece} {b : ByteRange}

/-- The bytes of a line that columns take. -/
def Columns.bytes (line : Line) (c : Columns) : ByteRange :=
  ⟨byteLength (line.take c.start), byteLength (line.take c.stop)⟩

namespace ByteRange

/-- The columns of a range: the characters before it are counted, and those in it. -/
def columns (line : Line) (b : ByteRange) : Columns :=
  let start := charOffset b.start line
  ⟨start, start + charOffset (b.stop - b.start) (line.drop start)⟩

/-- The range starts and stops between characters. -/
structure OnBoundaries (line : Line) (b : ByteRange) : Prop where
  start_le_stop : b.start ≤ b.stop
  start : ∃ i ≤ line.length, b.start = byteLength (line.take i)
  stop : ∃ i ≤ line.length, b.stop = byteLength (line.take i)

end ByteRange

/-- The bytes of columns have these columns. -/
theorem Columns.columns_bytes {c : Columns} (hle : c.start ≤ c.stop) (h : c.stop ≤ line.length) :
    (c.bytes line).columns line = c := by
  obtain ⟨k, hk⟩ := Nat.exists_eq_add_of_le hle
  have hstart : charOffset (byteLength (line.take c.start)) line = c.start :=
    charOffset_take (by omega)
  have hlength : charOffset (byteLength (line.take (c.start + k)) -
      byteLength (line.take c.start)) (line.drop c.start) = k :=
    charOffset_between (by omega)
  rw [ByteRange.columns, bytes, hk]
  simp only [hstart, hlength]
  rw [← hk]

namespace ByteRange.OnBoundaries

/-- A range on boundaries is that of columns of the line. -/
theorem exists_bytes (h : b.OnBoundaries line) :
    ∃ c : Columns, c.start ≤ c.stop ∧ c.stop ≤ line.length ∧ c.bytes line = b := by
  obtain ⟨i, hi, hstart⟩ := h.start
  obtain ⟨j, hj, hstop⟩ := h.stop
  have hle := h.start_le_stop
  rw [hstart, hstop] at hle
  have hij : i ≤ j := Nat.le_of_not_lt fun hlt =>
    Nat.not_lt.2 hle ((byteLength_take_lt_iff hi hj).2 hlt)
  refine ⟨⟨i, j⟩, hij, hj, ?_⟩
  rw [Columns.bytes, ← hstart, ← hstop]

theorem bytes_columns (h : b.OnBoundaries line) : (b.columns line).bytes line = b := by
  obtain ⟨c, hle, hstop, rfl⟩ := h.exists_bytes
  rw [Columns.columns_bytes hle hstop]

theorem stop_columns_le (h : b.OnBoundaries line) : (b.columns line).stop ≤ line.length := by
  obtain ⟨c, hle, hstop, rfl⟩ := h.exists_bytes
  rwa [Columns.columns_bytes hle hstop]

/-- The columns are empty if and only if the range is. -/
theorem columns_lt_iff (h : b.OnBoundaries line) :
    (b.columns line).start < (b.columns line).stop ↔ b.start < b.stop := by
  obtain ⟨c, hle, hstop, rfl⟩ := h.exists_bytes
  rw [Columns.columns_bytes hle hstop]
  exact (byteLength_take_lt_iff hstop (hle.trans hstop)).symm

/-- Columns are in the order of the ranges. -/
theorem columns_le {b' : ByteRange} (h : b.OnBoundaries line) (h' : b'.OnBoundaries line)
    (hle : b.stop ≤ b'.start) : (b.columns line).stop ≤ (b'.columns line).start := by
  obtain ⟨c, hc, hstop, rfl⟩ := h.exists_bytes
  obtain ⟨c', hc', hstop', rfl⟩ := h'.exists_bytes
  rw [Columns.columns_bytes hc hstop, Columns.columns_bytes hc' hstop']
  exact Nat.le_of_not_lt fun hlt =>
    Nat.not_lt.2 hle ((byteLength_take_lt_iff hstop (hc'.trans hstop')).2 hlt)

end ByteRange.OnBoundaries

/-! ## Reports -/

/-- The ranges stop between characters, come in order and do not overlap. -/
structure WellReported (line : Line) (found : List ByteRange) : Prop where
  boundaries : ∀ b ∈ found, b.OnBoundaries line
  inOrder : found.Pairwise fun b b' => b.stop ≤ b'.start

namespace WellReported

variable {found : List ByteRange}

theorem cons (hb : b.OnBoundaries line) (hle : ∀ b' ∈ found, b.stop ≤ b'.start)
    (h : WellReported line found) : WellReported line (b :: found) where
  boundaries := List.forall_mem_cons.2 ⟨hb, h.boundaries⟩
  inOrder := .cons hle h.inOrder

/-- What is left after some ranges have been passed over is still reported well. -/
theorem filter (h : WellReported line found) (keep : ByteRange → Bool) :
    WellReported line (found.filter keep) where
  boundaries := fun b hb => h.boundaries b (List.mem_of_mem_filter hb)
  inOrder := h.inOrder.filter keep

/-- The columns take the bytes that are reported. -/
theorem map_bytes (h : WellReported line found) :
    (found.map (ByteRange.columns line)).map (Columns.bytes line) = found := by
  rw [List.map_map]
  exact (List.map_congr_left fun b hb => (h.boundaries b hb).bytes_columns).trans (List.map_id _)

theorem stop_le (h : WellReported line found) :
    ∀ c ∈ found.map (ByteRange.columns line), c.stop ≤ line.length :=
  List.forall_mem_map.2 fun b hb => (h.boundaries b hb).stop_columns_le

theorem pairwise_columns (h : WellReported line found) :
    (found.map (ByteRange.columns line)).Pairwise fun c c' => c.stop ≤ c'.start := by
  rw [List.pairwise_map]
  refine h.inOrder.imp_of_mem ?_
  intro b b' hb hb' hle
  exact (h.boundaries b hb).columns_le (h.boundaries b' hb') hle

/-- If all ranges hold something, so do the columns. -/
theorem columns_lt (h : WellReported line found) (hold : ∀ b ∈ found, b.start < b.stop) :
    ∀ c ∈ found.map (ByteRange.columns line), c.start < c.stop :=
  List.forall_mem_map.2 fun b hb => (h.boundaries b hb).columns_lt_iff.2 (hold b hb)

end WellReported

/-! ## The pieces of a cut in bytes -/

/-- The ranges of the pieces that are words, of which the first starts at `offset`. -/
def bytesFrom (offset : Nat) : List Piece → List ByteRange
  | [] => []
  | piece :: rest =>
    let stop := offset + byteLength piece.chars
    if piece.isWord then ⟨offset, stop⟩ :: bytesFrom stop rest else bytesFrom stop rest

theorem le_start_of_mem_bytesFrom {offset : Nat} (hb : b ∈ bytesFrom offset pieces) :
    offset ≤ b.start := by
  induction pieces generalizing offset with
  | nil => exact absurd hb (by simp [bytesFrom])
  | cons piece rest ih =>
    simp only [bytesFrom] at hb
    split at hb
    · rcases List.mem_cons.1 hb with rfl | hb
      · exact Nat.le_refl offset
      · exact Nat.le_trans (Nat.le_add_right _ _) (ih hb)
    · exact Nat.le_trans (Nat.le_add_right _ _) (ih hb)

/-- If the pieces that are words hold something, so do their ranges. -/
theorem lt_of_mem_bytesFrom {offset : Nat} (hb : b ∈ bytesFrom offset pieces)
    (hold : ∀ piece ∈ pieces, piece.isWord → piece.chars ≠ []) : b.start < b.stop := by
  induction pieces generalizing offset with
  | nil => exact absurd hb (by simp [bytesFrom])
  | cons piece rest ih =>
    have hrest : ∀ piece ∈ rest, piece.isWord → piece.chars ≠ [] :=
      fun piece hpiece => hold piece (List.mem_cons_of_mem _ hpiece)
    simp only [bytesFrom] at hb
    split at hb
    · next hword =>
      rcases List.mem_cons.1 hb with rfl | hb
      · exact Nat.lt_add_of_pos_right (byteLength_pos (hold piece List.mem_cons_self hword))
      · exact ih hb hrest
    · exact ih hb hrest

/-- The range of a piece lies between the characters before it and those after it. -/
theorem onBoundaries_piece (before chars after : Line) :
    (⟨byteLength before, byteLength before + byteLength chars⟩ : ByteRange).OnBoundaries
      (before ++ (chars ++ after)) where
  start_le_stop := Nat.le_add_right _ _
  start := ⟨before.length, by simp, by simp⟩
  stop := ⟨(before ++ chars).length, by simp, by
    rw [← List.append_assoc, List.take_left, byteLength_append]⟩

theorem columns_piece (before chars after : Line) :
    (⟨byteLength before, byteLength before + byteLength chars⟩ : ByteRange).columns
        (before ++ (chars ++ after)) =
      ⟨before.length, before.length + chars.length⟩ := by
  have hstop : (before ++ (chars ++ after)).take (before.length + chars.length) =
      before ++ chars := by
    rw [← List.append_assoc, ← List.length_append, List.take_left]
  have hbytes : (⟨before.length, before.length + chars.length⟩ : Columns).bytes
      (before ++ (chars ++ after)) = ⟨byteLength before, byteLength before + byteLength chars⟩ := by
    rw [Columns.bytes, hstop, byteLength_append, List.take_left]
  rw [← hbytes]
  exact Columns.columns_bytes (Nat.le_add_right _ _) (by simp)

/-- The ranges of the pieces after some characters are reported well.  By induction on the pieces,
with the characters before them. -/
theorem wellReported_bytesFrom (before : Line) (pieces : List Piece) :
    WellReported (before ++ pieces.flatMap (·.chars)) (bytesFrom (byteLength before) pieces) := by
  induction pieces generalizing before with
  | nil => exact ⟨fun b hb => absurd hb List.not_mem_nil, .nil⟩
  | cons piece rest ih =>
    have hrest := ih (before ++ piece.chars)
    rw [byteLength_append, List.append_assoc] at hrest
    rw [List.flatMap_cons]
    simp only [bytesFrom]
    split
    · exact hrest.cons (onBoundaries_piece _ _ _) fun b => le_start_of_mem_bytesFrom
    · exact hrest

/-- Those that hold something have the columns of the words of the cut. -/
theorem columns_bytesFrom (before : Line) (pieces : List Piece) :
    ((bytesFrom (byteLength before) pieces).filter fun b => b.start < b.stop).map
        (ByteRange.columns (before ++ pieces.flatMap (·.chars))) =
      (wordsFrom before.length pieces).map Word.columns := by
  induction pieces generalizing before with
  | nil => rfl
  | cons piece rest ih =>
    have hrest := ih (before ++ piece.chars)
    rw [byteLength_append, List.append_assoc, List.length_append] at hrest
    rw [List.flatMap_cons]
    simp only [bytesFrom, wordsFrom]
    by_cases hword : piece.isWord
    · rw [if_pos hword]
      by_cases hnil : piece.chars = []
      · have hlength : ¬ before.length < before.length + piece.chars.length := by simp [hnil]
        have hbytes : ¬ byteLength before < byteLength before + byteLength piece.chars := by
          rw [hnil]
          exact Nat.lt_irrefl _
        rw [List.filter_cons_of_neg (by simpa using hbytes), hrest, dif_neg fun h => hlength h.2]
      · have hlength : before.length < before.length + piece.chars.length :=
          Nat.lt_add_of_pos_right (List.length_pos_iff.2 hnil)
        have hbytes : byteLength before < byteLength before + byteLength piece.chars :=
          Nat.lt_add_of_pos_right (byteLength_pos hnil)
        rw [List.filter_cons_of_pos (by simpa using hbytes), List.map_cons, hrest, columns_piece,
          dif_pos ⟨hword, hlength⟩, List.map_cons]
        rfl
    · rw [if_neg hword, dif_neg fun h => hword h.1]
      exact hrest

/-- The search that reports the words of a cut. -/
def reportsOfCut (cut : Line → List Piece) (line : Line) : List ByteRange := bytesFrom 0 (cut line)

section Cut

variable {cut : Line → List Piece} (hcut : ∀ line, (cut line).flatMap (·.chars) = line)
include hcut

theorem wellReported_reportsOfCut (line : Line) : WellReported line (reportsOfCut cut line) := by
  have hreports := wellReported_bytesFrom [] (cut line)
  rwa [List.nil_append, hcut] at hreports

/-- What the search finds are the words of the cut. -/
theorem columns_reportsOfCut (line : Line) :
    ((reportsOfCut cut line).filter fun b => b.start < b.stop).map (ByteRange.columns line) =
      (Matcher.ofCut cut line).map Word.columns := by
  have hwords := columns_bytesFrom [] (cut line)
  rwa [List.nil_append, hcut] at hwords

end Cut

/-! ## The searches of the rules -/

/-- The searches that rules rely on. -/
structure Finders where
  /-- Finds the matches of a pattern, which may be malformed. -/
  pattern : List Char → Option (Line → List ByteRange)
  /-- Finds the segments that hold a letter or a number. -/
  segments : Line → List ByteRange

/-- The words of a rule, with these searches.  Segments are taken as they are reported.  A pattern
may match nothing at all, so its matches are taken only if they hold something. -/
def WordRule.wordsBy (f : Finders) : WordRule → Except PatternError (Line → List Columns)
  | ascii => .ok asciiColumns
  | unicode => .ok fun line => (f.segments line).map (ByteRange.columns line)
  | pattern description =>
    if description = "" then .error .empty
    else match f.pattern (wordPattern description) with
      | none => .error (.malformed description)
      | some find => .ok fun line =>
        ((find line).filter fun b => b.start < b.stop).map (ByteRange.columns line)

namespace Finders

/-- The ranges that the words of a rule are to cover in a line.  The ASCII rule needs no search. -/
inductive Reports (f : Finders) (line : Line) : WordRule → List ByteRange → Prop where
  | unicode : f.Reports line .unicode (f.segments line)
  | pattern {description : String} {find : Line → List ByteRange}
    (h : f.pattern (wordPattern description) = some find) :
    f.Reports line (.pattern description) ((find line).filter fun b => b.start < b.stop)

/-- All searches report well. -/
structure ReportWell (f : Finders) : Prop where
  segments : ∀ line, WellReported line (f.segments line)
  pattern : ∀ cs find, f.pattern cs = some find → ∀ line, WellReported line (find line)

/-- Every segment holds a character, as it does if it holds a letter or a number. -/
def SegmentsHold (f : Finders) : Prop := ∀ line, ∀ b ∈ f.segments line, b.start < b.stop

/-- The searches of this library. -/
def own : Finders where
  pattern cs := (Pattern.Regex.ofChars? cs).bind fun r =>
    if r.weight ≤ maxWeight then some (reportsOfCut (Pattern.Machine.ofRegex r).pieces) else none
  segments := reportsOfCut segmentPieces

end Finders

section Searches

variable {f : Finders} {rule : WordRule} {words : Line → List Columns} {found found' : List ByteRange}

theorem Finders.Reports.unique (h : f.Reports line rule found) (h' : f.Reports line rule found') :
    found = found' := by
  cases h with
  | unicode =>
    cases h'
    rfl
  | pattern hfind =>
    cases h' with
    | pattern hfind' => rw [Option.some.inj (hfind.symm.trans hfind')]

theorem Finders.Reports.wellReported (h : f.Reports line rule found) (hf : f.ReportWell) :
    WellReported line found := by
  cases h with
  | unicode => exact hf.segments line
  | pattern hfind => exact (hf.pattern _ _ hfind line).filter _

/-- Nothing empty is to be covered. -/
theorem Finders.Reports.lt (h : f.Reports line rule found)
    (hsegments : rule = .unicode → f.SegmentsHold) : ∀ b ∈ found, b.start < b.stop := by
  cases h with
  | unicode => exact hsegments rfl line
  | pattern hfind => exact fun b hb => of_decide_eq_true (List.mem_filter.1 hb).2

/-- The words of a rule are those of the ASCII scan, or what the search for the rule reports. -/
theorem WordRule.wordsBy_eq_ok (h : rule.wordsBy f = .ok words) (line : Line) :
    rule = .ascii ∧ words line = asciiColumns line ∨
      ∃ found, f.Reports line rule found ∧ words line = found.map (ByteRange.columns line) := by
  cases rule with
  | ascii =>
    obtain rfl := Except.ok.inj h
    exact .inl ⟨rfl, rfl⟩
  | unicode =>
    obtain rfl := Except.ok.inj h
    exact .inr ⟨_, .unicode, rfl⟩
  | pattern description =>
    rw [wordsBy] at h
    split at h
    · exact absurd h (by simp)
    · split at h
      · exact absurd h (by simp)
      · next find hfind =>
        obtain rfl := Except.ok.inj h
        exact .inr ⟨_, .pattern hfind, rfl⟩

/-- The words of a rule are not empty, lie inside the line and come in order. -/
theorem WordRule.placed_of_wordsBy (hf : f.ReportWell)
    (hsegments : rule = .unicode → f.SegmentsHold) (hwords : rule.wordsBy f = .ok words)
    (line : Line) :
    (∀ c ∈ words line, c.start < c.stop) ∧ (∀ c ∈ words line, c.stop ≤ line.length) ∧
      (words line).Pairwise fun c c' => c.stop ≤ c'.start := by
  rcases wordsBy_eq_ok hwords line with ⟨-, heq⟩ | ⟨found, hfound, heq⟩
  · rw [heq, asciiColumns_eq]
    exact ⟨List.forall_mem_map.2 fun w _ => w.start_lt_stop,
      List.forall_mem_map.2 (Matcher.staysInside_ascii line),
      List.pairwise_map.2 (pairwise_wordsFrom 0 _)⟩
  · have hreports := hfound.wellReported hf
    rw [heq]
    exact ⟨hreports.columns_lt (hfound.lt hsegments), hreports.stop_le, hreports.pairwise_columns⟩

/-- Segments are not passed over: an empty one would be an empty word. -/
example :
    (WordRule.unicode.wordsBy { Finders.own with segments := fun _ => [⟨1, 1⟩] }).toOption.map
      (· ['a']) = some [⟨1, 1⟩] := rfl

end Searches

/-! ### The searches of this library -/

theorem flatMap_segmentPieces (line : Line) : (segmentPieces line).flatMap (·.chars) = line := by
  rw [segmentPieces, List.flatMap_map]
  show (segments line).flatMap id = line
  rw [List.flatMap_id, segments_flatten]

theorem flatMap_pieces (m : Pattern.Machine) (line : Line) :
    (m.pieces line).flatMap (·.chars) = line :=
  Pattern.flatMap_matchPieces _ _ _ line

theorem Finders.reportWell_own : own.ReportWell where
  segments := wellReported_reportsOfCut flatMap_segmentPieces
  pattern := by
    intro cs find hfind line
    obtain ⟨r, -, hr⟩ := Option.bind_eq_some_iff.1 hfind
    split at hr
    · obtain rfl := Option.some.inj hr
      exact wellReported_reportsOfCut (flatMap_pieces _) line
    · exact absurd hr (by simp)

/-- A segment with a letter or a number holds a character. -/
theorem Finders.segmentsHold_own : own.SegmentsHold := by
  intro line b hb
  apply lt_of_mem_bytesFrom hb
  intro piece hpiece hword
  obtain ⟨segment, -, rfl⟩ := List.mem_map.1 hpiece
  exact List.ne_nil_of_mem (List.any_eq_true.1 hword).choose_spec.1

theorem WordRule.wordsBy_own (rule : WordRule) :
    rule.wordsBy .own = rule.matcher.map fun m line => (m line).map Word.columns := by
  cases rule with
  | ascii => exact congrArg Except.ok (funext asciiColumns_eq)
  | unicode =>
    refine congrArg Except.ok (funext fun line => ?_)
    have hall := List.filter_eq_self.2 fun b hb =>
      decide_eq_true (Finders.segmentsHold_own line b hb)
    have hwords := columns_reportsOfCut flatMap_segmentPieces line
    exact (congrArg _ hall.symm).trans hwords
  | pattern description =>
    simp only [wordsBy, matcher, Finders.own]
    by_cases hempty : description = ""
    · rw [if_pos hempty, if_pos hempty]
      rfl
    · rw [if_neg hempty, if_neg hempty]
      cases Pattern.Regex.ofChars? (wordPattern description) with
      | none => rfl
      | some r =>
        rw [Option.bind_some]
        by_cases hweight : r.weight ≤ maxWeight
        · simp only [if_pos hweight]
          exact congrArg Except.ok (funext (columns_reportsOfCut (flatMap_pieces _)))
        · simp only [if_neg hweight]
          rfl

/-- Whatever searches a rule relies on, if they report ranges that stop between characters and come
in order, and segments that hold a character: the words of a rule are not empty, lie inside the
line, come in order and do not overlap, and they take the bytes of the segments, or of the matches
that hold something.  At a column the leftmost word is found that touches it, so of two words that
meet it is the left one, and none is found if no word touches the column.  The searches of this
library report so, and the words that they give are those of the matchers of rules. -/
theorem words_cover_reports (rule : WordRule) :
    (∀ f : Finders, f.ReportWell → (rule = .unicode → f.SegmentsHold) →
      ∀ words, rule.wordsBy f = .ok words → ∀ line,
      (∀ c ∈ words line, c.start < c.stop ∧ c.stop ≤ line.length) ∧
      (words line).Pairwise (fun c c' => c.stop ≤ c'.start) ∧
      (∀ found, f.Reports line rule found → (words line).map (Columns.bytes line) = found) ∧
      (∀ column,
        (∀ c, Columns.firstAt (words line) column = some c ↔
          c ∈ words line ∧ c.Touches column ∧
            ∀ c' ∈ words line, c'.Touches column → c.start ≤ c'.start) ∧
        (Columns.firstAt (words line) column = none ↔ ∀ c ∈ words line, ¬ c.Touches column)) ∧
      ∀ c ∈ words line, ∀ c' ∈ words line, c.stop = c'.start →
        Columns.firstAt (words line) c'.start = some c) ∧
    Finders.own.ReportWell ∧ Finders.own.SegmentsHold ∧
    (rule.wordsBy .own = rule.matcher.map fun m line => (m line).map Word.columns) ∧
    ∀ (m : Matcher) line column,
      Columns.firstAt ((m line).map Word.columns) column =
        (m.wordAt line column).map Word.columns := by
  refine ⟨?_, Finders.reportWell_own, Finders.segmentsHold_own, rule.wordsBy_own,
    fun m line column => Columns.firstAt_map (m line) column⟩
  intro f hf hsegments words hwords line
  obtain ⟨hne, hinside, horder⟩ := WordRule.placed_of_wordsBy hf hsegments hwords line
  refine ⟨fun c hc => ⟨hne c hc, hinside c hc⟩, horder, ?_, ?_, ?_⟩
  · intro found hfound
    rcases WordRule.wordsBy_eq_ok hwords line with ⟨rfl, -⟩ | ⟨found', hfound', heq⟩
    · cases hfound
    · rw [heq, hfound'.unique hfound]
      exact (hfound.wellReported hf).map_bytes
  · exact fun column =>
      ⟨fun c => Columns.firstAt_eq_some_iff hne horder, Columns.firstAt_eq_none_iff⟩
  · exact fun c hc c' _ hmeet => Columns.firstAt_of_meets hne horder hc hmeet

/-- A rule whose words are single letters of two bytes, which may stand side by side. -/
def singleRule : WordRule := .pattern "é)+?|(?:é"

def singleLine : Line := ['é', 'é', ' ', 'é']

theorem words_cover_reports_singleRule :
    Finders.own.ReportWell ∧ (singleRule = .unicode → Finders.own.SegmentsHold) ∧
      ∃ words, singleRule.wordsBy .own = .ok words ∧
        words singleLine = [⟨0, 1⟩, ⟨1, 2⟩, ⟨3, 4⟩] ∧
        (∃ found, Finders.own.Reports singleLine singleRule found ∧
          (words singleLine).map (Columns.bytes singleLine) = found) ∧
        Columns.firstAt (words singleLine) 1 = some ⟨0, 1⟩ := by
  obtain ⟨hplaced, hown, hhold, hmatcher, -⟩ := words_cover_reports singleRule
  have hfound : singleRule.matcher.toOption.map (fun m => (m singleLine).map Word.columns) =
      some [⟨0, 1⟩, ⟨1, 2⟩, ⟨3, 4⟩] := by decide +kernel
  obtain ⟨m, hm, hcolumns⟩ := Option.map_eq_some_iff.1 hfound
  have hok : singleRule.wordsBy .own = .ok fun line => (m line).map Word.columns := by
    rw [hmatcher]
    cases hrule : singleRule.matcher with
    | error e =>
      rw [hrule] at hm
      exact absurd hm (by simp [Except.toOption])
    | ok m' =>
      rw [hrule] at hm
      obtain rfl := Option.some.inj hm
      rfl
  obtain ⟨-, -, hbytes, -, hmeet⟩ := hplaced .own hown (fun _ => hhold) _ hok singleLine
  refine ⟨hown, fun _ => hhold, _, hok, hcolumns, ?_, ?_⟩
  · rcases WordRule.wordsBy_eq_ok hok singleLine with ⟨hascii, -⟩ | ⟨found, hfound, -⟩
    · exact absurd hascii (by decide)
    · exact ⟨found, hfound, hbytes found hfound⟩
  · exact hmeet ⟨0, 1⟩ (by rw [hcolumns]; decide) ⟨1, 2⟩ (by rw [hcolumns]; decide) rfl

end SelectionLadder
