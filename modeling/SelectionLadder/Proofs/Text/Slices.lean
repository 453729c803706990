import Mathlib.Data.Nat.PSub
import SelectionLadder.Proofs.Text.Tiers

/-!
# Slices of a text

A text is its characters, and what stands between two of its positions is a slice of them.

* `chars_ofChars`: a text that is made of characters has these characters.  Lines are cut as
  `List.splitOn` cuts at line feeds (`splitLines_eq_splitOn`).
* `Text.slice_append_slice`: the slices of two ranges that meet are together the slice of both.
* `Text.positionAt?` and `Text.slice?` fail where a number is taken from a smaller one.  The first
  never does (`positionAt?_eq_some`), and the second not on ranges of the text
  (`slice?_eq_some`).
* `offsets_invert_positions` collects what offsets and positions are to each other.
-/

namespace SelectionLadder

/-- Lines are what the characters are cut into at line feeds. -/
theorem splitLines_eq_splitOn (cs : List Char) : splitLines cs = cs.splitOn '\n' := by
  induction cs with
  | nil => rfl
  | cons c cs ih =>
    rw [List.splitOn_eq_splitOnP] at ih ⊢
    rw [splitLines, List.splitOnP_cons_eq_if_modifyHead, ← ih]
    by_cases hc : c = '\n'
    · rw [if_pos hc, if_pos (beq_iff_eq.2 hc)]
    · rw [if_neg hc, if_neg (by simpa using hc)]
      obtain ⟨line, lines, hlines⟩ := List.exists_cons_of_ne_nil (splitLines_ne_nil cs)
      rw [hlines, List.modifyHead_cons]

/-- Cutting characters into lines loses none of them. -/
theorem chars_ofChars (cs : List Char) : (Text.ofChars cs).chars = cs := by
  show List.intercalate ['\n'] (splitLines cs) = cs
  rw [splitLines_eq_splitOn]
  exact List.intercalate_splitOn '\n'

namespace Text

variable {t : Text} {a b c : Position} {r : Range}

/-! ## Slices -/

theorem length_ofChars (cs : List Char) : (ofChars cs).length = cs.length := by
  rw [← length_chars, chars_ofChars]

theorem slice_documentRange (t : Text) : t.slice t.documentRange = t.chars := by
  have hzero : t.offsetAt .zero = 0 := by
    rw [offsetAt_eq t.inside_zero]
    rfl
  show (t.chars.drop (t.offsetAt .zero)).take (t.offsetAt t.stop - t.offsetAt .zero) = t.chars
  rw [hzero, List.drop_zero, Nat.sub_zero]
  exact List.take_of_length_le (Nat.le_of_eq t.length_chars)

/-- Slices of ranges that meet at a position follow each other in the text. -/
theorem slice_append_slice (ha : t.Inside a) (hb : t.Inside b) (hc : t.Inside c) (hab : a ≤ b)
    (hbc : b ≤ c) :
    t.slice ⟨a, b, hab⟩ ++ t.slice ⟨b, c, hbc⟩ = t.slice ⟨a, c, hab.trans hbc⟩ := by
  have hfirst := (offsetAt_le_offsetAt_iff ha hb).2 hab
  have hsecond := (offsetAt_le_offsetAt_iff hb hc).2 hbc
  have hsum : t.offsetAt c - t.offsetAt a =
      (t.offsetAt b - t.offsetAt a) + (t.offsetAt c - t.offsetAt b) := by omega
  have hmiddle : t.offsetAt a + (t.offsetAt b - t.offsetAt a) = t.offsetAt b := by omega
  simp only [slice]
  rw [hsum, List.take_add, List.drop_drop, hmiddle]

/-! ## Subtractions -/

/-- The position at an offset, if no line that is passed is longer than what is left of it. -/
def positionIn? : List Line → Nat → Nat → Option Position
  | [], n, _ => some ⟨n, 0⟩
  | [line], n, offset => some ⟨n, min offset line.length⟩
  | line :: next :: rest, n, offset =>
    if offset ≤ line.length then some ⟨n, offset⟩
    else (offset.psub (line.length + 1)).bind (positionIn? (next :: rest) (n + 1))

/-- The position at an offset, if finding it takes no number from a smaller one. -/
def positionAt? (t : Text) (offset : Nat) : Option Position := positionIn? t.lines 0 offset

/-- The characters between the ends of a range, if it does not stop before it starts. -/
def slice? (t : Text) (r : Range) : Option (List Char) :=
  ((t.offsetAt r.stop).psub (t.offsetAt r.start)).map fun count =>
    (t.chars.drop (t.offsetAt r.start)).take count

/-- A line is passed only if the offset is past its line break. -/
theorem positionIn?_eq_some (lines : List Line) (n offset : Nat) :
    positionIn? lines n offset = some (positionIn lines n offset) := by
  induction lines generalizing n offset with
  | nil => rfl
  | cons line rest ih =>
    cases rest with
    | nil => rfl
    | cons next others =>
      rw [positionIn?, positionIn]
      by_cases h : offset ≤ line.length
      · rw [if_pos h, if_pos h]
      · rw [if_neg h, if_neg h, Nat.psub_eq_sub (Nat.lt_of_not_le h), Option.bind_some, ih]

theorem positionAt?_eq_some (t : Text) (offset : Nat) :
    t.positionAt? offset = some (t.positionAt offset) :=
  positionIn?_eq_some t.lines 0 offset

theorem slice?_eq_some (h : t.Has r) : t.slice? r = some (t.slice r) := by
  have hle := (offsetAt_le_offsetAt_iff h.1 h.2).2 r.start_le_stop
  rw [slice?, Nat.psub_eq_sub hle, Option.map_some, slice]

theorem psub_lastLine (t : Text) : t.lines.length.psub 1 = some t.lastLine :=
  Nat.psub_eq_sub (Nat.lt_of_le_of_lt (Nat.zero_le _) t.lastLine_lt_length)

end Text

/-- A text gives back the characters that it is made of, whole and in slices.  Its offsets, of which
the last is the number of its characters, and its positions invert each other and have one order:
any offset is taken for the nearest one of the text, and any position for the one that it is moved
to.  No number is taken from a smaller one on the way. -/
theorem offsets_invert_positions (cs : List Char) :
    (Text.ofChars cs).chars = cs ∧
      let t := Text.ofChars cs
      t.offsetAt t.documentRange.stop = cs.length ∧
      (∀ offset, t.Inside (t.positionAt offset) ∧
        t.offsetAt (t.positionAt offset) = min offset cs.length) ∧
      (∀ p, t.positionAt (t.offsetAt p) = t.clamp p) ∧
      (∀ p q, t.Inside p → t.Inside q → (t.offsetAt p < t.offsetAt q ↔ p < q)) ∧
      (∀ a b c (hab : a ≤ b) (hbc : b ≤ c), t.Inside a → t.Inside b → t.Inside c →
        t.slice ⟨a, b, hab⟩ ++ t.slice ⟨b, c, hbc⟩ = t.slice ⟨a, c, hab.trans hbc⟩) ∧
      t.slice t.documentRange = cs ∧
      t.lines.length.psub 1 = some t.lastLine ∧
      (∀ offset, t.positionAt? offset = some (t.positionAt offset)) ∧
      ∀ r, t.Has r → t.slice? r = some (t.slice r) := by
  refine ⟨chars_ofChars cs, ?_⟩
  intro t
  have hlength : t.length = cs.length := Text.length_ofChars cs
  refine ⟨hlength, ?_, t.positionAt_offsetAt, ?_, ?_, ?_, t.psub_lastLine,
    t.positionAt?_eq_some, fun r => Text.slice?_eq_some⟩
  · intro offset
    rw [← hlength]
    exact t.positionAt_spec offset
  · intro p q hp hq
    exact Text.offsetAt_lt_offsetAt_iff hp hq
  · intro a b c hab hbc ha hb hc
    exact Text.slice_append_slice ha hb hc hab hbc
  · rw [Text.slice_documentRange]
    exact chars_ofChars cs

/-- A text with an empty line, and a last line with a letter of two bytes. -/
def gappedChars : List Char := ['a', 'b', '\n', '\n', 'c', 'é']

theorem offsets_invert_positions_gappedChars :
    let t := Text.ofChars gappedChars
    t.offsetAt ⟨1, 0⟩ < t.offsetAt ⟨2, 1⟩ ∧
      t.slice (.spanning ⟨0, 1⟩ ⟨1, 0⟩) ++ t.slice (.spanning ⟨1, 0⟩ ⟨2, 1⟩) =
        ['b', '\n', '\n', 'c'] ∧
      t.slice? (.spanning ⟨0, 1⟩ ⟨2, 1⟩) = some ['b', '\n', '\n', 'c'] := by
  intro t
  obtain ⟨-, -, -, -, hgrows, hjoins, -, -, -, hslice⟩ := offsets_invert_positions gappedChars
  refine ⟨?_, ?_, ?_⟩
  · exact (hgrows ⟨1, 0⟩ ⟨2, 1⟩ (by decide) (by decide)).2 (by decide)
  · exact (hjoins ⟨0, 1⟩ ⟨1, 0⟩ ⟨2, 1⟩ (by decide) (by decide) (by decide) (by decide)
      (by decide)).trans (by decide)
  · exact (hslice _ ⟨by decide, by decide⟩).trans (by decide)

end SelectionLadder
