import SelectionLadder.Source.Markdown

/-!
# Places in bytes

A place in a text can be given in bytes of its UTF-8 form.  `Markdown.charOffset` turns it into the
number of characters before it.

* `charOffset_byteLength_add` goes over the characters before a place, so a place between characters
  is the number of characters before it.
* `charOffset_mono` and `charOffset_le_length` hold for all places, also for those inside a
  character or past the end.
* `charOffset_take` and `charOffset_between` are for places that are given by the characters of a
  line up to them.
-/

namespace SelectionLadder.Markdown

theorem byteLength_cons (c : Char) (cs : List Char) :
    byteLength (c :: cs) = c.utf8Size + byteLength cs := rfl

/-- The characters before a place count one each. -/
theorem charOffset_byteLength_add (before after : List Char) (bytes : Nat) :
    charOffset (byteLength before + bytes) (before ++ after) =
      before.length + charOffset bytes after := by
  induction before with
  | nil => simp [byteLength]
  | cons c before ih =>
    have hsize : ¬ byteLength (c :: before) + bytes < c.utf8Size := by
      rw [byteLength_cons]
      omega
    have hbytes : byteLength (c :: before) + bytes - c.utf8Size = byteLength before + bytes := by
      rw [byteLength_cons]
      omega
    rw [List.cons_append, charOffset, if_neg hsize, hbytes, ih, List.length_cons]
    omega

theorem charOffset_zero (cs : List Char) : charOffset 0 cs = 0 := by
  cases cs with
  | nil => rfl
  | cons c cs => rw [charOffset, if_pos c.utf8Size_pos]

/-- A place between characters is the number of characters before it. -/
theorem charOffset_byteLength (before after : List Char) :
    charOffset (byteLength before) (before ++ after) = before.length := by
  simpa [charOffset_zero] using charOffset_byteLength_add before after 0

theorem charOffset_le_length (bytes : Nat) (cs : List Char) : charOffset bytes cs ≤ cs.length := by
  induction cs generalizing bytes with
  | nil => exact Nat.le_refl 0
  | cons c cs ih =>
    rw [charOffset]
    split
    · exact Nat.zero_le _
    · exact Nat.succ_le_succ (ih _)

theorem charOffset_mono (cs : List Char) {m n : Nat} (h : m ≤ n) :
    charOffset m cs ≤ charOffset n cs := by
  induction cs generalizing m n with
  | nil => exact Nat.le_refl 0
  | cons c cs ih =>
    by_cases hm : m < c.utf8Size
    · rw [charOffset, if_pos hm]
      exact Nat.zero_le _
    · have hn : ¬ n < c.utf8Size := by omega
      rw [charOffset, if_neg hm, charOffset, if_neg hn]
      exact Nat.succ_le_succ (ih (Nat.sub_le_sub_right h _))

/-! ## Bytes up to a character -/

theorem byteLength_append (cs ds : List Char) :
    byteLength (cs ++ ds) = byteLength cs + byteLength ds := by
  induction cs with
  | nil => exact (Nat.zero_add _).symm
  | cons c cs ih =>
    rw [List.cons_append, byteLength_cons, ih, byteLength_cons, Nat.add_assoc]

theorem byteLength_pos {cs : List Char} (h : cs ≠ []) : 0 < byteLength cs := by
  cases cs with
  | nil => exact absurd rfl h
  | cons c cs =>
    have hsize := c.utf8Size_pos
    rw [byteLength_cons]
    omega

/-- The bytes up to a character are those up to an earlier one and those between them. -/
theorem byteLength_take_add (cs : List Char) (i k : Nat) :
    byteLength (cs.take (i + k)) = byteLength (cs.take i) + byteLength ((cs.drop i).take k) := by
  rw [List.take_add, byteLength_append]

theorem charOffset_take {cs : List Char} {i : Nat} (h : i ≤ cs.length) :
    charOffset (byteLength (cs.take i)) cs = i := by
  have hoffset := charOffset_byteLength (cs.take i) (cs.drop i)
  rwa [List.take_append_drop, List.length_take, Nat.min_eq_left h] at hoffset

/-- The bytes between two characters hold the characters between them. -/
theorem charOffset_between {cs : List Char} {i k : Nat} (h : i + k ≤ cs.length) :
    charOffset (byteLength (cs.take (i + k)) - byteLength (cs.take i)) (cs.drop i) = k := by
  rw [byteLength_take_add, Nat.add_sub_cancel_left]
  apply charOffset_take
  rw [List.length_drop]
  omega

/-- More characters take more bytes. -/
theorem byteLength_take_lt_iff {cs : List Char} {i j : Nat} (hj : j ≤ cs.length) (hi : i ≤ cs.length) :
    byteLength (cs.take i) < byteLength (cs.take j) ↔ i < j := by
  constructor
  · intro hlt
    have hle := charOffset_mono cs (Nat.le_of_lt hlt)
    rw [charOffset_take hi, charOffset_take hj] at hle
    exact Nat.lt_of_le_of_ne hle fun heq => Nat.lt_irrefl _ (heq ▸ hlt)
  · intro hlt
    obtain ⟨k, rfl⟩ : ∃ k, j = i + (k + 1) := ⟨j - i - 1, by omega⟩
    have hpos : 0 < byteLength ((cs.drop i).take (k + 1)) := by
      apply byteLength_pos
      intro hnil
      have hlength := congrArg List.length hnil
      rw [List.length_take, List.length_drop, List.length_nil] at hlength
      omega
    rw [byteLength_take_add]
    omega

end SelectionLadder.Markdown
