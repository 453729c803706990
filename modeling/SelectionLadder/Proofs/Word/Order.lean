import Mathlib.Data.List.Pairwise
import SelectionLadder.Word.Basic

/-!
# Words in order

The words of a cut come in the order of the line and do not overlap.  So a column has a leftmost
word that touches it, and that is the one which `Matcher.wordAt` finds.

* `pairwise_wordsFrom`: every word of a cut stops before the next one starts, or where it starts.
* `Matcher.wordAt_eq_some_iff` and `Matcher.wordAt_eq_none_iff` say what is found at a column.
-/

namespace SelectionLadder

variable {pieces : List Piece} {ws : List Word} {w w' : Word} {column : Nat}

/-- Every word stops before the next one starts, or where it starts. -/
def InOrder (ws : List Word) : Prop := ws.Pairwise fun w w' => w.stop ≤ w'.start

/-! ## Words of a cut -/

/-- Words start where the pieces start or after that. -/
theorem le_start_of_mem_wordsFrom (hw : w ∈ wordsFrom column pieces) : column ≤ w.start := by
  induction pieces generalizing column with
  | nil => exact absurd hw (by simp [wordsFrom])
  | cons piece rest ih =>
    simp only [wordsFrom] at hw
    split at hw
    · rcases List.mem_cons.1 hw with rfl | hw
      · exact Nat.le_refl column
      · exact Nat.le_trans (Nat.le_add_right _ _) (ih hw)
    · exact Nat.le_trans (Nat.le_add_right _ _) (ih hw)

theorem pairwise_wordsFrom (column : Nat) (pieces : List Piece) :
    InOrder (wordsFrom column pieces) := by
  induction pieces generalizing column with
  | nil => exact .nil
  | cons piece rest ih =>
    simp only [wordsFrom]
    split
    · exact .cons (fun w hw => le_start_of_mem_wordsFrom hw) (ih _)
    · exact ih _

/-! ## The word at a column -/

/-- What holds of items and later ones holds of any two different items, one way or the other. -/
theorem eq_or_of_pairwise {α : Type} {R : α → α → Prop} {items : List α} {a b : α}
    (h : items.Pairwise R) (ha : a ∈ items) (hb : b ∈ items) : a = b ∨ R a b ∨ R b a := by
  have hsymm : Std.Symm fun a b => R a b ∨ R b a := ⟨fun _ _ h => h.symm⟩
  by_cases heq : a = b
  · exact .inl heq
  · exact .inr ((h.imp Or.inl : items.Pairwise fun a b => R a b ∨ R b a).forall ha hb heq)

/-- No word that touches a column starts before the first one that does. -/
theorem InOrder.start_le_of_find? (h : InOrder ws)
    (hfind : (ws.find? fun w => w.Touches column) = some w) (hw' : w' ∈ ws)
    (htouches : w'.Touches column) : w.start ≤ w'.start := by
  obtain ⟨-, before, after, rfl, hbefore⟩ := List.find?_eq_some_iff_append.1 hfind
  rcases List.mem_append.1 hw' with hw' | hw'
  · exact absurd htouches (by simpa using hbefore w' hw')
  · rcases List.mem_cons.1 hw' with rfl | hw'
    · exact Nat.le_refl _
    · have hle := (List.pairwise_cons.1 (List.pairwise_append.1 h).2.1).1 w' hw'
      have hlt := w.start_lt_stop
      omega

/-- The first word that touches a column is the leftmost one. -/
theorem InOrder.find?_eq_some_iff (h : InOrder ws) :
    (ws.find? fun w => w.Touches column) = some w ↔
      w ∈ ws ∧ w.Touches column ∧ ∀ w' ∈ ws, w'.Touches column → w.start ≤ w'.start := by
  constructor
  · intro hfind
    exact ⟨List.mem_of_find?_eq_some hfind, by simpa using List.find?_some hfind,
      fun w' => h.start_le_of_find? hfind⟩
  · rintro ⟨hw, htouches, hleft⟩
    cases hfind : ws.find? fun w => w.Touches column with
    | none => exact absurd htouches (by simpa using List.find?_eq_none.1 hfind w hw)
    | some v =>
      have hv := List.mem_of_find?_eq_some hfind
      have hle : v.start ≤ w.start := h.start_le_of_find? hfind hw htouches
      have hge : w.start ≤ v.start := hleft v hv (by simpa using List.find?_some hfind)
      -- Two words that start at one column are the same, since words are not empty.
      rcases eq_or_of_pairwise h hv hw with rfl | hstop | hstop
      · rfl
      · have hlt := v.start_lt_stop
        omega
      · have hlt := w.start_lt_stop
        omega

theorem Matcher.wordAt_eq_some_iff {m : Matcher} {line : Line} (h : InOrder (m line)) :
    m.wordAt line column = some w ↔
      w ∈ m line ∧ w.Touches column ∧ ∀ w' ∈ m line, w'.Touches column → w.start ≤ w'.start :=
  h.find?_eq_some_iff

theorem Matcher.wordAt_eq_none_iff {m : Matcher} {line : Line} :
    m.wordAt line column = none ↔ ∀ w ∈ m line, ¬ w.Touches column := by
  simp [Matcher.wordAt, List.find?_eq_none]

end SelectionLadder
