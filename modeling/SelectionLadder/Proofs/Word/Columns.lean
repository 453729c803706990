import SelectionLadder.Proofs.Word.Order

/-!
# Words as they are reported

What a search reports as a word need not be one: nothing keeps the columns that it gives from being
empty.  `Columns` are columns as they are reported, and those of a word are `Word.columns`.

* `Columns.firstAt` is what is found at a column: the first that touch it.  Among the columns of
  words it finds those of the word (`firstAt_map`).
* Columns of which none are empty are those of words (`exists_map_columns`).  So what is said of
  words in order holds of them: the leftmost that touch a column are found (`firstAt_eq_some_iff`),
  and of two that meet the left ones (`firstAt_of_meets`).
-/

namespace SelectionLadder

/-- The columns from `start` up to `stop`, which may be none. -/
structure Columns where
  start : Nat
  stop : Nat
deriving DecidableEq, Repr

/-- The columns of a word. -/
def Word.columns (w : Word) : Columns := ⟨w.start, w.stop⟩

namespace Columns

variable {found : List Columns} {c c' : Columns} {column : Nat}

/-- A column touches those from the first one to the one after the last. -/
def Touches (c : Columns) (column : Nat) : Prop := c.start ≤ column ∧ column ≤ c.stop

instance (c : Columns) (column : Nat) : Decidable (c.Touches column) :=
  inferInstanceAs (Decidable (_ ∧ _))

/-- The first that touch the column. -/
def firstAt (found : List Columns) (column : Nat) : Option Columns :=
  found.find? fun c => c.Touches column

theorem firstAt_map (ws : List Word) (column : Nat) :
    firstAt (ws.map Word.columns) column =
      (ws.find? fun w => w.Touches column).map Word.columns := by
  rw [firstAt, List.find?_map]
  rfl

theorem firstAt_eq_none_iff : firstAt found column = none ↔ ∀ c ∈ found, ¬ c.Touches column := by
  simp [firstAt, List.find?_eq_none]

section NoneEmpty

variable (hne : ∀ c ∈ found, c.start < c.stop)
include hne

/-- Columns of which none are empty are those of words. -/
theorem exists_map_columns : ∃ ws : List Word, ws.map Word.columns = found := by
  induction found with
  | nil => exact ⟨[], rfl⟩
  | cons c found ih =>
    obtain ⟨ws, hws⟩ := ih fun c hc => hne c (List.mem_cons_of_mem _ hc)
    refine ⟨⟨c.start, c.stop, hne c List.mem_cons_self⟩ :: ws, ?_⟩
    rw [List.map_cons, hws]
    rfl

variable (horder : found.Pairwise fun c c' => c.stop ≤ c'.start)
include horder

/-- The first that touch a column are the leftmost. -/
theorem firstAt_eq_some_iff :
    firstAt found column = some c ↔
      c ∈ found ∧ c.Touches column ∧ ∀ c' ∈ found, c'.Touches column → c.start ≤ c'.start := by
  obtain ⟨ws, rfl⟩ := exists_map_columns hne
  have hwords : InOrder ws := List.pairwise_map.1 horder
  rw [firstAt_map, Option.map_eq_some_iff]
  constructor
  · rintro ⟨w, hw, rfl⟩
    obtain ⟨hmem, htouches, hleft⟩ := hwords.find?_eq_some_iff.1 hw
    exact ⟨List.mem_map_of_mem hmem, htouches, List.forall_mem_map.2 hleft⟩
  · intro ⟨hc, htouches, hleft⟩
    obtain ⟨w, hw, rfl⟩ := List.mem_map.1 hc
    exact ⟨w, hwords.find?_eq_some_iff.2 ⟨hw, htouches, List.forall_mem_map.1 hleft⟩, rfl⟩

/-- Where two meet, the left ones are found. -/
theorem firstAt_of_meets (hc : c ∈ found) (hmeet : c.stop = c'.start) :
    firstAt found c'.start = some c := by
  have hlt := hne c hc
  rw [← hmeet, firstAt_eq_some_iff hne horder]
  refine ⟨hc, ⟨Nat.le_of_lt hlt, Nat.le_refl _⟩, ?_⟩
  intro d hd htouches
  have hstop : c.stop ≤ d.stop := htouches.2
  rcases eq_or_of_pairwise horder hc hd with rfl | hle | hle
  · exact Nat.le_refl _
  · omega
  · omega

end NoneEmpty

end Columns

end SelectionLadder
