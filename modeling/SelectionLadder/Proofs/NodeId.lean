import Mathlib.Data.List.Induction
import Mathlib.Tactic.IntervalCases
import SelectionLadder.NodeId

/-!
# Written identifiers

An identifier of 128 bits is read back from its written form, and what is read has 128 bits,
however it is written.

* `mapM_digitValue?_digits`: the digits that are written spell the number.
* `ungroup?_intercalate_split`: putting hyphens between groups and taking them out again.
* `ofString?_display` and `ofString?_lt` are the two statements.
-/

namespace SelectionLadder.NodeId

variable {id : NodeId}

/-- The number that digits spell. -/
def spelled (ds : List Nat) : Nat := ds.foldl (fun n d => 16 * n + d) 0

theorem spelled_concat (ds : List Nat) (d : Nat) :
    spelled (ds ++ [d]) = 16 * spelled ds + d := by
  rw [spelled, List.foldl_append]
  rfl

/-- How many identifiers there are. -/
def count : Nat := 2 ^ 128

/-! ## Writing -/

theorem digitValue?_digitChar {d : Nat} (h : d < 16) : digitValue? (Nat.digitChar d) = some d := by
  interval_cases d <;> rfl

theorem length_digits (n k : Nat) : (digits n k).length = k := by
  induction k generalizing n with
  | zero => rfl
  | succ k ih => rw [digits, List.length_append, ih, List.length_singleton]

/-- The last digits of a number spell its remainder. -/
theorem mapM_digitValue?_digits (n k : Nat) :
    ∃ ds, (digits n k).mapM digitValue? = some ds ∧ spelled ds = n % 16 ^ k := by
  induction k generalizing n with
  | zero => exact ⟨[], rfl, by rw [Nat.pow_zero, Nat.mod_one]; rfl⟩
  | succ k ih =>
    obtain ⟨ds, hds, hspelled⟩ := ih (n / 16)
    have hlast : digitValue? (Nat.digitChar (n % 16)) = some (n % 16) :=
      digitValue?_digitChar (Nat.mod_lt _ (by omega))
    refine ⟨ds ++ [n % 16], ?_, ?_⟩
    · simp [digits, hds, hlast]
    · have hsplit : n % 16 ^ (k + 1) = n % 16 + 16 * (n / 16 % 16 ^ k) := by
        rw [Nat.pow_succ', Nat.mod_mul]
      rw [spelled_concat, hspelled, hsplit]
      omega

/-! ## Groups -/

/-- A text of the right length is cut into groups, and read from them with hyphens in between. -/
theorem ungroup?_intercalate_split {ns : List Nat} (hns : ns ≠ []) {cs : List Char}
    (hlength : cs.length = ns.sum) :
    ungroup? ns (List.intercalate ['-'] (split ns cs)) = some cs := by
  induction ns generalizing cs with
  | nil => exact absurd rfl hns
  | cons n ns ih =>
    rw [List.sum_cons] at hlength
    cases ns with
    | nil =>
      rw [List.sum_nil] at hlength
      have htake : cs.take n = cs := List.take_of_length_le (by omega)
      simp [split, List.intercalate, ungroup?, htake, hlength]
    | cons m ns =>
      have hdrop : (cs.drop n).length = (m :: ns).sum := by
        rw [List.length_drop]
        omega
      have hrest := ih (by simp) hdrop
      have hfirst : (cs.take n).length = n := by
        rw [List.length_take]
        omega
      have hcut : List.intercalate ['-'] (split (n :: m :: ns) cs) =
          cs.take n ++ '-' :: List.intercalate ['-'] (split (m :: ns) (cs.drop n)) := by
        simp [split, List.intercalate]
      rw [hcut, ungroup?, List.drop_left' hfirst, List.take_left' hfirst]
      simp only [hrest, Option.map_some, List.take_append_drop]
      exact fun h => absurd h (by simp)

/-! ## Reading -/

theorem toList_display (id : NodeId) :
    id.display.toList = List.intercalate ['-'] (split groups (digits id.value 32)) := by
  rw [display, String.toList_ofList]

theorem length_toList_display (id : NodeId) : id.display.toList.length = 36 := by
  rw [toList_display]
  simp [groups, split, List.intercalate, length_digits]

/-- An identifier is read back from its written form. -/
theorem ofString?_display (h : id.value < count) : ofString? id.display = some id := by
  have hgroups : ungroup? groups id.display.toList = some (digits id.value 32) := by
    rw [toList_display]
    exact ungroup?_intercalate_split (by decide) (length_digits _ _)
  obtain ⟨ds, hds, hspelled⟩ := mapM_digitValue?_digits id.value 32
  have hvalue : id.value % 16 ^ 32 = id.value := Nat.mod_eq_of_lt h
  have hread : ofDigits? (digits id.value 32) = some id := by
    rw [ofDigits?, if_pos (length_digits _ _), hds, Option.map_some, ← spelled, hspelled, hvalue]
  simp only [ofString?, length_toList_display, ofGroups?, hgroups, Option.bind_some, hread]

/-- Different identifiers are written differently. -/
theorem eq_of_display_eq {other : NodeId} (h : id.value < count) (hother : other.value < count)
    (heq : id.display = other.display) : id = other := by
  have hread := ofString?_display h
  rw [heq, ofString?_display hother] at hread
  exact (Option.some.inj hread).symm

theorem digitValue?_lt {c : Char} {d : Nat} (h : digitValue? c = some d) : d < 16 := by
  have hnat : ∀ a b : Char, a ≤ b → a.toNat ≤ b.toNat := fun _ _ hab => hab
  have hdigit : '0'.toNat = 48 ∧ '9'.toNat = 57 := by decide
  have hsmall : 'a'.toNat = 97 ∧ 'f'.toNat = 102 := by decide
  have hcapital : 'A'.toNat = 65 ∧ 'F'.toNat = 70 := by decide
  unfold digitValue? at h
  split at h
  · rename_i hc
    obtain rfl := Option.some.inj h
    have := hnat _ _ hc.2
    omega
  split at h
  · rename_i hc
    obtain rfl := Option.some.inj h
    have := hnat _ _ hc.2
    omega
  split at h
  · rename_i hc
    obtain rfl := Option.some.inj h
    have := hnat _ _ hc.2
    omega
  · cases h

/-- So many digits spell a number below the power of sixteen. -/
theorem spelled_lt {cs : List Char} {ds : List Nat} (h : cs.mapM digitValue? = some ds) :
    spelled ds < 16 ^ cs.length := by
  induction cs using List.reverseRecOn generalizing ds with
  | nil =>
    obtain rfl : [] = ds := Option.some.inj h
    exact Nat.zero_lt_one
  | append_singleton cs c ih =>
    rw [List.mapM_append] at h
    obtain ⟨init, hinit, h⟩ := Option.bind_eq_some_iff.1 h
    obtain ⟨last, hlast, h⟩ := Option.bind_eq_some_iff.1 h
    obtain rfl := Option.some.inj h
    rw [List.mapM_cons] at hlast
    obtain ⟨d, hd, hlast⟩ := Option.bind_eq_some_iff.1 hlast
    obtain rfl : [d] = last := Option.some.inj hlast
    have hinit' := ih hinit
    have hd' := digitValue?_lt hd
    rw [spelled_concat, List.length_append, List.length_singleton, Nat.pow_succ]
    omega

theorem ofDigits?_lt {cs : List Char} (h : ofDigits? cs = some id) : id.value < count := by
  unfold ofDigits? at h
  split at h
  · rename_i hlength
    obtain ⟨ds, hds, rfl⟩ := Option.map_eq_some_iff.1 h
    have hlt := spelled_lt hds
    rw [hlength] at hlt
    exact hlt
  · cases h

/-- What is read has 128 bits. -/
theorem ofString?_lt {text : String} (h : ofString? text = some id) : id.value < count := by
  have hgroups : ∀ cs, ofGroups? cs = some id → id.value < count := by
    intro cs hcs
    obtain ⟨digits, -, hdigits⟩ := Option.bind_eq_some_iff.1 hcs
    exact ofDigits?_lt hdigits
  simp only [ofString?] at h
  split at h
  · exact ofDigits?_lt h
  · exact hgroups _ h
  · split at h
    · exact hgroups _ h
    · cases h
  · split at h
    · exact hgroups _ h
    · cases h
  · cases h

end SelectionLadder.NodeId
