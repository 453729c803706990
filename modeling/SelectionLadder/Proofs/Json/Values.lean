import Mathlib.Tactic.IntervalCases
import SelectionLadder.Json.Printer
import SelectionLadder.Proofs.Json.Texts

/-!
# Written values

A value that is written in either layout is read back.

`IsProper` says which values these are: the numbers have digits after their point and are not too
large, and the members of an object have different names.

What is written for a proper value is a text of the grammar, whose reading is that of the value
(`IsProper.writes_compact`, `IsProper.writes_wide`).  So it is read as this reading, and the value
comes out of it (`Reading.toJson?_ofJson`).
-/

namespace SelectionLadder.Json

variable {j : Json} {items : List Json} {members : List (String × Json)}

/-! ## Proper values -/

/-- A number that a text can give. -/
structure Number.IsProper (n : Number) : Prop where
  digits : ∀ d ∈ n.fraction, d.isDigit
  inRange : n.inRange

/-- A value that a text can give. -/
inductive IsProper : Json → Prop where
  | null : IsProper .null
  | bool (b : Bool) : IsProper (.bool b)
  | number {n : Number} (h : n.IsProper) : IsProper (.number n)
  | string (s : String) : IsProper (.string s)
  | array {items : List Json} (h : ∀ item ∈ items, IsProper item) : IsProper (.array items)
  | object {members : List (String × Json)} (hnames : (members.map (·.1)).Nodup)
    (h : ∀ m ∈ members, IsProper m.2) : IsProper (.object members)

/-- Integers of 64 bits are proper. -/
theorem IsProper.nat {n : Nat} (h : n < UInt64.size) : IsProper (.nat n) := by
  refine .number ⟨by simp, ?_⟩
  have hlength : (Nat.toDigits 10 n).length ≤ 20 :=
    (Nat.length_toDigits_le_iff (by decide) (by decide)).2 (Nat.lt_trans h (by decide))
  have hmantissa : (⟨false, n, [], none⟩ : Number).mantissa = n := rfl
  have hscale : (⟨false, n, [], none⟩ : Number).scale = 0 := rfl
  simp only [Number.inRange, hmantissa, hscale]
  rw [if_pos]
  omega

/-! ## Written scalars -/

theorem hexDigit?_digitChar {d : Nat} (h : d < 16) : hexDigit? (Nat.digitChar d) = some d := by
  interval_cases d <;> rfl

/-- A unit below the surrogates is the character of this number. -/
theorem joinPieces_unit {n : Nat} (h : n < 0xD800) (ps : List Unit16) :
    joinPieces (.unit n :: ps) = (joinPieces ps).map (Char.ofNat n :: ·) := by
  have hhigh : isHigh n = false := by
    simp only [isHigh, Bool.and_eq_false_iff, decide_eq_false_iff_not]
    omega
  have hlow : isLow n = false := by
    simp only [isLow, Bool.and_eq_false_iff, decide_eq_false_iff_not]
    omega
  cases ps with
  | nil => simp [joinPieces, hhigh, hlow]
  | cons next ps => simp [joinPieces, hhigh, hlow]

/-- What is written for a character of a string is a piece that stands for it. -/
theorem writesPiece_escape (c : Char) :
    ∃ p, WritesPiece (escape c) p ∧
      ∀ ps, joinPieces (p :: ps) = (joinPieces ps).map (c :: ·) := by
  -- Escapes of one letter first, then those with digits, then characters that are not escaped.
  by_cases hshort : c ∈ ['"', '\\', '\n', '\r', '\t', '\x08', '\x0c']
  · refine ⟨.char c, ?_, fun ps => by rw [joinPieces]⟩
    simp only [List.mem_cons, List.not_mem_nil, or_false] at hshort
    rcases hshort with rfl | rfl | rfl | rfl | rfl | rfl | rfl <;> exact .short rfl
  · simp only [List.mem_cons, List.not_mem_nil, or_false, not_or] at hshort
    by_cases hcontrol : c.toNat < 0x20
    · refine ⟨.unit c.toNat, ?_, fun ps => ?_⟩
      · have hzero : hexDigit? '0' = some 0 := rfl
        have hfirst : hexDigit? (Nat.digitChar (c.toNat / 16)) = some (c.toNat / 16) :=
          hexDigit?_digitChar (by omega)
        have hsecond : hexDigit? (Nat.digitChar (c.toNat % 16)) = some (c.toNat % 16) :=
          hexDigit?_digitChar (by omega)
        have hvalue : 16 * (c.toNat / 16) + c.toNat % 16 = c.toNat := by omega
        have hescape : escape c = ['\\', 'u', '0', '0', Nat.digitChar (c.toNat / 16),
            Nat.digitChar (c.toNat % 16)] := by
          simp [escape, hshort, hcontrol]
        rw [hescape]
        exact .unit (by simp [hexUnit?, hzero, hfirst, hsecond, hvalue])
      · rw [joinPieces_unit (by omega), Char.ofNat_toNat]
    · have hescape : escape c = [c] := by simp [escape, hshort, hcontrol]
      refine ⟨.char c, ?_, fun ps => by rw [joinPieces]⟩
      rw [hescape]
      exact .plain (Nat.le_of_not_lt hcontrol) hshort.1 hshort.2.1

theorem writesPieces_escape (s : List Char) :
    ∃ ps, WritesPieces (s.flatMap escape) ps ∧ joinPieces ps = some s := by
  induction s with
  | nil => exact ⟨[], .nil, rfl⟩
  | cons c s ih =>
    obtain ⟨ps, hps, hjoin⟩ := ih
    obtain ⟨p, hp, hcons⟩ := writesPiece_escape c
    exact ⟨p :: ps, .cons hp hps, by rw [hcons, hjoin, Option.map_some]⟩

theorem writesString_quoted (s : String) : WritesString (quoted s) (some s) := by
  obtain ⟨ps, hps, hjoin⟩ := writesPieces_escape s.toList
  have hwritten := WritesString.quoted hps
  rwa [hjoin, Option.map_some, String.ofList_toList] at hwritten

theorem isDigits_decimal (n : Nat) : IsDigits (decimal n) where
  ne_nil := Nat.toDigits_ne_nil
  digits := fun _ hd => Nat.isDigit_of_mem_toDigits (by decide) (by decide) hd

theorem appendDigits_decimal (n : Nat) : appendDigits 0 (decimal n) = n :=
  Nat.ofDigitChars_ten_toDigits

/-- Only zero is written with a leading zero. -/
theorem decimal_of_head?_eq {n : Nat} (h : (decimal n).head? = some '0') : decimal n = ['0'] := by
  induction n using Nat.strongRecOn with
  | _ n ih =>
    by_cases hn : n < 10
    · rw [decimal, Nat.toDigits_of_lt_base hn] at h ⊢
      rw [Option.some.inj h]
    · have hdigits : decimal n = decimal (n / 10) ++ [Nat.digitChar (n % 10)] :=
        Nat.toDigits_of_base_le (by decide) (by omega)
      obtain ⟨d, ds, hcons, -⟩ := (isDigits_decimal (n / 10)).exists_eq_cons
      rw [hdigits, hcons] at h
      have hrest : decimal (n / 10) = ['0'] := by
        apply ih (n / 10) (by omega)
        rw [hcons]
        exact h
      have hzero : n / 10 = 0 := by
        rw [← appendDigits_decimal (n / 10), hrest]
        rfl
      omega

/-- The fraction of a number as it is written. -/
def fractionChars (fraction : List Char) : List Char :=
  if fraction = [] then [] else '.' :: fraction

/-- The exponent of a number as it is written. -/
def exponentChars : Option Int → List Char
  | none => []
  | some e => 'e' :: ((if e < 0 then ['-'] else []) ++ decimal e.natAbs)

theorem writesFraction_fractionChars {fraction : List Char} (h : ∀ d ∈ fraction, d.isDigit) :
    WritesFraction (fractionChars fraction) fraction := by
  by_cases hnone : fraction = []
  · subst hnone
    exact .none
  · rw [fractionChars, if_neg hnone]
    exact .digits ⟨hnone, h⟩

theorem writesExponent_exponentChars (e : Option Int) : WritesExponent (exponentChars e) e := by
  cases e with
  | none => exact .none
  | some e =>
    have hdigits := isDigits_decimal e.natAbs
    have hvalue := appendDigits_decimal e.natAbs
    by_cases hneg : e < 0
    · have hwritten := WritesExponent.minus (.inl rfl) hdigits
      have he : -(e.natAbs : Int) = e := by omega
      rw [hvalue, he] at hwritten
      simpa [exponentChars, hneg] using hwritten
    · have hwritten := WritesExponent.unsigned (.inl rfl) hdigits
      have he : (e.natAbs : Int) = e := by omega
      rw [hvalue, he] at hwritten
      simpa [exponentChars, hneg] using hwritten

theorem Number.chars_eq (n : Number) :
    n.chars = (if n.negative then ['-'] else []) ++
      (decimal n.whole ++ (fractionChars n.fraction ++ exponentChars n.exponent)) := by
  rw [chars, fractionChars, List.append_assoc, List.append_assoc]
  cases n.exponent <;> rfl

theorem Number.IsProper.writes_chars {n : Number} (h : n.IsProper) : WritesNumber n.chars n := by
  have hwritten := WritesNumber.parts n.negative (isDigits_decimal n.whole) decimal_of_head?_eq
    (writesFraction_fractionChars h.digits) (writesExponent_exponentChars n.exponent)
  rwa [appendDigits_decimal, ← n.chars_eq] at hwritten

/-! ## Written lists -/

/-- What follows an opening bracket is items with commas between them, then the closing bracket. -/
def WritesItems (cs : List Char) (rs : List Reading) : Prop :=
  ∃ items : List (List Char × Reading), items ≠ [] ∧ (∀ item ∈ items, Writes item.1 item.2) ∧
    commaed (items.map (·.1)) ++ [']'] = cs ∧ items.map (·.2) = rs

/-- What follows an opening brace is members with commas between them, then the closing brace. -/
def WritesMembers (cs : List Char) (ms : List (Option String × Reading)) : Prop :=
  ∃ members : List WrittenMember, members ≠ [] ∧ (∀ m ∈ members, m.NameWritten) ∧
    (∀ m ∈ members, Writes m.valueText m.value) ∧
    commaed (members.map (·.text)) ++ ['\x7d'] = cs ∧ members.map (·.member) = ms

section Lists

variable {cs cs' blanks : List Char} {r : Reading} {rs : List Reading}
  {ms : List (Option String × Reading)}

theorem Writes.last_item (h : Writes cs r) : WritesItems (cs ++ [']']) [r] :=
  ⟨[(cs, r)], by simp, by simpa using h, by simp [commaed], rfl⟩

theorem Writes.item_cons (h : Writes cs r) (hrest : WritesItems cs' rs) :
    WritesItems (cs ++ ',' :: cs') (r :: rs) := by
  obtain ⟨items, hne, hitems, rfl, rfl⟩ := hrest
  refine ⟨(cs, r) :: items, by simp, List.forall_mem_cons.2 ⟨h, hitems⟩, ?_, rfl⟩
  obtain ⟨next, items, rfl⟩ := List.exists_cons_of_ne_nil hne
  simp [commaed, List.intercalate]

theorem WritesItems.array (h : WritesItems cs rs) : Writes ('[' :: cs) (.array rs none) := by
  obtain ⟨items, hne, hitems, rfl, rfl⟩ := h
  exact .array hne hitems

/-- A member whose name is written as strings are. -/
def printedMember (blanks : List Char) (name : String) (cs : List Char) (r : Reading) :
    WrittenMember :=
  ⟨blanks, quoted name, [], cs, some name, r⟩

theorem nameWritten_printedMember (name : String) (hblanks : IsBlanks blanks) :
    (printedMember blanks name cs r).NameWritten :=
  ⟨hblanks, writesString_quoted name, isBlanks_nil⟩

theorem text_printedMember (blanks : List Char) (name : String) (cs : List Char) (r : Reading) :
    (printedMember blanks name cs r).text = blanks ++ (quoted name ++ ':' :: cs) := rfl

theorem Writes.last_member (name : String) (hblanks : IsBlanks blanks) (h : Writes cs r) :
    WritesMembers (blanks ++ (quoted name ++ ':' :: (cs ++ ['\x7d']))) [(some name, r)] := by
  refine ⟨[printedMember blanks name cs r], by simp, ?_, ?_, ?_, rfl⟩
  · exact List.forall_mem_singleton.2 (nameWritten_printedMember name hblanks)
  · exact List.forall_mem_singleton.2 h
  · simp [commaed, text_printedMember]

theorem Writes.member_cons (name : String) (hblanks : IsBlanks blanks) (h : Writes cs r)
    (hrest : WritesMembers cs' ms) :
    WritesMembers (blanks ++ (quoted name ++ ':' :: (cs ++ ',' :: cs'))) ((some name, r) :: ms) := by
  obtain ⟨members, hne, hnames, hmembers, rfl, rfl⟩ := hrest
  refine ⟨printedMember blanks name cs r :: members, by simp,
    List.forall_mem_cons.2 ⟨nameWritten_printedMember name hblanks, hnames⟩,
    List.forall_mem_cons.2 ⟨h, hmembers⟩, ?_, rfl⟩
  obtain ⟨next, members, rfl⟩ := List.exists_cons_of_ne_nil hne
  simp [commaed, List.intercalate, text_printedMember]

theorem WritesMembers.object (h : WritesMembers cs ms) :
    Writes ('\x7b' :: cs) (.object ms none) := by
  obtain ⟨members, hne, hnames, hmembers, rfl, rfl⟩ := h
  exact .object hne hnames hmembers

end Lists

/-! ## The compact layout -/

theorem writesItems_compactItems {item : Json}
    (h : ∀ j ∈ item :: items, Writes (compact j) (.ofJson j)) :
    WritesItems (compactItems (item :: items)) (Reading.ofItems (item :: items)) := by
  induction items generalizing item with
  | nil => exact (h item List.mem_cons_self).last_item
  | cons next items ih =>
    obtain ⟨hitem, hitems⟩ := List.forall_mem_cons.1 h
    exact hitem.item_cons (ih hitems)

theorem writesMembers_compactMembers {m : String × Json}
    (h : ∀ m' ∈ m :: members, Writes (compact m'.2) (.ofJson m'.2)) :
    WritesMembers (compactMembers (m :: members)) (Reading.ofMembers (m :: members)) := by
  induction members generalizing m with
  | nil => exact (h m List.mem_cons_self).last_member m.1 isBlanks_nil
  | cons next members ih =>
    obtain ⟨hm, hmembers⟩ := List.forall_mem_cons.1 h
    exact hm.member_cons m.1 isBlanks_nil (ih hmembers)

/-- What the compact layout writes for a value is JSON, and its reading is that of the value. -/
theorem IsProper.writes_compact (h : j.IsProper) : Writes (compact j) (.ofJson j) := by
  induction h with
  | null => exact .null
  | bool b => exact .bool b
  | number h => exact .number h.writes_chars
  | string s => exact .string (writesString_quoted s)
  | @array items _ ih =>
    cases items with
    | nil => exact .emptyArray isBlanks_nil
    | cons item items => exact (writesItems_compactItems ih).array
  | @object members _ _ ih =>
    cases members with
    | nil => exact .emptyObject isBlanks_nil
    | cons m members => exact (writesMembers_compactMembers ih).object

/-! ## The wide layout -/

theorem isBlanks_newLine (level : Nat) : IsBlanks (newLine level) := by
  intro c hc
  obtain rfl | hc := List.mem_cons.1 hc
  · rfl
  · rw [List.eq_of_mem_replicate hc]
    rfl

theorem writesItems_wideItems {item : Json} (level : Nat)
    (h : ∀ j ∈ item :: items, Writes (wide (level + 1) j) (.ofJson j)) :
    WritesItems (newLine (level + 1) ++ wide (level + 1) item ++ wideItems level items)
      (Reading.ofItems (item :: items)) := by
  induction items generalizing item with
  | nil =>
    have hitem := (h item List.mem_cons_self).blanks_append (isBlanks_newLine (level + 1))
    rw [wideItems, ← List.append_assoc]
    exact (hitem.append_blanks (isBlanks_newLine level)).last_item
  | cons next items ih =>
    obtain ⟨hitem, hitems⟩ := List.forall_mem_cons.1 h
    exact (hitem.blanks_append (isBlanks_newLine (level + 1))).item_cons (ih hitems)

theorem writesMembers_wideMembers {m : String × Json} (level : Nat)
    (h : ∀ m' ∈ m :: members, Writes (wide (level + 1) m'.2) (.ofJson m'.2)) :
    WritesMembers (newLine (level + 1) ++ quoted m.1 ++ [':', ' '] ++ wide (level + 1) m.2 ++
      wideMembers level members) (Reading.ofMembers (m :: members)) := by
  induction members generalizing m with
  | nil =>
    -- the space after the colon and the line break after the last value belong to this value
    have hvalue : Writes (' ' :: wide (level + 1) m.2) (.ofJson m.2) :=
      .blank_cons rfl (h m List.mem_cons_self)
    have hmember := (hvalue.append_blanks (isBlanks_newLine level)).last_member m.1
      (isBlanks_newLine (level + 1))
    simpa [wideMembers, Reading.ofMembers] using hmember
  | cons next members ih =>
    obtain ⟨hm, hmembers⟩ := List.forall_mem_cons.1 h
    have hvalue : Writes (' ' :: wide (level + 1) m.2) (.ofJson m.2) := .blank_cons rfl hm
    have hmember := hvalue.member_cons m.1 (isBlanks_newLine (level + 1)) (ih hmembers)
    simpa [wideMembers, Reading.ofMembers] using hmember

/-- What the wide layout writes for a value at any level is JSON, and its reading is that of the
value. -/
theorem IsProper.writes_wide (h : j.IsProper) (level : Nat) :
    Writes (wide level j) (.ofJson j) := by
  induction h generalizing level with
  | null => exact .null
  | bool b => exact .bool b
  | number h => exact .number h.writes_chars
  | string s => exact .string (writesString_quoted s)
  | @array items _ ih =>
    cases items with
    | nil => exact .emptyArray isBlanks_nil
    | cons item items => exact (writesItems_wideItems level fun j hj => ih j hj _).array
  | @object members _ _ ih =>
    cases members with
    | nil => exact .emptyObject isBlanks_nil
    | cons m members => exact (writesMembers_wideMembers level fun m hm => ih m hm _).object

/-! ## Reading -/

namespace Reading

theorem toItems?_ofItems (h : ∀ item ∈ items, (ofJson item).toJson? = some item) :
    toItems? (ofItems items) = some items := by
  induction items with
  | nil => rfl
  | cons item items ih =>
    obtain ⟨hitem, hitems⟩ := List.forall_mem_cons.1 h
    simp only [ofItems, toItems?, hitem, ih hitems]

theorem toMembers?_ofMembers (hnames : (members.map (·.1)).Nodup)
    (h : ∀ m ∈ members, (ofJson m.2).toJson? = some m.2) :
    toMembers? (ofMembers members) = some members := by
  induction members with
  | nil => rfl
  | cons m members ih =>
    obtain ⟨name, value⟩ := m
    obtain ⟨hvalue, hmembers⟩ := List.forall_mem_cons.1 h
    rw [List.map_cons, List.nodup_cons] at hnames
    have hnew : (members.any fun m => m.1 = name) = false := by
      rw [List.any_eq_false]
      intro m hm heq
      exact hnames.1 (List.mem_map.2 ⟨m, hm, by simpa using heq⟩)
    simp only [ofMembers, toMembers?, hvalue, ih hnames.2 hmembers, hnew, Bool.false_eq_true,
      if_false]

/-- A proper value is that of its reading. -/
theorem toJson?_ofJson (h : j.IsProper) : (ofJson j).toJson? = some j := by
  induction h with
  | number h => simp only [ofJson, toJson?, h.inRange, if_true]
  | array _ ih => rw [ofJson, toJson?, toItems?_ofItems ih, Option.map_some]
  | object hnames _ ih => rw [ofJson, toJson?, toMembers?_ofMembers hnames ih, Option.map_some]
  | _ => rfl

end Reading

/-- What is written for a proper value is read as this value, to its end. -/
theorem Reading.ofText_pretty (h : j.IsProper) : ofText (pretty j) = (ofJson j, []) := by
  apply ofText_of_writes
  rw [pretty, String.toList_ofList]
  exact h.writes_wide 0

/-- A proper value is read from what is written for it in the compact layout. -/
theorem ofText?_compact (h : j.IsProper) : ofText? (String.ofList (compact j)) = some j := by
  have hwrites : Writes (String.ofList (compact j)).toList (.ofJson j) := by
    rw [String.toList_ofList]
    exact h.writes_compact
  rw [ofText?, Reading.ofText_of_writes hwrites]
  exact Reading.toJson?_ofJson h

/-- A proper value is read from what is written for it in the wide layout. -/
theorem ofText?_pretty (h : j.IsProper) : ofText? (pretty j) = some j := by
  rw [ofText?, Reading.ofText_pretty h]
  exact Reading.toJson?_ofJson h

end SelectionLadder.Json
