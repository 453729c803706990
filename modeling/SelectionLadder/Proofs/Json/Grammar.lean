import SelectionLadder.Json.Reading

/-!
# The grammar of JSON

Which texts are JSON, and what they are read as.  The rules are those of the grammar: white space
may stand before and after every value and every name, a character of a string may be written
as it is or as an escape, and a number has no leading zeros.

`Writes` relates a text to its reading.  It says nothing about how texts are read.
-/

namespace SelectionLadder.Json

/-! ## Strings -/

/-- A piece of a string as it is written. -/
inductive WritesPiece : List Char → Unit16 → Prop where
  /-- A character stands for itself, unless it is a quote, a backslash or a control character. -/
  | plain {c : Char} (hcontrol : 0x20 ≤ c.toNat) (hquote : c ≠ '"') (hescape : c ≠ '\\') :
    WritesPiece [c] (.char c)
  /-- A backslash and one letter. -/
  | short {e c : Char} (h : simpleEscape? e = some c) : WritesPiece ['\\', e] (.char c)
  /-- Four hexadecimal digits. -/
  | unit {a b c d : Char} {n : Nat} (h : hexUnit? a b c d = some n) :
    WritesPiece ['\\', 'u', a, b, c, d] (.unit n)

/-- Pieces, one after the other. -/
inductive WritesPieces : List Char → List Unit16 → Prop where
  | nil : WritesPieces [] []
  | cons {cs rest : List Char} {p : Unit16} {ps : List Unit16} (h : WritesPiece cs p)
    (hrest : WritesPieces rest ps) : WritesPieces (cs ++ rest) (p :: ps)

/-- Pieces between quotes.  They make a string if their surrogates are in pairs. -/
inductive WritesString : List Char → Option String → Prop where
  | quoted {cs : List Char} {ps : List Unit16} (h : WritesPieces cs ps) :
    WritesString ('"' :: (cs ++ ['"'])) ((joinPieces ps).map String.ofList)

/-! ## Numbers -/

/-- Digits, at least one. -/
structure IsDigits (ds : List Char) : Prop where
  ne_nil : ds ≠ []
  digits : ∀ d ∈ ds, d.isDigit

/-- The fraction of a number, if it has one. -/
inductive WritesFraction : List Char → List Char → Prop where
  | none : WritesFraction [] []
  | digits {ds : List Char} (h : IsDigits ds) : WritesFraction ('.' :: ds) ds

/-- The exponent of a number, if it has one. -/
inductive WritesExponent : List Char → Option Int → Prop where
  | none : WritesExponent [] none
  | unsigned {e : Char} {ds : List Char} (he : e = 'e' ∨ e = 'E') (h : IsDigits ds) :
    WritesExponent (e :: ds) (some (appendDigits 0 ds))
  | plus {e : Char} {ds : List Char} (he : e = 'e' ∨ e = 'E') (h : IsDigits ds) :
    WritesExponent (e :: '+' :: ds) (some (appendDigits 0 ds))
  | minus {e : Char} {ds : List Char} (he : e = 'e' ∨ e = 'E') (h : IsDigits ds) :
    WritesExponent (e :: '-' :: ds) (some (-appendDigits 0 ds))

/-- The sign, the whole part without leading zeros, the fraction and the exponent. -/
inductive WritesNumber : List Char → Number → Prop where
  | parts (negative : Bool) {whole fs fraction es : List Char} {exponent : Option Int}
    (hwhole : IsDigits whole) (hzero : whole.head? = some '0' → whole = ['0'])
    (hfraction : WritesFraction fs fraction) (hexponent : WritesExponent es exponent) :
    WritesNumber ((if negative then ['-'] else []) ++ (whole ++ (fs ++ es)))
      ⟨negative, appendDigits 0 whole, fraction, exponent⟩

/-! ## Values -/

/-- Nothing but white space. -/
def IsBlanks (cs : List Char) : Prop := ∀ c ∈ cs, isBlank c

/-- A member of an object as it is written, and what it is read as. -/
structure WrittenMember where
  before : List Char
  nameText : List Char
  after : List Char
  valueText : List Char
  name : Option String
  value : Reading

namespace WrittenMember

/-- The name between white space, the colon and the value. -/
def text (m : WrittenMember) : List Char :=
  m.before ++ (m.nameText ++ (m.after ++ ':' :: m.valueText))

/-- What the member is read as. -/
def member (m : WrittenMember) : Option String × Reading := (m.name, m.value)

/-- The name is written as a string, and white space is around it. -/
structure NameWritten (m : WrittenMember) : Prop where
  before : IsBlanks m.before
  name : WritesString m.nameText m.name
  after : IsBlanks m.after

end WrittenMember

/-- Texts with commas between them. -/
def commaed (texts : List (List Char)) : List Char := List.intercalate [','] texts

/-- The text is JSON, and this is its reading. -/
inductive Writes : List Char → Reading → Prop where
  | null : Writes "null".toList .null
  | bool (b : Bool) : Writes (if b then "true".toList else "false".toList) (.bool b)
  | number {cs : List Char} {n : Number} (h : WritesNumber cs n) : Writes cs (.number n)
  | string {cs : List Char} {s : Option String} (h : WritesString cs s) : Writes cs (.string s)
  | emptyArray {blanks : List Char} (h : IsBlanks blanks) :
    Writes ('[' :: (blanks ++ [']'])) (.array [] none)
  | array {items : List (List Char × Reading)} (hne : items ≠ [])
    (h : ∀ item ∈ items, Writes item.1 item.2) :
    Writes ('[' :: (commaed (items.map (·.1)) ++ [']'])) (.array (items.map (·.2)) none)
  | emptyObject {blanks : List Char} (h : IsBlanks blanks) :
    Writes ('\x7b' :: (blanks ++ ['\x7d'])) (.object [] none)
  | object {members : List WrittenMember} (hne : members ≠ [])
    (hname : ∀ m ∈ members, m.NameWritten) (h : ∀ m ∈ members, Writes m.valueText m.value) :
    Writes ('\x7b' :: (commaed (members.map (·.text)) ++ ['\x7d']))
      (.object (members.map (·.member)) none)
  | blank_cons {c : Char} {cs : List Char} {r : Reading} (hc : isBlank c) (h : Writes cs r) :
    Writes (c :: cs) r
  | append_blank {c : Char} {cs : List Char} {r : Reading} (h : Writes cs r) (hc : isBlank c) :
    Writes (cs ++ [c]) r

/-! ## White space -/

theorem isBlanks_nil : IsBlanks [] := by simp [IsBlanks]

theorem Writes.blanks_append {blanks cs : List Char} {r : Reading} (hblanks : IsBlanks blanks)
    (h : Writes cs r) : Writes (blanks ++ cs) r := by
  induction blanks with
  | nil => exact h
  | cons c blanks ih =>
    obtain ⟨hc, hrest⟩ := List.forall_mem_cons.1 hblanks
    exact .blank_cons hc (ih hrest)

theorem Writes.append_blanks {blanks cs : List Char} {r : Reading} (h : Writes cs r)
    (hblanks : IsBlanks blanks) : Writes (cs ++ blanks) r := by
  induction blanks generalizing cs with
  | nil => rwa [List.append_nil]
  | cons c blanks ih =>
    obtain ⟨hc, hrest⟩ := List.forall_mem_cons.1 hblanks
    rw [← List.singleton_append, ← List.append_assoc]
    exact ih (h.append_blank hc) hrest

/-! ## Whole readings -/

namespace Reading

/-- Nothing is wrong with the reading up to its end. -/
inductive IsWhole : Reading → Prop where
  | null : IsWhole .null
  | bool (b : Bool) : IsWhole (.bool b)
  | number (n : Number) : IsWhole (.number n)
  | string (s : Option String) : IsWhole (.string s)
  | array {items : List Reading} (h : ∀ item ∈ items, IsWhole item) : IsWhole (.array items none)
  | object {members : List (Option String × Reading)} (h : ∀ m ∈ members, IsWhole m.2) :
    IsWhole (.object members none)

/-- The values in a whole object are whole. -/
theorem IsWhole.members {members : List (Option String × Reading)} {fault : Option Faults}
    (h : IsWhole (.object members fault)) : ∀ m ∈ members, m.2.IsWhole := by
  cases h with
  | object h => exact h

theorem skipItems_eq_ok {items : List Reading} (h : ∀ item ∈ items, item.skip = .ok ()) :
    skipItems none items = .ok () := by
  induction items with
  | nil => rfl
  | cons item items ih =>
    obtain ⟨hitem, hitems⟩ := List.forall_mem_cons.1 h
    rw [skipItems, hitem]
    exact ih hitems

theorem skipMembers_eq_ok {members : List (Option String × Reading)}
    (h : ∀ m ∈ members, m.2.skip = .ok ()) : skipMembers none members = .ok () := by
  induction members with
  | nil => rfl
  | cons m members ih =>
    obtain ⟨hm, hmembers⟩ := List.forall_mem_cons.1 h
    rw [skipMembers, hm]
    exact ih hmembers

/-- A whole value is passed over, however deep it is. -/
theorem IsWhole.skip_eq_ok {r : Reading} (h : r.IsWhole) : r.skip = .ok () := by
  induction h with
  | @array items _ ih => exact skipItems_eq_ok ih
  | @object members _ ih => exact skipMembers_eq_ok ih
  | _ => rfl

end Reading

/-- What a text is read as is whole. -/
theorem Writes.isWhole {cs : List Char} {r : Reading} (h : Writes cs r) : r.IsWhole := by
  induction h with
  | null => exact .null
  | bool b => exact .bool b
  | number _ => exact .number _
  | string _ => exact .string _
  | emptyArray _ => exact .array (by simp)
  | @array items _ _ ih =>
    refine .array fun r hr => ?_
    obtain ⟨item, hitem, rfl⟩ := List.mem_map.1 hr
    exact ih item hitem
  | emptyObject _ => exact .object (by simp)
  | @object members _ _ _ ih =>
    refine .object fun r hr => ?_
    obtain ⟨m, hm, rfl⟩ := List.mem_map.1 hr
    exact ih m hm
  | blank_cons _ _ ih => exact ih
  | append_blank _ _ ih => exact ih

end SelectionLadder.Json
