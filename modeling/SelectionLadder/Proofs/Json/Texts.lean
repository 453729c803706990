import SelectionLadder.Proofs.Json.Tokens

/-!
# Texts that are read

A text that the grammar allows is read as what the grammar says, to its end
(`Reading.ofText_of_writes`): with any white space, any escapes, and to any depth.

A text gives a reading (`Gives`) if it is cut into tokens from which the reading is read, whatever
follows them.  What is inside brackets is read item by item (`GivesItems`) or member by member
(`GivesMembers`); there is one lemma for the last item, one for an item before others and one for
the brackets, and the same for members.
-/

namespace SelectionLadder.Json

open Reading (itemsOfTokens membersOfTokens ofTokens)

variable {cs cs' : List Char} {r : Reading} {rs : List Reading}
  {ms : List (Option String × Reading)}

/-- The text is cut into tokens from which the reading is read.  The first of them does not end an
array, so that an array is not taken for an empty one because of its first item. -/
def Gives (cs : List Char) (r : Reading) : Prop :=
  ∃ t ts, t ≠ .closeArray ∧ Scans cs (t :: ts) ∧
    ∀ {fuel rest}, (t :: ts).length ≤ fuel → ofTokens fuel (t :: ts ++ rest) = (r, rest)

/-- From what follows an opening bracket, these items are read and no fault. -/
def GivesItems (cs : List Char) (rs : List Reading) : Prop :=
  ∃ t ts, t ≠ .closeArray ∧ Scans cs (t :: ts) ∧
    ∀ {fuel rest}, (t :: ts).length ≤ fuel →
      itemsOfTokens fuel (t :: ts ++ rest) = (rs, none, rest)

/-- From what follows an opening brace, these members are read and no fault. -/
def GivesMembers (cs : List Char) (ms : List (Option String × Reading)) : Prop :=
  ∃ name ts, Scans cs (.string name :: ts) ∧
    ∀ {fuel rest}, (Token.string name :: ts).length ≤ fuel →
      membersOfTokens fuel (.string name :: ts ++ rest) = (ms, none, rest)

/-- A token that is a value gives it. -/
theorem Gives.token {t : Token} (ht : t ≠ .closeArray) (hscans : Scans cs [t])
    (h : ∀ fuel rest, ofTokens (fuel + 1) (t :: rest) = (r, rest)) : Gives cs r := by
  refine ⟨t, [], ht, hscans, fun {fuel rest} hfuel => ?_⟩
  obtain ⟨fuel, rfl⟩ : ∃ k, fuel = k + 1 := ⟨fuel - 1, by simp at hfuel; omega⟩
  exact h fuel rest

/-! ## Arrays -/

theorem Gives.last_item (h : Gives cs r) : GivesItems (cs ++ [']']) [r] := by
  obtain ⟨t, ts, ht, hscans, hread⟩ := h
  have hend : Scans [']'] [.closeArray] := .symbol_cons rfl (fun _ => rfl) .nil
  refine ⟨t, ts ++ [Token.closeArray], ht, hscans.append (by simp [Apart]) hend, ?_⟩
  intro fuel rest hfuel
  simp only [List.length_cons, List.length_append, List.length_nil] at hfuel
  obtain ⟨fuel, rfl⟩ : ∃ k, fuel = k + 1 := ⟨fuel - 1, by omega⟩
  rw [← List.cons_append, List.append_assoc, itemsOfTokens,
    hread (by simp only [List.length_cons]; omega)]
  rfl

theorem Gives.item_cons (h : Gives cs r) (hrest : GivesItems cs' rs) :
    GivesItems (cs ++ ',' :: cs') (r :: rs) := by
  obtain ⟨t, ts, ht, hscans, hread⟩ := h
  obtain ⟨t', ts', -, hscans', hread'⟩ := hrest
  have hcomma : Scans (',' :: cs') (.comma :: t' :: ts') := .symbol_cons rfl (fun _ => rfl) hscans'
  refine ⟨t, ts ++ .comma :: t' :: ts', ht, hscans.append (by simp [Apart]) hcomma, ?_⟩
  intro fuel rest hfuel
  simp only [List.length_cons, List.length_append] at hfuel
  obtain ⟨fuel, rfl⟩ : ∃ k, fuel = k + 1 := ⟨fuel - 1, by omega⟩
  have hmore : itemsOfTokens fuel (t' :: ts' ++ rest) = (rs, none, rest) :=
    hread' (by simp only [List.length_cons]; omega)
  rw [← List.cons_append, List.append_assoc, itemsOfTokens,
    hread (by simp only [List.length_cons]; omega), List.cons_append]
  simp only [hmore]

theorem givesItems_commaed {items : List (List Char × Reading)} (hne : items ≠ [])
    (h : ∀ item ∈ items, Gives item.1 item.2) :
    GivesItems (commaed (items.map (·.1)) ++ [']']) (items.map (·.2)) := by
  induction items with
  | nil => exact absurd rfl hne
  | cons item items ih =>
    obtain ⟨hitem, hitems⟩ := List.forall_mem_cons.1 h
    cases items with
    | nil => simpa [commaed] using hitem.last_item
    | cons next items => simpa [commaed, List.intercalate] using hitem.item_cons (ih (by simp) hitems)

/-- What follows an opening bracket is read as an item if it is not the closing one. -/
theorem ofTokens_openArray {t : Token} (ht : t ≠ .closeArray) (fuel : Nat) (ts : List Token) :
    ofTokens (fuel + 1) (.openArray :: t :: ts) =
      (.array (itemsOfTokens fuel (t :: ts)).1 (itemsOfTokens fuel (t :: ts)).2.1,
        (itemsOfTokens fuel (t :: ts)).2.2) := by
  cases t <;> first | exact absurd rfl ht | rfl

theorem GivesItems.array (h : GivesItems cs rs) : Gives ('[' :: cs) (.array rs none) := by
  obtain ⟨t, ts, ht, hscans, hread⟩ := h
  refine ⟨.openArray, t :: ts, by simp, .symbol_cons rfl (fun _ => rfl) hscans, ?_⟩
  intro fuel rest hfuel
  obtain ⟨fuel, rfl⟩ : ∃ k, fuel = k + 1 := ⟨fuel - 1, by simp at hfuel; omega⟩
  rw [List.cons_append, List.cons_append, ofTokens_openArray ht, ← List.cons_append,
    hread (Nat.le_of_succ_le_succ hfuel)]

/-! ## Objects -/

theorem apart_blanks_append {blanks : List Char} (hblanks : IsBlanks blanks) (h : Apart cs) :
    Apart (blanks ++ cs) := by
  cases blanks with
  | nil => exact h
  | cons c blanks => exact apart_of_blank (hblanks c List.mem_cons_self)

/-- The name of a member and its colon are cut off before its value. -/
theorem WrittenMember.NameWritten.scans {m : WrittenMember} (hname : m.NameWritten)
    {ts : List Token} (h : Scans cs ts) :
    Scans (m.before ++ (m.nameText ++ (m.after ++ ':' :: cs))) (.string m.name :: .colon :: ts) := by
  have hcolon : Scans (':' :: cs) (.colon :: ts) := .symbol_cons rfl (fun _ => rfl) h
  have hapart : Apart (m.after ++ ':' :: cs) := apart_blanks_append hname.after (by simp [Apart])
  exact .blanks_append hname.before
    ((Scans.string hname.name).append hapart (hcolon.blanks_append hname.after))

theorem WrittenMember.NameWritten.last_member {m : WrittenMember} (hname : m.NameWritten)
    (h : Gives m.valueText m.value) : GivesMembers (m.text ++ ['\x7d']) [m.member] := by
  obtain ⟨t, ts, -, hscans, hread⟩ := h
  have hend : Scans ['\x7d'] [.closeObject] := .symbol_cons rfl (fun _ => rfl) .nil
  refine ⟨m.name, .colon :: (t :: ts ++ [.closeObject]), ?_, ?_⟩
  · simp only [WrittenMember.text, List.append_assoc, List.cons_append]
    exact hname.scans (hscans.append (by simp [Apart]) hend)
  · intro fuel rest hfuel
    simp only [List.length_cons, List.length_append] at hfuel
    obtain ⟨fuel, rfl⟩ : ∃ k, fuel = k + 1 := ⟨fuel - 1, by omega⟩
    rw [List.cons_append, List.cons_append, List.append_assoc, membersOfTokens,
      hread (by simp only [List.length_cons]; omega)]
    rfl

theorem WrittenMember.NameWritten.member_cons {m : WrittenMember} (hname : m.NameWritten)
    (h : Gives m.valueText m.value) (hrest : GivesMembers cs' ms) :
    GivesMembers (m.text ++ ',' :: cs') (m.member :: ms) := by
  obtain ⟨t, ts, -, hscans, hread⟩ := h
  obtain ⟨name', ts', hscans', hread'⟩ := hrest
  have hcomma : Scans (',' :: cs') (.comma :: .string name' :: ts') :=
    .symbol_cons rfl (fun _ => rfl) hscans'
  refine ⟨m.name, .colon :: (t :: ts ++ .comma :: .string name' :: ts'), ?_, ?_⟩
  · simp only [WrittenMember.text, List.append_assoc, List.cons_append]
    exact hname.scans (hscans.append (by simp [Apart]) hcomma)
  · intro fuel rest hfuel
    simp only [List.length_cons, List.length_append] at hfuel
    obtain ⟨fuel, rfl⟩ : ∃ k, fuel = k + 1 := ⟨fuel - 1, by omega⟩
    have hmore : membersOfTokens fuel (.string name' :: ts' ++ rest) = (ms, none, rest) :=
      hread' (by simp only [List.length_cons]; omega)
    rw [List.cons_append, List.cons_append, List.append_assoc, membersOfTokens,
      hread (by simp only [List.length_cons]; omega), List.cons_append]
    simp only [hmore]
    rfl

theorem givesMembers_commaed {members : List WrittenMember} (hne : members ≠ [])
    (hname : ∀ m ∈ members, m.NameWritten) (h : ∀ m ∈ members, Gives m.valueText m.value) :
    GivesMembers (commaed (members.map (·.text)) ++ ['\x7d']) (members.map (·.member)) := by
  induction members with
  | nil => exact absurd rfl hne
  | cons m members ih =>
    obtain ⟨hm, hmembers⟩ := List.forall_mem_cons.1 h
    obtain ⟨hwritten, hnames⟩ := List.forall_mem_cons.1 hname
    cases members with
    | nil => simpa [commaed] using hwritten.last_member hm
    | cons next members =>
      simpa [commaed, List.intercalate] using
        hwritten.member_cons hm (ih (by simp) hnames hmembers)

theorem ofTokens_openObject (name : Option String) (fuel : Nat) (ts : List Token) :
    ofTokens (fuel + 1) (.openObject :: .string name :: ts) =
      (.object (membersOfTokens fuel (.string name :: ts)).1
          (membersOfTokens fuel (.string name :: ts)).2.1,
        (membersOfTokens fuel (.string name :: ts)).2.2) := rfl

theorem GivesMembers.object (h : GivesMembers cs ms) : Gives ('\x7b' :: cs) (.object ms none) := by
  obtain ⟨name, ts, hscans, hread⟩ := h
  refine ⟨.openObject, .string name :: ts, by simp, .symbol_cons rfl (fun _ => rfl) hscans, ?_⟩
  intro fuel rest hfuel
  obtain ⟨fuel, rfl⟩ : ∃ k, fuel = k + 1 := ⟨fuel - 1, by simp at hfuel; omega⟩
  have hmembers : membersOfTokens fuel (.string name :: (ts ++ rest)) = (ms, none, rest) :=
    hread (Nat.le_of_succ_le_succ hfuel)
  rw [List.cons_append, List.cons_append, ofTokens_openObject, hmembers]

/-! ## Texts -/

/-- Brackets with nothing but white space between them. -/
theorem Gives.empty {left right : Char} {opening closing : Token} {blanks : List Char}
    (hstart : opening ≠ .closeArray) (hleft : isBlank left = false)
    (hopening : ∀ rest, scanToken left rest = (opening, rest)) (hright : isBlank right = false)
    (hclosing : ∀ rest, scanToken right rest = (closing, rest)) (hblanks : IsBlanks blanks)
    (h : ∀ fuel rest, ofTokens (fuel + 1) (opening :: closing :: rest) = (r, rest)) :
    Gives (left :: (blanks ++ [right])) r := by
  have hend : Scans [right] [closing] := .symbol_cons hright hclosing .nil
  refine ⟨opening, [closing], hstart,
    .symbol_cons hleft hopening (hend.blanks_append hblanks), fun {fuel rest} hfuel => ?_⟩
  obtain ⟨fuel, rfl⟩ : ∃ k, fuel = k + 1 := ⟨fuel - 1, by simp at hfuel; omega⟩
  exact h fuel rest

/-- A text gives its reading. -/
theorem Writes.gives (h : Writes cs r) : Gives cs r := by
  induction h with
  | null => exact .token (by simp) .null fun _ _ => rfl
  | bool b => exact .token (by simp) (.bool b) fun _ _ => rfl
  | number h => exact .token (by simp) (.number h) fun _ _ => rfl
  | string h => exact .token (by simp) (.string h) fun _ _ => rfl
  | emptyArray h =>
    exact .empty (by simp) rfl (fun _ => rfl) rfl (fun _ => rfl) h fun _ _ => rfl
  | array hne _ ih => exact (givesItems_commaed hne ih).array
  | emptyObject h =>
    exact .empty (by simp) rfl (fun _ => rfl) rfl (fun _ => rfl) h fun _ _ => rfl
  | object hne hname _ ih => exact (givesMembers_commaed hne hname ih).object
  | blank_cons hc _ ih =>
    obtain ⟨t, ts, ht, hscans, hread⟩ := ih
    exact ⟨t, ts, ht, hscans.blank_cons hc, hread⟩
  | append_blank _ hc ih =>
    obtain ⟨t, ts, ht, hscans, hread⟩ := ih
    exact ⟨t, ts, ht, hscans.append_blank hc, hread⟩

/-- A text is read as what the grammar says, and nothing of it is left over. -/
theorem Reading.ofText_of_writes {text : String} (h : Writes text.toList r) :
    ofText text = (r, []) := by
  obtain ⟨t, ts, -, hscans, hread⟩ := h.gives
  have hall : ofTokens (2 * (t :: ts).length + 1) (t :: ts ++ []) = (r, []) := hread (by omega)
  rw [List.append_nil] at hall
  rw [ofText, hscans.tokens_eq, hall]

end SelectionLadder.Json
