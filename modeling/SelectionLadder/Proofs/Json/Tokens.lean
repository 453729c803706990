import SelectionLadder.Proofs.Json.Grammar

/-!
# Tokens of written texts

Where the grammar puts a scalar or a symbol, one token is cut from the text.

* `scanString_of_writes`: each character or escape is one piece of a string.
* `scanNumber_of_writes`: the parts of a number end where the next one starts, if what follows the
  number does not go on with it.
* `Scans` says that characters are cut into tokens.  Scans are put together with symbols between
  them (`Scans.symbol_cons`, `Scans.append`) and with white space (`Scans.blanks_append`,
  `Scans.append_blank`).
-/

namespace SelectionLadder.Json

variable {c : Char} {cs cs' ds rest : List Char} {t : Token} {ts ts' : List Token}

/-! ## Strings -/

/-- What is written for a piece of a string is read as this piece. -/
theorem stringPieces_of_piece {p : Unit16} (h : WritesPiece cs p) (rest : List Char) :
    stringPieces (cs ++ rest) = (p :: (stringPieces rest).1, (stringPieces rest).2) := by
  cases h with
  | plain hcontrol hquote hescape => simp [stringPieces, hquote, hescape, Nat.not_lt.2 hcontrol]
  | @short e c h =>
    have hletter : e ≠ 'u' := by
      rintro rfl
      simp [simpleEscape?] at h
    simp [stringPieces, hletter, h]
  | unit h => simp [stringPieces, h]

theorem stringPieces_of_pieces {ps : List Unit16} (h : WritesPieces cs ps) (rest : List Char) :
    stringPieces (cs ++ '"' :: rest) = (ps, .ok rest) := by
  induction h with
  | nil => rfl
  | cons h _ ih => rw [List.append_assoc, stringPieces_of_piece h, ih]

/-- A string between quotes is read. -/
theorem scanString_of_writes {s : Option String} (h : WritesString ('"' :: cs) s)
    (rest : List Char) : scanString (cs ++ rest) = (.string s, rest) := by
  cases h with
  | quoted h => rw [List.append_assoc, scanString, List.singleton_append, stringPieces_of_pieces h]

/-! ## Numbers -/

/-- The text does not go on with digits. -/
def StopsDigits (rest : List Char) : Prop := ∀ c ∈ rest.head?, c.isDigit = false

/-- The text does not go on with a part of a number. -/
def Apart (rest : List Char) : Prop :=
  ∀ c ∈ rest.head?, c.isDigit = false ∧ c ≠ '.' ∧ c ≠ 'e' ∧ c ≠ 'E'

theorem Apart.nil : Apart [] := by simp [Apart]

theorem Apart.stopsDigits (h : Apart rest) : StopsDigits rest := fun c hc => (h c hc).1

theorem Apart.append (h : Apart cs) (hrest : Apart rest) : Apart (cs ++ rest) := by
  cases cs with
  | nil => exact hrest
  | cons c cs => exact h

/-- White space ends a number. -/
theorem apart_of_blank (hc : isBlank c) : Apart (c :: rest) := by
  rintro _ ⟨⟩
  simp only [isBlank, Bool.or_eq_true, beq_iff_eq] at hc
  obtain ((rfl | rfl) | rfl) | rfl := hc <;> decide

theorem IsDigits.takeWhile_append (hds : IsDigits ds) (h : StopsDigits rest) :
    (ds ++ rest).takeWhile Char.isDigit = ds ∧ (ds ++ rest).dropWhile Char.isDigit = rest := by
  rw [List.takeWhile_append_of_pos hds.digits, List.dropWhile_append_of_pos hds.digits]
  cases rest with
  | nil => simp
  | cons c rest =>
    have hc : c.isDigit = false := h c rfl
    simp [hc]

theorem IsDigits.exists_eq_cons (hds : IsDigits ds) :
    ∃ d digits, ds = d :: digits ∧ d.isDigit := by
  cases ds with
  | nil => exact absurd rfl hds.ne_nil
  | cons d digits => exact ⟨d, digits, rfl, hds.digits d List.mem_cons_self⟩

theorem ne_sign {d : Char} (h : d.isDigit) : d ≠ '-' ∧ d ≠ '+' := by
  constructor <;>
  · rintro rfl
    exact absurd h (by decide)

theorem WritesExponent.stopsDigits {e : Option Int} (h : WritesExponent cs e) (hrest : Apart rest) :
    StopsDigits (cs ++ rest) := by
  cases h with
  | none => exact hrest.stopsDigits
  | unsigned he _ | plus he _ | minus he _ =>
    rintro _ ⟨⟩
    obtain rfl | rfl := he <;> rfl

/-- No point follows the fraction of a number. -/
theorem WritesExponent.ne_point {e : Option Int} (h : WritesExponent cs e) (hrest : Apart rest) :
    ∀ c ∈ (cs ++ rest).head?, c ≠ '.' := by
  cases h with
  | none => exact fun c hc => (hrest c hc).2.1
  | unsigned he _ | plus he _ | minus he _ =>
    rintro _ ⟨⟩
    obtain rfl | rfl := he <;> decide

theorem scanExponent_of_writes {e : Option Int} (h : WritesExponent cs e) (hrest : Apart rest) :
    scanExponent (cs ++ rest) = .ok (e, rest) := by
  cases h with
  | none =>
    cases rest with
    | nil => rfl
    | cons c rest =>
      obtain ⟨-, -, hsmall, hcapital⟩ := hrest c rfl
      simp [scanExponent, hsmall, hcapital]
  | @unsigned e ds he hds =>
    obtain ⟨htake, hdrop⟩ := hds.takeWhile_append hrest.stopsDigits
    -- Without a sign, the first digit has to be seen not to be one.
    obtain ⟨d, digits, rfl, hd⟩ := hds.exists_eq_cons
    obtain ⟨hminus, hplus⟩ := ne_sign hd
    rw [List.cons_append] at htake hdrop
    simp only [List.cons_append, scanExponent, he, if_true]
    split
    · next heq => exact absurd (List.cons.inj heq).1 hminus
    · next heq => exact absurd (List.cons.inj heq).1 hplus
    · simp [htake, hdrop]
  | plus he hds =>
    obtain ⟨htake, hdrop⟩ := hds.takeWhile_append hrest.stopsDigits
    simp [scanExponent, he, htake, hdrop, hds.ne_nil]
  | minus he hds =>
    obtain ⟨htake, hdrop⟩ := hds.takeWhile_append hrest.stopsDigits
    simp [scanExponent, he, htake, hdrop, hds.ne_nil]

theorem scanFraction_of_writes {fraction : List Char} (h : WritesFraction cs fraction)
    (hdigits : StopsDigits rest) (hpoint : ∀ c ∈ rest.head?, c ≠ '.') :
    scanFraction (cs ++ rest) = .ok (fraction, rest) := by
  cases h with
  | none =>
    rw [List.nil_append]
    unfold scanFraction
    split
    · exact absurd rfl (hpoint '.' rfl)
    · rfl
  | digits hds =>
    obtain ⟨htake, hdrop⟩ := hds.takeWhile_append hdigits
    simp [scanFraction, htake, hdrop, hds.ne_nil]

/-- The part of a number from its point on starts with no digit. -/
theorem WritesFraction.stopsDigits {fraction : List Char} (h : WritesFraction cs fraction)
    (hrest : StopsDigits rest) : StopsDigits (cs ++ rest) := by
  cases h with
  | none => exact hrest
  | digits _ =>
    rintro _ ⟨⟩
    rfl

theorem scanUnsigned_of_writes (negative : Bool) {whole fs fraction es : List Char}
    {e : Option Int} (hwhole : IsDigits whole) (hzero : whole.head? = some '0' → whole = ['0'])
    (hfraction : WritesFraction fs fraction) (hexponent : WritesExponent es e)
    (hrest : Apart rest) :
    scanUnsigned negative (whole ++ (fs ++ (es ++ rest))) =
      .ok (⟨negative, appendDigits 0 whole, fraction, e⟩, rest) := by
  have hstop := hexponent.stopsDigits hrest
  obtain ⟨htake, hdrop⟩ := hwhole.takeWhile_append (hfraction.stopsDigits hstop)
  have hleading : ¬ (whole.head? = some '0' ∧ whole ≠ ['0']) := fun h => h.2 (hzero h.1)
  simp only [scanUnsigned, htake, hdrop, hwhole.ne_nil, hleading, if_false, bind, Except.bind, pure,
    Except.pure, scanFraction_of_writes hfraction hstop (hexponent.ne_point hrest),
    scanExponent_of_writes hexponent hrest]

theorem scanNumber_of_head {d : Char} (hd : d.isDigit) (ds : List Char) :
    scanNumber (d :: ds) =
      match scanUnsigned false (d :: ds) with
      | .ok (n, rest) => (.number n, rest)
      | .error f => (.broken f, []) := by
  unfold scanNumber
  split
  · next heq => exact absurd (List.cons.inj heq).1 (ne_sign hd).1
  · rfl

/-- A number is read. -/
theorem scanNumber_of_writes {n : Number} (h : WritesNumber cs n) (hrest : Apart rest) :
    scanNumber (cs ++ rest) = (.number n, rest) := by
  cases h with
  | parts negative hwhole hzero hfraction hexponent =>
    have hunsigned := scanUnsigned_of_writes negative hwhole hzero hfraction hexponent hrest
    cases negative with
    | true => simp [scanNumber, hunsigned]
    | false =>
      obtain ⟨d, digits, rfl, hd⟩ := hwhole.exists_eq_cons
      simp only [List.cons_append] at hunsigned
      simp [scanNumber_of_head hd, hunsigned]

/-- A number starts with its sign or a digit. -/
theorem WritesNumber.exists_eq_cons {n : Number} (h : WritesNumber cs n) :
    ∃ c rest, cs = c :: rest ∧ (c = '-' ∨ c.isDigit) := by
  cases h with
  | parts negative hwhole _ _ _ =>
    cases negative with
    | true => exact ⟨'-', _, rfl, .inl rfl⟩
    | false =>
      obtain ⟨d, digits, rfl, hd⟩ := hwhole.exists_eq_cons
      exact ⟨d, _, rfl, .inr hd⟩

theorem scanToken_of_number (h : c = '-' ∨ c.isDigit) :
    isBlank c = false ∧ ∀ cs, scanToken c cs = scanNumber (c :: cs) := by
  have hne : ∀ symbol : Char, symbol ≠ '-' ∧ symbol.isDigit = false → c ≠ symbol := by
    rintro symbol ⟨hminus, hdigit⟩ rfl
    simp [hminus, hdigit] at h
  constructor
  · simp [isBlank, hne]
  · intro cs
    simp [scanToken, hne, h]

/-! ## Texts -/

/-- The characters are cut into the tokens, if what follows stands apart. -/
structure Scans (cs : List Char) (ts : List Token) : Prop where
  length_le : ts.length ≤ cs.length
  scan : ∀ {rest}, Apart rest → ∀ count,
    scanTokens (ts.length + count) (cs ++ rest) = ts ++ scanTokens count rest

theorem scanTokens_cons (hc : isBlank c = false) (count : Nat) (cs : List Char) :
    scanTokens (count + 1) (c :: cs) =
      (scanToken c cs).1 :: scanTokens count (scanToken c cs).2 := by
  rw [scanTokens, List.dropWhile_cons_of_neg (by simp [hc])]

theorem scanTokens_blank (hc : isBlank c) (count : Nat) (cs : List Char) :
    scanTokens count (c :: cs) = scanTokens count cs := by
  cases count with
  | zero => rw [scanTokens, scanTokens]
  | succ count => rw [scanTokens, scanTokens, List.dropWhile_cons_of_pos hc]

namespace Scans

theorem nil : Scans [] [] where
  length_le := Nat.le_refl _
  scan := by simp

/-- One token. -/
theorem token (hc : isBlank c = false)
    (h : ∀ {rest}, Apart rest → scanToken c (cs ++ rest) = (t, rest)) : Scans (c :: cs) [t] where
  length_le := by simp
  scan := by
    intro rest hrest count
    rw [List.length_singleton, Nat.add_comm, List.cons_append, scanTokens_cons hc, h hrest]
    rfl

/-- A symbol, next to which there can be anything. -/
theorem symbol_cons (hc : isBlank c = false) (ht : ∀ rest, scanToken c rest = (t, rest))
    (h : Scans cs ts) : Scans (c :: cs) (t :: ts) where
  length_le := Nat.succ_le_succ h.length_le
  scan := by
    intro rest hrest count
    have hlength : (t :: ts).length + count = ts.length + count + 1 := by
      rw [List.length_cons]
      omega
    rw [hlength, List.cons_append, scanTokens_cons hc, ht, h.scan hrest]
    rfl

theorem blank_cons (hc : isBlank c) (h : Scans cs ts) : Scans (c :: cs) ts where
  length_le := Nat.le_succ_of_le h.length_le
  scan := by
    intro rest hrest count
    rw [List.cons_append, scanTokens_blank hc, h.scan hrest]

theorem append (h : Scans cs ts) (hapart : Apart cs') (h' : Scans cs' ts') :
    Scans (cs ++ cs') (ts ++ ts') where
  length_le := by
    have hfirst := h.length_le
    have hsecond := h'.length_le
    simp only [List.length_append]
    omega
  scan := by
    intro rest hrest count
    rw [List.append_assoc, List.length_append, Nat.add_assoc, h.scan (hapart.append hrest),
      h'.scan hrest, List.append_assoc]

theorem blanks_append {blanks : List Char} (hblanks : IsBlanks blanks) (h : Scans cs ts) :
    Scans (blanks ++ cs) ts := by
  induction blanks with
  | nil => exact h
  | cons c blanks ih =>
    obtain ⟨hc, hrest⟩ := List.forall_mem_cons.1 hblanks
    exact blank_cons hc (ih hrest)

theorem append_blank (h : Scans cs ts) (hc : isBlank c) : Scans (cs ++ [c]) ts where
  length_le := by
    rw [List.length_append]
    exact Nat.le_add_right_of_le h.length_le
  scan := by
    intro rest _ count
    rw [List.append_assoc, List.singleton_append, h.scan (apart_of_blank hc), scanTokens_blank hc]

/-- The tokens of a text that is cut into them. -/
theorem tokens_eq {text : String} (h : Scans text.toList ts) : tokens text = ts := by
  have hlength : ts.length + (text.length - ts.length) = text.length := by
    have hle := h.length_le
    rw [String.length_toList] at hle
    omega
  have hscan := h.scan Apart.nil (text.length - ts.length)
  rw [hlength, List.append_nil] at hscan
  have hend : ∀ count, scanTokens count [] = [] := by
    intro count
    cases count <;> rfl
  rw [tokens, hscan, hend, List.append_nil]

/-! ### Scalars -/

theorem null : Scans "null".toList [.null] := token rfl fun _ => rfl

theorem bool (b : Bool) :
    Scans (if b then "true".toList else "false".toList) [.bool b] := by
  cases b with
  | false => exact token rfl fun _ => rfl
  | true => exact token rfl fun _ => rfl

theorem string {s : Option String} (h : WritesString cs s) : Scans cs [.string s] := by
  have hquote : ∀ cs, scanToken '"' cs = scanString cs := fun _ => rfl
  obtain ⟨cs, rfl⟩ : ∃ rest, cs = '"' :: rest := by
    cases h
    exact ⟨_, rfl⟩
  apply token rfl
  intro rest _
  rw [hquote]
  exact scanString_of_writes h rest

theorem number {n : Number} (h : WritesNumber cs n) : Scans cs [.number n] := by
  obtain ⟨c, cs, rfl, hc⟩ := h.exists_eq_cons
  obtain ⟨hblank, hscan⟩ := scanToken_of_number hc
  apply token hblank
  intro rest hrest
  rw [hscan]
  exact scanNumber_of_writes h hrest

end Scans

end SelectionLadder.Json
