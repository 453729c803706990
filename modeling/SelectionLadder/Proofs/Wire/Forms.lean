import SelectionLadder.Proofs.Settings.RoundTrip
import SelectionLadder.Proofs.Wire.Fields
import SelectionLadder.Proofs.Wire.RoundTrip
import SelectionLadder.Wire.WordRule

/-!
# The forms of sent values

For each of the small types that are sent, which JSON values are forms of a value, and that decoding
goes by them.  Records inside a value may have any of their forms.

* `SentAs` of each type says what its forms are, and `roundTrips` of each type that what is written
  is one of them and that decoding accepts exactly them.
* The ends of a range that is sent may be in the wrong order (`Range.EndsSentAs`).  Decoding then
  fails with these ends (`Range.ofJson_of_reversed`), and so it does for a decision to select the
  range (`Decision.ofJson_of_reversed`).
* `Wire.values_round_trip` puts the types together.
-/

namespace SelectionLadder

/-! ## Positions -/

namespace Position

variable {p : Position} {j : Json}

/-- Line and column fit into the words that they are sent as. -/
structure IsEncodable (p : Position) : Prop where
  line_lt : p.line < UInt64.size
  column_lt : p.column < UInt64.size

/-- The forms of a position. -/
def SentAs (p : Position) : Json → Prop :=
  Wire.Carries [("line", .nat p.line), ("column", .nat p.column)]

theorem isProper_toJson (h : p.IsEncodable) : p.toJson.IsProper :=
  .pair (by decide) (.nat h.line_lt) (.nat h.column_lt)

theorem ofJson_of_sentAs (hp : p.IsEncodable) (h : p.SentAs j) : ofJson j = .ok p := by
  have hrecord : Wire.record [⟨"line", none⟩, ⟨"column", none⟩] j =
      .ok [.nat p.line, .nat p.column] := Wire.record_of_carries (by simp) h
  simp only [ofJson, hrecord, Wire.natural_nat hp.line_lt, Wire.natural_nat hp.column_lt, bind,
    Except.bind, pure, Except.pure]

theorem sentAs_of_ofJson (hproper : j.IsProper) (h : ofJson j = .ok p) :
    p.IsEncodable ∧ p.SentAs j := by
  unfold ofJson at h
  rw [Except.bind_eq_ok] at h
  obtain ⟨values, hrecord, h⟩ := h
  split at h
  · simp only [Except.bind_eq_ok, Wire.natural_eq_ok_iff] at h
    obtain ⟨line, ⟨hline, rfl⟩, column, ⟨hcolumn, rfl⟩, hdone⟩ := h
    obtain rfl := Except.ok.inj hdone
    exact ⟨⟨hline, hcolumn⟩, Wire.carries_of_record (by simp) hproper hrecord⟩
  · cases h

theorem roundTrips : Wire.RoundTrips toJson ofJson IsEncodable SentAs where
  sentAs_encode _ := Wire.carries_self _
  ofText_encode _ h := Wire.ofText_of_isProper (isProper_toJson h)
  decode_of_sentAs _ _ := ofJson_of_sentAs
  sentAs_of_decode _ _ := sentAs_of_ofJson

end Position

/-! ## Ranges -/

namespace Range

variable {r : Range} {p q : Position} {j : Json}

/-- Both ends fit into the words that they are sent as. -/
structure IsEncodable (r : Range) : Prop where
  start : r.start.IsEncodable
  stop : r.stop.IsEncodable

/-- The value carries two positions as the ends of a range, in this order or in the wrong one. -/
def EndsSentAs (p q : Position) (j : Json) : Prop :=
  ∃ start stop, p.SentAs start ∧ q.SentAs stop ∧ Wire.Carries [("from", start), ("to", stop)] j

/-- The forms of a range. -/
def SentAs (r : Range) : Json → Prop := EndsSentAs r.start r.stop

theorem isProper_toJson (h : r.IsEncodable) : r.toJson.IsProper :=
  .pair (by decide) (Position.isProper_toJson h.start) (Position.isProper_toJson h.stop)

/-- Two ends are decoded to the range between them, and are an error in the wrong order. -/
theorem ofJson_of_endsSentAs (hp : p.IsEncodable) (hq : q.IsEncodable) (h : EndsSentAs p q j) :
    ofJson j = (ofEnds p q).mapError .reversed := by
  obtain ⟨start, stop, hstart, hstop, hcarries⟩ := h
  have hrecord : Wire.record [⟨"from", none⟩, ⟨"to", none⟩] j = .ok [start, stop] :=
    Wire.record_of_carries (by simp) hcarries
  simp only [ofJson, hrecord, Position.ofJson_of_sentAs hp hstart,
    Position.ofJson_of_sentAs hq hstop, bind, Except.bind]

theorem ofEnds_of_le (h : p ≤ q) : ofEnds p q = .ok ⟨p, q, h⟩ := dif_pos h

theorem ofEnds_of_lt (h : q < p) : ofEnds p q = .error ⟨p, q⟩ :=
  dif_neg (Position.lt_iff_not_le.1 h)

theorem ofJson_of_sentAs (hr : r.IsEncodable) (h : r.SentAs j) : ofJson j = .ok r := by
  rw [ofJson_of_endsSentAs hr.start hr.stop h, ofEnds_of_le r.start_le_stop]
  rfl

theorem ofJson_of_reversed (hp : p.IsEncodable) (hq : q.IsEncodable) (h : EndsSentAs p q j)
    (hlt : q < p) : ofJson j = .error (.reversed ⟨p, q⟩) := by
  rw [ofJson_of_endsSentAs hp hq h, ofEnds_of_lt hlt]
  rfl

theorem eq_of_ofEnds (h : (ofEnds p q).mapError Wire.Error.reversed = .ok r) :
    r.start = p ∧ r.stop = q := by
  unfold ofEnds at h
  split at h
  · obtain rfl := Except.ok.inj h
    exact ⟨rfl, rfl⟩
  · cases h

theorem sentAs_of_ofJson (hproper : j.IsProper) (h : ofJson j = .ok r) :
    r.IsEncodable ∧ r.SentAs j := by
  unfold ofJson at h
  rw [Except.bind_eq_ok] at h
  obtain ⟨values, hrecord, h⟩ := h
  split at h
  · rename_i start stop
    have hcarries : Wire.Carries [("from", start), ("to", stop)] j :=
      Wire.carries_of_record (by simp) hproper hrecord
    simp only [Except.bind_eq_ok] at h
    obtain ⟨p, hp, q, hq, hends⟩ := h
    obtain ⟨rfl, rfl⟩ := eq_of_ofEnds hends
    obtain ⟨hstart, hstart'⟩ :=
      Position.sentAs_of_ofJson (hcarries.isProper hproper (f := ("from", start)) (by simp)) hp
    obtain ⟨hstop, hstop'⟩ :=
      Position.sentAs_of_ofJson (hcarries.isProper hproper (f := ("to", stop)) (by simp)) hq
    exact ⟨⟨hstart, hstop⟩, start, stop, hstart', hstop', hcarries⟩
  · cases h

theorem roundTrips : Wire.RoundTrips toJson ofJson IsEncodable SentAs where
  sentAs_encode _ := ⟨_, _, Wire.carries_self _, Wire.carries_self _, Wire.carries_self _⟩
  ofText_encode _ h := Wire.ofText_of_isProper (isProper_toJson h)
  decode_of_sentAs _ _ := ofJson_of_sentAs
  sentAs_of_decode _ _ := sentAs_of_ofJson

end Range

/-! ## Spans -/

namespace Span

variable {s : Span} {j : Json}

/-- The offsets fit into the words that they are sent as. -/
structure IsEncodable (s : Span) : Prop where
  start_lt : s.start < UInt64.size
  stop_lt : s.stop < UInt64.size

/-- The forms of a span. -/
def SentAs (s : Span) : Json → Prop :=
  Wire.Carries [("tag", .string s.tag), ("from", .nat s.start), ("to", .nat s.stop)]

theorem isProper_toJson (h : s.IsEncodable) : s.toJson.IsProper := by
  refine .object (by simp) ?_
  simp only [List.forall_mem_cons, List.not_mem_nil, false_imp_iff, implies_true, and_true]
  exact ⟨.string s.tag, .nat h.start_lt, .nat h.stop_lt⟩

theorem ofJson_of_sentAs (hs : s.IsEncodable) (h : s.SentAs j) : ofJson j = .ok s := by
  have hrecord : Wire.record [⟨"tag", none⟩, ⟨"from", none⟩, ⟨"to", none⟩] j =
      .ok [.string s.tag, .nat s.start, .nat s.stop] := Wire.record_of_carries (by simp) h
  simp only [ofJson, hrecord, Wire.string, Wire.natural_nat hs.start_lt,
    Wire.natural_nat hs.stop_lt, bind, Except.bind, pure, Except.pure]

theorem sentAs_of_ofJson (hproper : j.IsProper) (h : ofJson j = .ok s) :
    s.IsEncodable ∧ s.SentAs j := by
  unfold ofJson at h
  rw [Except.bind_eq_ok] at h
  obtain ⟨values, hrecord, h⟩ := h
  split at h
  · simp only [Except.bind_eq_ok, Wire.natural_eq_ok_iff, Wire.string_eq_ok_iff] at h
    obtain ⟨tag, rfl, start, ⟨hstart, rfl⟩, stop, ⟨hstop, rfl⟩, hdone⟩ := h
    obtain rfl := Except.ok.inj hdone
    exact ⟨⟨hstart, hstop⟩, Wire.carries_of_record (by simp) hproper hrecord⟩
  · cases h

theorem roundTrips : Wire.RoundTrips toJson ofJson IsEncodable SentAs where
  sentAs_encode _ := Wire.carries_self _
  ofText_encode _ h := Wire.ofText_of_isProper (isProper_toJson h)
  decode_of_sentAs _ _ := ofJson_of_sentAs
  sentAs_of_decode _ _ := sentAs_of_ofJson

end Span

/-! ## Kinds -/

namespace Kind

variable {k : Kind} {name : String} {j : Json}

/-- The forms of a kind. -/
inductive SentAs : Kind → Json → Prop where
  | plain {name : String} {k : Kind} {j : Json} (hname : (name, k) ∈ plainNames)
    (h : Wire.NamedAlone name j) : SentAs k j
  | heading (level : UInt8) : SentAs (.heading level) (.object [("Heading", .nat level.toNat)])
  | other (tag : String) : SentAs (.other tag) (.object [("Other", .string tag)])

theorem lookup_plainNames : plainNames.lookup name = some k ↔ (name, k) ∈ plainNames :=
  lookup_eq_some_iff_mem (by decide)

/-- The names of kinds that have a value are not among those of the others. -/
theorem ne_of_mem_plainNames (h : (name, k) ∈ plainNames) : name ≠ "Heading" ∧ name ≠ "Other" := by
  have hall : ∀ entry ∈ plainNames, entry.1 ≠ "Heading" ∧ entry.1 ≠ "Other" := by decide
  exact hall _ h

theorem sentAs_toJson (k : Kind) : k.SentAs k.toJson := by
  cases k with
  | heading level => exact .heading level
  | other tag => exact .other tag
  | _ => exact .plain (by decide) .name

theorem ofJson_of_sentAs (h : k.SentAs j) : ofJson j = .ok k := by
  cases h with
  | plain hname h =>
    obtain ⟨hheading, hother⟩ := ne_of_mem_plainNames hname
    have hfound := lookup_plainNames.2 hname
    cases h <;> simp [ofJson, Wire.choice, Wire.noValue, hheading, hother, hfound, bind,
      Except.bind, pure, Except.pure]
  | heading level => exact ofJson_toJson (.heading level)
  | other tag => exact ofJson_toJson (.other tag)

theorem sentAs_of_ofJson (h : ofJson j = .ok k) : k.SentAs j := by
  unfold ofJson at h
  rw [Except.bind_eq_ok] at h
  obtain ⟨⟨name, value⟩, hchoice, h⟩ := h
  rw [Wire.choice_eq_ok_iff] at hchoice
  obtain rfl := hchoice
  dsimp only at h
  split_ifs at h with hheading hother
  · simp only [Except.bind_eq_ok, Wire.value_eq_ok_iff, Wire.natural_eq_ok_iff] at h
    obtain ⟨v, rfl, n, ⟨-, rfl⟩, h⟩ := h
    split_ifs at h with hlevel
    · obtain rfl := Except.ok.inj h
      have hsent := SentAs.heading (UInt8.ofNat n)
      rw [UInt8.toNat_ofNat_of_lt' hlevel] at hsent
      rw [hheading]
      exact hsent
  · simp only [Except.bind_eq_ok, Wire.value_eq_ok_iff, Wire.string_eq_ok_iff] at h
    obtain ⟨v, rfl, tag, rfl, h⟩ := h
    obtain rfl := Except.ok.inj h
    rw [hother]
    exact .other tag
  · split at h
    · rename_i found hfound
      rw [Except.bind_eq_ok] at h
      obtain ⟨u, hvalue, h⟩ := h
      obtain rfl := Except.ok.inj h
      exact .plain (lookup_plainNames.1 hfound) (Wire.namedAlone_of_noValue hvalue)
    · cases h

theorem roundTrips : Wire.RoundTrips toJson ofJson (fun _ => True) SentAs where
  sentAs_encode := sentAs_toJson
  ofText_encode k _ := Wire.ofText_of_isProper k.isProper_toJson
  decode_of_sentAs _ _ _ := ofJson_of_sentAs
  sentAs_of_decode _ _ _ h := ⟨trivial, sentAs_of_ofJson h⟩

end Kind

/-! ## Word rules -/

namespace WordRule

variable {rule : WordRule} {j : Json}

/-- The fields of a rule: its form, and the description that goes with a pattern. -/
def fields : WordRule → List (String × Json)
  | ascii => [("kind", .string "ascii")]
  | unicode => [("kind", .string "unicode")]
  | pattern description => [("kind", .string "pattern"), ("class", .string description)]

/-- The forms of a rule. -/
def SentAs (rule : WordRule) : Json → Prop := Wire.Carries rule.fields

theorem toJson_eq (rule : WordRule) : rule.toJson = .object rule.fields := by
  cases rule <;> rfl

theorem nodup_fields (rule : WordRule) : (rule.fields.map (·.1)).Nodup := by
  cases rule <;> simp [fields]

theorem ofJson_of_sentAs (h : rule.SentAs j) : ofJson j = .ok rule := by
  cases h with
  | object hperm hothers =>
    have hfound : ∀ f ∈ rule.fields, _ := fun f =>
      Wire.lookup_of_perm hperm hothers rule.nodup_fields
    cases rule <;> simp_all [fields, ofJson]
  | array => cases rule <;> rfl

theorem sentAs_of_ofJson (hproper : j.IsProper) (h : ofJson j = .ok rule) : rule.SentAs j := by
  unfold ofJson at h
  split at h
  case h_1 members =>
    cases hproper with
    | object hmembers _ =>
      refine Wire.carries_object hmembers rule.nodup_fields ?_
      split at h <;> cases h <;> simp_all [fields]
  case h_2 | h_3 | h_4 =>
    cases h
    exact .array
  case h_5 => cases h

theorem roundTrips : Wire.RoundTrips toJson ofJson (fun _ => True) SentAs where
  sentAs_encode rule := by
    rw [toJson_eq]
    exact Wire.carries_self _
  ofText_encode rule _ := Wire.ofText_of_isProper rule.isProper_toJson
  decode_of_sentAs _ _ _ := ofJson_of_sentAs
  sentAs_of_decode _ _ hproper h := ⟨trivial, sentAs_of_ofJson hproper h⟩

end WordRule

/-! ## Decisions -/

namespace Decision

variable {d : Decision} {name : String} {select : Range → Decision} {j : Json}

/-- The places of the decision fit into the words that they are sent as. -/
def IsEncodable (d : Decision) : Prop := ∀ r ∈ d.target, r.IsEncodable

/-- The forms of a decision. -/
inductive SentAs : Decision → Json → Prop where
  | selection {name : String} {select : Range → Decision} {r : Range} {j : Json}
    (hname : (name, select) ∈ selections) (hr : r.SentAs j) :
    SentAs (select r) (.object [(name, j)])
  | restoreCursor {p : Position} {j : Json} (hp : p.SentAs j) :
    SentAs (.restoreCursor p) (.object [("RestoreCursor", j)])
  | noOp {j : Json} (h : Wire.NamedAlone "NoOp" j) : SentAs .noOp j

theorem lookup_selections : selections.lookup name = some select ↔ (name, select) ∈ selections :=
  lookup_eq_some_iff_mem (by decide)

theorem ne_of_mem_selections (h : (name, select) ∈ selections) :
    name ≠ "NoOp" ∧ name ≠ "RestoreCursor" := by
  have hall : ∀ entry ∈ selections, entry.1 ≠ "NoOp" ∧ entry.1 ≠ "RestoreCursor" := by
    simp [selections]
  exact hall _ h

theorem target_of_mem_selections (h : (name, select) ∈ selections) (r : Range) :
    (select r).target = some r := by
  simp only [selections, List.mem_cons, Prod.mk.injEq, List.not_mem_nil, or_false] at h
  rcases h with ⟨-, rfl⟩ | ⟨-, rfl⟩ | ⟨-, rfl⟩ | ⟨-, rfl⟩ | ⟨-, rfl⟩ | ⟨-, rfl⟩ <;> rfl

theorem isEncodable_selection_iff (h : (name, select) ∈ selections) {r : Range} :
    (select r).IsEncodable ↔ r.IsEncodable := by
  simp [IsEncodable, target_of_mem_selections h]

theorem isEncodable_restoreCursor_iff {p : Position} :
    (restoreCursor p).IsEncodable ↔ p.IsEncodable := by
  constructor
  · intro h
    exact (h _ rfl).start
  · intro h r hr
    obtain rfl := Option.some.inj hr
    exact ⟨h, h⟩

theorem isEncodable_noOp : noOp.IsEncodable := by
  simp [IsEncodable, target]

/-- A decision that selects is decoded as its range is. -/
theorem ofJson_selection (h : (name, select) ∈ selections) (j : Json) :
    ofJson (.object [(name, j)]) = (Range.ofJson j).map select := by
  obtain ⟨hnoOp, hcursor⟩ := ne_of_mem_selections h
  simp only [ofJson, Wire.choice, Wire.value, hnoOp, hcursor, lookup_selections.2 h, bind,
    Except.bind, pure, Except.pure, if_false]
  cases Range.ofJson j <;> rfl

theorem sentAs_toJson (d : Decision) : d.SentAs d.toJson := by
  have hrange : ∀ r : Range, r.SentAs r.toJson := Range.roundTrips.sentAs_encode
  cases d with
  | restoreCursor p => exact .restoreCursor (Position.roundTrips.sentAs_encode p)
  | noOp => exact .noOp .name
  | _ r => exact .selection (by simp [selections]) (hrange r)

theorem isProper_toJson (h : d.IsEncodable) : d.toJson.IsProper := by
  cases d with
  | restoreCursor p =>
    exact Wire.isProper_named_iff.2
      (Position.isProper_toJson (isEncodable_restoreCursor_iff.1 h))
  | noOp => exact .string _
  | _ r => exact Wire.isProper_named_iff.2 (Range.isProper_toJson (h r rfl))

theorem ofJson_of_sentAs (hd : d.IsEncodable) (h : d.SentAs j) : ofJson j = .ok d := by
  cases h with
  | selection hname hr =>
    have hencodable := (isEncodable_selection_iff hname).1 hd
    rw [ofJson_selection hname, Range.ofJson_of_sentAs hencodable hr]
    rfl
  | restoreCursor hp =>
    have hencodable := isEncodable_restoreCursor_iff.1 hd
    simp [ofJson, Wire.choice, Wire.value, Position.ofJson_of_sentAs hencodable hp, bind,
      Except.bind, pure, Except.pure]
  | noOp h => cases h <;> rfl

theorem sentAs_of_ofJson (hproper : j.IsProper) (h : ofJson j = .ok d) :
    d.IsEncodable ∧ d.SentAs j := by
  unfold ofJson at h
  rw [Except.bind_eq_ok] at h
  obtain ⟨⟨name, value⟩, hchoice, h⟩ := h
  rw [Wire.choice_eq_ok_iff] at hchoice
  obtain rfl := hchoice
  dsimp only at h
  split_ifs at h with hnoOp hcursor
  · rw [Except.bind_eq_ok] at h
    obtain ⟨u, hvalue, h⟩ := h
    obtain rfl := Except.ok.inj h
    rw [hnoOp]
    exact ⟨isEncodable_noOp, .noOp (Wire.namedAlone_of_noValue hvalue)⟩
  · simp only [Except.bind_eq_ok, Wire.value_eq_ok_iff] at h
    obtain ⟨v, rfl, p, hp, h⟩ := h
    obtain rfl := Except.ok.inj h
    obtain ⟨hencodable, hsent⟩ :=
      Position.sentAs_of_ofJson (Wire.isProper_named_iff.1 hproper) hp
    rw [hcursor]
    exact ⟨isEncodable_restoreCursor_iff.2 hencodable, .restoreCursor hsent⟩
  · split at h
    · rename_i select hselect
      simp only [Except.bind_eq_ok, Wire.value_eq_ok_iff] at h
      obtain ⟨v, rfl, r, hr, h⟩ := h
      obtain rfl := Except.ok.inj h
      have hname := lookup_selections.1 hselect
      obtain ⟨hencodable, hsent⟩ :=
        Range.sentAs_of_ofJson (Wire.isProper_named_iff.1 hproper) hr
      exact ⟨(isEncodable_selection_iff hname).2 hencodable, .selection hname hsent⟩
    · cases h

theorem roundTrips : Wire.RoundTrips toJson ofJson IsEncodable SentAs where
  sentAs_encode := sentAs_toJson
  ofText_encode _ h := Wire.ofText_of_isProper (isProper_toJson h)
  decode_of_sentAs _ _ := ofJson_of_sentAs
  sentAs_of_decode _ _ := sentAs_of_ofJson

/-- Ends in the wrong order are an error wherever a decision has a range. -/
theorem ofJson_of_reversed {p q : Position} (h : (name, select) ∈ selections)
    (hp : p.IsEncodable) (hq : q.IsEncodable) (hends : Range.EndsSentAs p q j) (hlt : q < p) :
    ofJson (.object [(name, j)]) = .error (.reversed ⟨p, q⟩) := by
  rw [ofJson_selection h, Range.ofJson_of_reversed hp hq hends hlt]
  rfl

end Decision

/-! ## Places, kinds, rules and decisions -/

namespace Wire

/-- Positions, ranges, spans, kinds, word rules and decisions decode from every form that they have,
among them the one that they are written in, and from no other.  No range is decoded that stops
before it starts, alone or in a decision: such ends are refused, in every form. -/
theorem values_round_trip :
    RoundTrips Position.toJson Position.ofJson Position.IsEncodable Position.SentAs ∧
      RoundTrips Range.toJson Range.ofJson Range.IsEncodable Range.SentAs ∧
      RoundTrips Span.toJson Span.ofJson Span.IsEncodable Span.SentAs ∧
      RoundTrips Kind.toJson Kind.ofJson (fun _ => True) Kind.SentAs ∧
      RoundTrips WordRule.toJson WordRule.ofJson (fun _ => True) WordRule.SentAs ∧
      RoundTrips Decision.toJson Decision.ofJson Decision.IsEncodable Decision.SentAs ∧
      (∀ p q j, p.IsEncodable → q.IsEncodable → Range.EndsSentAs p q j → q < p →
        Range.ofJson j = .error (.reversed ⟨p, q⟩) ∧
          ∀ entry ∈ Decision.selections,
            Decision.ofJson (.object [(entry.1, j)]) = .error (.reversed ⟨p, q⟩)) ∧
      (∀ j r, Range.ofJson j = .ok r → r.start ≤ r.stop) ∧
      ∀ j d r, Decision.ofJson j = .ok d → d.target = some r → r.start ≤ r.stop := by
  refine ⟨Position.roundTrips, Range.roundTrips, Span.roundTrips, Kind.roundTrips,
    WordRule.roundTrips, Decision.roundTrips, ?_, ?_, ?_⟩
  · intro p q j hp hq hends hlt
    refine ⟨Range.ofJson_of_reversed hp hq hends hlt, ?_⟩
    intro entry hentry
    exact Decision.ofJson_of_reversed hentry hp hq hends hlt
  · intro j r _
    exact r.start_le_stop
  · intro j d r _ _
    exact r.start_le_stop

/-- The position `0:1`, with the column first and a member that is unknown. -/
def lateLine : Json := .object [("column", .nat 1), ("note", .array [.null]), ("line", .nat 0)]

theorem sentAs_lateLine : Position.SentAs ⟨0, 1⟩ lateLine :=
  carries_object (by decide) (by simp) (by simp [List.lookup_cons])

theorem values_round_trip_lateLine :
    Decision.ofJson (.object [("SelectNode",
        .object [("to", .array [.nat 2, .nat 5]), ("note", .null), ("from", lateLine)])]) =
      .ok (.selectNode ⟨⟨0, 1⟩, ⟨2, 5⟩, by decide⟩) ∧
    Range.ofJson (.array [.array [.nat 2, .nat 5], lateLine]) =
      .error (.reversed ⟨⟨2, 5⟩, ⟨0, 1⟩⟩) := by
  obtain ⟨-, -, -, -, -, hdecision, hreversed, -, -⟩ := values_round_trip
  have hearly : Position.IsEncodable ⟨0, 1⟩ := ⟨by decide, by decide⟩
  have hlate : Position.IsEncodable ⟨2, 5⟩ := ⟨by decide, by decide⟩
  constructor
  · have hname : ("SelectNode", Decision.selectNode) ∈ Decision.selections := by
      simp [Decision.selections]
    refine hdecision.decode_of_sentAs _ _ ?_ (.selection hname ?_)
    · exact (Decision.isEncodable_selection_iff hname).2 ⟨hearly, hlate⟩
    · exact ⟨_, _, sentAs_lateLine, .array,
        carries_object (by decide) (by simp) (by simp [List.lookup_cons])⟩
  · exact (hreversed _ _ _ hlate hearly ⟨_, _, .array, sentAs_lateLine, .array⟩ (by decide)).1

end Wire

end SelectionLadder
