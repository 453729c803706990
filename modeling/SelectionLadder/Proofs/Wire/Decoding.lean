import SelectionLadder.Proofs.Except
import SelectionLadder.Proofs.NodeId
import SelectionLadder.Wire.Outline

/-!
# Outlines there and back

What is encoded decodes to what it was, as far as its numbers and identifiers fit into the words
that they are sent as.  All values that decode are like that.

* One pair of lemmas for each type: `ofJson_toJson` for the way back, and one that says what
  decoded values are like.  `Node.IsEncodable` and `Outline.IsEncodable` are the conditions.
* `Outline.foldlM_storeMember`: nodes under different identifiers are stored in the order in which
  they are sent.
* `Outline.exists_ofJson_iff`: the outlines that decoding gives are the encodable ones that pass
  the check.
-/

namespace SelectionLadder

/-! ## Values -/

namespace Wire

variable {α : Type} {j : Json} {n : Nat}

theorem natural?_eq_some_iff {number : Json.Number} :
    number.natural? = some n ↔ n < UInt64.size ∧ number = ⟨false, n, [], none⟩ := by
  obtain ⟨negative, whole, fraction, exponent⟩ := number
  simp only [Json.Number.natural?, Option.ite_none_right_eq_some, Option.some.injEq,
    Json.Number.mk.injEq, Bool.not_eq_true]
  constructor
  · intro h
    obtain ⟨⟨hnegative, hfraction, hexponent, hlt⟩, rfl⟩ := h
    exact ⟨hlt, hnegative, rfl, hfraction, hexponent⟩
  · intro h
    obtain ⟨hlt, hnegative, rfl, hfraction, hexponent⟩ := h
    exact ⟨⟨hnegative, hfraction, hexponent, hlt⟩, rfl⟩

/-- The values that are read as natural numbers are those that are written for them. -/
theorem natural_eq_ok_iff : natural j = .ok n ↔ n < UInt64.size ∧ j = .nat n := by
  cases j with
  | number number =>
    rw [Json.nat, Json.number.injEq, ← natural?_eq_some_iff, natural]
    split <;> simp_all
  | _ => simp [natural, Json.nat]

theorem natural_nat (h : n < UInt64.size) : natural (.nat n) = .ok n :=
  natural_eq_ok_iff.2 ⟨h, rfl⟩

theorem natural_lt (h : natural j = .ok n) : n < UInt64.size := (natural_eq_ok_iff.1 h).1

theorem list_map {decode : Json → Except Error α} {encode : α → Json} {xs : List α}
    (h : ∀ x ∈ xs, decode (encode x) = .ok x) : list decode (.array (xs.map encode)) = .ok xs := by
  rw [list, Except.mapM_eq_ok, List.forall₂_map_left_iff, List.forall₂_same]
  exact h

theorem forall_of_list {decode : Json → Except Error α} {P : α → Prop} {xs : List α}
    (hdecode : ∀ j x, decode j = .ok x → P x) (h : list decode j = .ok xs) : ∀ x ∈ xs, P x := by
  unfold list at h
  split at h
  · rename_i items
    rw [Except.mapM_eq_ok] at h
    intro x hx
    induction h with
    | nil => exact absurd hx List.not_mem_nil
    | cons hfirst _ ih =>
      rcases List.mem_cons.1 hx with rfl | hx
      · exact hdecode _ _ hfirst
      · exact ih hx
  · cases h

end Wire

namespace NodeId

variable {id : NodeId} {j : Json}

theorem ofJson_toJson (h : id.value < count) : ofJson id.toJson = .ok id := by
  simp [ofJson, toJson, Wire.string, bind, Except.bind, ofString?_display h, pure, Except.pure]

theorem ofJsonOrNull_toJson {parent : Option NodeId} (h : ∀ id ∈ parent, id.value < count) :
    ofJsonOrNull ((parent.map toJson).getD .null) = .ok parent := by
  cases parent with
  | none => rfl
  | some id =>
    show (ofJson id.toJson).map some = .ok (some id)
    rw [ofJson_toJson (h id rfl)]
    rfl

theorem lt_of_ofJson (h : ofJson j = .ok id) : id.value < count := by
  unfold ofJson at h
  rw [Except.bind_eq_ok] at h
  obtain ⟨text, -, h⟩ := h
  split at h
  · rename_i id' hid
    obtain rfl := Except.ok.inj h
    exact ofString?_lt hid
  · cases h

theorem lt_of_ofJsonOrNull {parent : Option NodeId} (h : ofJsonOrNull j = .ok parent) :
    ∀ id ∈ parent, id.value < count := by
  unfold ofJsonOrNull at h
  split at h
  · obtain rfl := Except.ok.inj h
    simp
  · obtain ⟨id, hid, rfl⟩ := Except.map_eq_ok.1 h
    intro other hother
    obtain rfl := Option.some.inj hother
    exact lt_of_ofJson hid

end NodeId

namespace Kind

theorem ofJson_toJson (k : Kind) : ofJson k.toJson = .ok k := by
  cases k with
  | heading level =>
    have hlevel : level.toNat < 256 := level.toNat_lt
    have hnatural : Wire.natural (.nat level.toNat) = .ok level.toNat :=
      Wire.natural_nat (Nat.lt_trans hlevel (by decide))
    simp [toJson, ofJson, Wire.choice, Wire.value, hnatural, hlevel, bind, Except.bind, pure,
      Except.pure]
  | other tag => rfl
  | _ => decide

end Kind

/-! ## Nodes -/

namespace Node

variable {n : Node} {j : Json}

/-- Identifiers and numbers of the node fit into what they are sent as. -/
structure IsEncodable (n : Node) : Prop where
  id_lt : n.id.value < NodeId.count
  parent_lt : ∀ parent ∈ n.parent, parent.value < NodeId.count
  children_lt : ∀ child ∈ n.children, child.value < NodeId.count
  contentStart_lt : n.contentStart < UInt64.size
  contentStop_lt : n.contentStop < UInt64.size
  start_lt : n.start < UInt64.size
  stop_lt : n.stop < UInt64.size

theorem record_toJson (n : Node) :
    Wire.record fields n.toJson =
      .ok [n.id.toJson, (n.parent.map NodeId.toJson).getD .null,
        .array (n.children.map NodeId.toJson), n.kind.toJson, .nat n.contentStart,
        .nat n.contentStop, .nat n.start, .nat n.stop] :=
  rfl

theorem ofJson_toJson (h : n.IsEncodable) : ofJson n.toJson = .ok n := by
  have hchildren : Wire.list NodeId.ofJson (.array (n.children.map NodeId.toJson)) =
      .ok n.children :=
    Wire.list_map fun child hchild => NodeId.ofJson_toJson (h.children_lt child hchild)
  simp only [ofJson, record_toJson, NodeId.ofJson_toJson h.id_lt, hchildren,
    NodeId.ofJsonOrNull_toJson h.parent_lt, Kind.ofJson_toJson,
    Wire.natural_nat h.contentStart_lt, Wire.natural_nat h.contentStop_lt,
    Wire.natural_nat h.start_lt, Wire.natural_nat h.stop_lt, bind, Except.bind, pure, Except.pure]

theorem isEncodable_of_ofJson (h : ofJson j = .ok n) : n.IsEncodable := by
  unfold ofJson at h
  rw [Except.bind_eq_ok] at h
  obtain ⟨values, -, h⟩ := h
  split at h
  · simp only [Except.bind_eq_ok] at h
    obtain ⟨id, hid, parent, hparent, children, hchildren, kind, -, contentStart, hcontentStart,
      contentStop, hcontentStop, start, hstart, stop, hstop, hdone⟩ := h
    obtain rfl := Except.ok.inj hdone
    constructor
    case id_lt => exact NodeId.lt_of_ofJson hid
    case parent_lt => exact NodeId.lt_of_ofJsonOrNull hparent
    case children_lt =>
      exact Wire.forall_of_list (fun _ _ => NodeId.lt_of_ofJson) hchildren
    case contentStart_lt => exact Wire.natural_lt hcontentStart
    case contentStop_lt => exact Wire.natural_lt hcontentStop
    case start_lt => exact Wire.natural_lt hstart
    case stop_lt => exact Wire.natural_lt hstop
  · cases h

end Node

/-! ## Stored nodes -/

namespace NodeMap

variable {m m' : NodeMap} {id : NodeId} {n : Node}

theorem eq_of_entries_eq (h : m.entries = m'.entries) : m = m' := by
  obtain ⟨entries, hnodup⟩ := m
  obtain ⟨entries', hnodup'⟩ := m'
  obtain rfl : entries = entries' := h
  rfl

/-- Storing a node under a new identifier puts it after those that are stored. -/
theorem entries_insert (hid : id ∉ m.keys) : (m.insert id n).entries = m.entries ++ [(id, n)] := by
  have hkept : m.entries.filter (fun e => e.1 ≠ id) = m.entries := by
    rw [List.filter_eq_self]
    intro e he
    rw [decide_eq_true_eq]
    rintro rfl
    exact hid (List.mem_map_of_mem he)
  show m.entries.filter (fun e => e.1 ≠ id) ++ [(id, n)] = _
  rw [hkept]

/-- Identifiers and numbers of what is stored fit into what they are sent as. -/
def IsEncodable (m : NodeMap) : Prop :=
  ∀ e ∈ m.entries, e.1.value < NodeId.count ∧ e.2.IsEncodable

theorem IsEncodable.insert (h : m.IsEncodable) (hid : id.value < NodeId.count)
    (hn : n.IsEncodable) : (m.insert id n).IsEncodable := by
  intro e he
  have hmem : e ∈ m.entries.filter (fun e => e.1 ≠ id) ++ [(id, n)] := he
  rcases List.mem_append.1 hmem with hold | hnew
  · exact h e (List.mem_filter.1 hold).1
  · rw [List.mem_singleton.1 hnew]
    exact ⟨hid, hn⟩

end NodeMap

namespace Outline

/-- Stores a member of the encoded nodes. -/
def storeMember (m : NodeMap) (member : String × Json) : Except Wire.Error NodeMap := do
  return m.insert (← NodeId.ofJson (.string member.1)) (← Node.ofJson member.2)

theorem nodesOfJson_object (members : List (String × Json)) :
    nodesOfJson (.object members) = members.foldlM storeMember .empty := rfl

/-- Members for nodes under new identifiers are stored in their order. -/
theorem foldlM_storeMember {m : NodeMap} {entries : List (NodeId × Node)}
    (hnodup : (m.keys ++ entries.map (·.1)).Nodup)
    (h : ∀ e ∈ entries, e.1.value < NodeId.count ∧ e.2.IsEncodable) :
    ∃ m', (entries.map fun e => (e.1.display, e.2.toJson)).foldlM storeMember m = .ok m' ∧
      m'.entries = m.entries ++ entries := by
  induction entries generalizing m with
  | nil => exact ⟨m, rfl, by rw [List.append_nil]⟩
  | cons e entries ih =>
    obtain ⟨id, n⟩ := e
    obtain ⟨⟨hid, hn⟩, hrest⟩ := List.forall_mem_cons.1 h
    have hstore : storeMember m (id.display, n.toJson) = .ok (m.insert id n) := by
      have hkey : NodeId.ofJson (.string id.display) = .ok id := NodeId.ofJson_toJson hid
      simp only [storeMember, hkey, Node.ofJson_toJson hn, bind, Except.bind, pure, Except.pure]
    have hnew : id ∉ m.keys := by
      rw [List.map_cons, List.nodup_append] at hnodup
      exact fun hmem => hnodup.2.2 id hmem id List.mem_cons_self rfl
    have hentries := NodeMap.entries_insert (n := n) hnew
    have hkeys : (m.insert id n).keys = m.keys ++ [id] := by
      rw [NodeMap.keys, hentries, List.map_append]
      rfl
    obtain ⟨m', hm', hdone⟩ := ih (m := m.insert id n)
      (by rwa [hkeys, List.append_assoc]) hrest
    refine ⟨m', ?_, ?_⟩
    · rw [List.map_cons, List.foldlM_cons, hstore]
      exact hm'
    · rw [hdone, hentries, List.append_assoc]
      rfl

theorem nodesOfJson_toJson {m : NodeMap} (h : m.IsEncodable) :
    nodesOfJson (.object (m.entries.map fun e => (e.1.display, e.2.toJson))) = .ok m := by
  obtain ⟨m', hm', hentries⟩ := foldlM_storeMember (m := .empty) m.nodup_keys h
  rw [nodesOfJson_object, hm', NodeMap.eq_of_entries_eq hentries]

theorem isEncodable_of_foldlM {members : List (String × Json)} {m m' : NodeMap}
    (hm : m.IsEncodable) (h : members.foldlM storeMember m = .ok m') : m'.IsEncodable := by
  induction members generalizing m with
  | nil =>
    obtain rfl := Except.ok.inj h
    exact hm
  | cons member members ih =>
    rw [List.foldlM_cons, Except.bind_eq_ok] at h
    obtain ⟨stored, hstored, h⟩ := h
    simp only [storeMember, Except.bind_eq_ok] at hstored
    obtain ⟨id, hid, n, hn, hdone⟩ := hstored
    obtain rfl := Except.ok.inj hdone
    exact ih (hm.insert (NodeId.lt_of_ofJson hid) (Node.isEncodable_of_ofJson hn)) h

theorem isEncodable_of_nodesOfJson {j : Json} {m : NodeMap} (h : nodesOfJson j = .ok m) :
    m.IsEncodable := by
  unfold nodesOfJson at h
  split at h
  · exact isEncodable_of_foldlM (fun e he => absurd he List.not_mem_nil) h
  · cases h

end Outline

/-! ## Outlines -/

namespace Outline

variable {o : Outline} {j : Json}

/-- The fields of an outline. -/
theorem ofJson_eq_ok : ofJson j = .ok o ↔
    ∃ root nodes length,
      Wire.record [⟨"root", none⟩, ⟨"nodes", none⟩, ⟨"document_len", none⟩] j =
        .ok [root, nodes, length] ∧
      NodeId.ofJson root = .ok o.root ∧ nodesOfJson nodes = .ok o.nodes ∧
      Wire.natural length = .ok o.length ∧ o.validate = .ok () := by
  unfold ofJson
  rw [Except.bind_eq_ok]
  constructor
  · rintro ⟨values, hvalues, h⟩
    split at h
    · rename_i root nodes length
      simp only [Except.bind_eq_ok] at h
      obtain ⟨_, hroot, _, hnodes, _, hlength, u, hvalid, hdone⟩ := h
      obtain rfl := Except.ok.inj hdone
      refine ⟨root, nodes, length, hvalues, hroot, hnodes, hlength, ?_⟩
      cases hverdict : validate _ with
      | ok => rfl
      | error e => exact absurd hvalid (by simp [hverdict, Except.mapError])
    · exact absurd h (by simp [throw, throwThe, MonadExceptOf.throw])
  · rintro ⟨root, nodes, length, hvalues, hroot, hnodes, hlength, hvalid⟩
    refine ⟨_, hvalues, ?_⟩
    simp only [Except.bind_eq_ok]
    refine ⟨_, hroot, _, hnodes, _, hlength, (), ?_, rfl⟩
    rw [hvalid]
    rfl

/-- Identifiers and numbers in the outline fit into what they are sent as. -/
structure IsEncodable (o : Outline) : Prop where
  root_lt : o.root.value < NodeId.count
  nodes : o.nodes.IsEncodable
  length_lt : o.length < UInt64.size

theorem ofJson_toJson (h : o.IsEncodable) (hvalid : o.validate = .ok ()) :
    ofJson o.toJson = .ok o :=
  ofJson_eq_ok.2 ⟨_, _, _, rfl, NodeId.ofJson_toJson h.root_lt, nodesOfJson_toJson h.nodes,
    Wire.natural_nat h.length_lt, hvalid⟩

theorem isEncodable_of_ofJson (h : ofJson j = .ok o) : o.IsEncodable := by
  obtain ⟨root, nodes, length, -, hroot, hnodes, hlength, -⟩ := ofJson_eq_ok.1 h
  exact ⟨NodeId.lt_of_ofJson hroot, isEncodable_of_nodesOfJson hnodes,
    Wire.natural_lt hlength⟩

/-- The outlines that decoding gives. -/
theorem exists_ofJson_iff :
    (∃ j, ofJson j = .ok o) ↔ o.IsEncodable ∧ o.validate = .ok () := by
  constructor
  · rintro ⟨j, h⟩
    obtain ⟨-, -, -, -, -, -, -, hvalid⟩ := ofJson_eq_ok.1 h
    exact ⟨isEncodable_of_ofJson h, hvalid⟩
  · rintro ⟨hencodable, hvalid⟩
    exact ⟨o.toJson, ofJson_toJson hencodable hvalid⟩

end Outline

end SelectionLadder
