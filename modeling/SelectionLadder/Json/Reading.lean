import SelectionLadder.Json.Token

/-!
# Reading JSON

A reading is a value as far as a text gives one.  Where the text goes wrong, the reading says so in
that place, so that whoever uses the reading meets what is wrong in the order of the text, together
with what does not suit the purpose.  `Reading.toJson?` is for those who need a whole value;
`Reading.skip` passes over a value that nobody asked for.
-/

namespace SelectionLadder.Json

/-- A value, or as much of it as could be read. -/
inductive Reading where
  | null
  | bool (b : Bool)
  | number (n : Number)
  /-- A string, or `none` if its surrogates are not in pairs. -/
  | string (s : Option String)
  /-- The items, and what is wrong after them if the array does not end there. -/
  | array (items : List Reading) (fault : Option Faults)
  /-- The members, and what is wrong after them if the object does not end there. -/
  | object (members : List (Option String × Reading)) (fault : Option Faults)
  | broken (f : Faults)
deriving Repr, Inhabited

namespace Reading

/-! ## From text -/

/-- The text ends where a value or a bracket has to follow. -/
def ended : Reading := .broken (.both .truncated)

mutual

/-- The value at the head of the tokens, and the tokens that follow. -/
def ofTokens : Nat → List Token → Reading × List Token
  | 0, _ => (ended, [])
  | _ + 1, [] => (ended, [])
  | fuel + 1, t :: rest =>
    match t with
    | .null => (.null, rest)
    | .bool b => (.bool b, rest)
    | .number n => (.number n, rest)
    | .string s => (.string s, rest)
    | .brokenString f => (.broken f, [])
    | .broken f => (.broken f, [])
    | .openArray =>
      match rest with
      | .closeArray :: after => (.array [] none, after)
      | _ =>
        let (items, fault, after) := itemsOfTokens fuel rest
        (.array items fault, after)
    | .openObject =>
      match rest with
      | .closeObject :: after => (.object [] none, after)
      | _ =>
        let (members, fault, after) := membersOfTokens fuel rest
        (.object members fault, after)
    | _ => (.broken (.both .malformed), [])

/-- The items of an array from the first one on. -/
def itemsOfTokens : Nat → List Token → List Reading × Option Faults × List Token
  | 0, _ => ([], some (.both .truncated), [])
  | fuel + 1, ts =>
    let (item, rest) := ofTokens fuel ts
    match rest with
    | .closeArray :: after => ([item], none, after)
    | .comma :: more =>
      let (items, fault, after) := itemsOfTokens fuel more
      (item :: items, fault, after)
    | [] => ([item], some (.both .truncated), [])
    | _ => ([item], some (.both .malformed), [])

/-- The members of an object from the first one on. -/
def membersOfTokens :
    Nat → List Token → List (Option String × Reading) × Option Faults × List Token
  | 0, _ => ([], some (.both .truncated), [])
  | fuel + 1, ts =>
    match ts with
    | .string name :: .colon :: value =>
      let (value, rest) := ofTokens fuel value
      match rest with
      | .closeObject :: after => ([(name, value)], none, after)
      | .comma :: more =>
        let (members, fault, after) := membersOfTokens fuel more
        ((name, value) :: members, fault, after)
      | [] => ([(name, value)], some (.both .truncated), [])
      | _ => ([(name, value)], some (.both .malformed), [])
    | [.string name] => ([(name, ended)], none, [])
    | .string name :: _ => ([(name, .broken (.both .malformed))], none, [])
    | .brokenString f :: _ => ([], some f, [])
    | [] => ([], some (.both .truncated), [])
    | _ => ([], some (.both .malformed), [])

end

/-- The value at the head of a text, and the tokens that follow it. -/
def ofText (text : String) : Reading × List Token :=
  let ts := tokens text
  ofTokens (2 * ts.length + 1) ts

/-! ## From and to values -/

mutual

/-- The reading of a value. -/
def ofJson : Json → Reading
  | .null => .null
  | .bool b => .bool b
  | .number n => .number n
  | .string s => .string (some s)
  | .array items => .array (ofItems items) none
  | .object members => .object (ofMembers members) none

/-- The readings of the items of an array. -/
def ofItems : List Json → List Reading
  | [] => []
  | item :: rest => ofJson item :: ofItems rest

/-- The readings of the members of an object. -/
def ofMembers : List (String × Json) → List (Option String × Reading)
  | [] => []
  | (name, value) :: rest => (some name, ofJson value) :: ofMembers rest

end

mutual

/-- The value, if nothing is wrong with it. -/
def toJson? : Reading → Option Json
  | .null => some .null
  | .bool b => some (.bool b)
  | .number n => if n.inRange then some (.number n) else none
  | .string s => s.map .string
  | .array items none => (toItems? items).map .array
  | .object members none => (toMembers? members).map .object
  | _ => none

/-- The values of the items of an array. -/
def toItems? : List Reading → Option (List Json)
  | [] => some []
  | item :: rest =>
    match item.toJson?, toItems? rest with
    | some j, some others => some (j :: others)
    | _, _ => none

/-- The values of the members of an object.  Of members with the same name the last one counts. -/
def toMembers? : List (Option String × Reading) → Option (List (String × Json))
  | [] => some []
  | (name, value) :: rest =>
    match name, value.toJson?, toMembers? rest with
    | some name, some j, some ms =>
      some (if ms.any fun m => m.1 = name then ms else (name, j) :: ms)
    | _, _, _ => none

end

/-! ## Passing over -/

/-- What is wrong with the end of an array or object that is used. -/
def finish (fault : Option Faults) : Except Fault Unit :=
  match fault with
  | some f => .error f.whenUsed
  | none => .ok ()

mutual

/-- Passes over a value that nobody asked for. -/
def skip : Reading → Except Fault Unit
  | .array items fault => skipItems fault items
  | .object members fault => skipMembers fault members
  | .broken f => .error f.whenSkipped
  | _ => .ok ()

/-- Passes over the items of an array. -/
def skipItems (fault : Option Faults) : List Reading → Except Fault Unit
  | [] => match fault with
    | some f => .error f.whenSkipped
    | none => .ok ()
  | item :: rest => do item.skip; skipItems fault rest

/-- Passes over the members of an object. -/
def skipMembers (fault : Option Faults) : List (Option String × Reading) → Except Fault Unit
  | [] => match fault with
    | some f => .error f.whenSkipped
    | none => .ok ()
  | (_, value) :: rest => do value.skip; skipMembers fault rest

end

mutual

/-- Takes in a whole value for later use.  At most `depth` arrays and objects may be open at a
time. -/
def hold : Nat → Reading → Except Fault Unit
  | _, .null => .ok ()
  | _, .bool _ => .ok ()
  | _, .number n => if n.inRange then .ok () else .error .malformed
  | _, .string s => if s.isSome then .ok () else .error .malformed
  | depth, .array items fault =>
    if depth = 0 then .error .malformed else holdItems (depth - 1) fault items
  | depth, .object members fault =>
    if depth = 0 then .error .malformed else holdMembers (depth - 1) fault members
  | _, .broken f => .error f.whenUsed

/-- Takes in the items of an array. -/
def holdItems (depth : Nat) (fault : Option Faults) : List Reading → Except Fault Unit
  | [] => finish fault
  | item :: rest => do item.hold depth; holdItems depth fault rest

/-- Takes in the members of an object. -/
def holdMembers (depth : Nat) (fault : Option Faults) :
    List (Option String × Reading) → Except Fault Unit
  | [] => finish fault
  | (name, value) :: rest => do
    if name.isNone then throw .malformed
    value.hold depth
    holdMembers depth fault rest

end

/-! ## Using -/

/-- Why a value is refused that is not of the kind asked for.  A scalar is read to its end before
it is refused, an array or object is not. -/
def refusal : Reading → Fault
  | .number n => if n.inRange then .unfit else .malformed
  | .string none => .malformed
  | .broken f => f.whenUsed
  | _ => .unfit

/-- Asks for a truth value. -/
def asBool : Reading → Except Fault Bool
  | .bool b => .ok b
  | r => .error r.refusal

/-- Asks for a string. -/
def asString : Reading → Except Fault String
  | .string (some s) => .ok s
  | r => .error r.refusal

/-- Asks for an array of items that `f` asks for. -/
def asList {α : Type} (f : Reading → Except Fault α) : Reading → Except Fault (List α)
  | .array items fault => do
    let xs ← items.mapM f
    finish fault
    return xs
  | r => .error r.refusal

/-- One member of a record with two fields.  A field is asked for once; members with other names
are passed over. -/
def recordMember {α β : Type} (name₁ : String) (f₁ : Reading → Except Fault α)
    (name₂ : String) (f₂ : Reading → Except Fault β)
    (found : Option α × Option β) (m : Option String × Reading) :
    Except Fault (Option α × Option β) :=
  match m.1 with
  | none => .error .malformed
  | some name =>
    if name = name₁ then
      if found.1.isSome then .error .unfit else (f₁ m.2).map fun a => (some a, found.2)
    else if name = name₂ then
      if found.2.isSome then .error .unfit else (f₂ m.2).map fun b => (found.1, some b)
    else m.2.skip.map fun _ => found

/-- Asks for a record with two fields, each of which may be missing.  It is an object, or an
array of the fields in order, which may be too short but not too long. -/
def asRecord {α β : Type} (name₁ : String) (f₁ : Reading → Except Fault α)
    (name₂ : String) (f₂ : Reading → Except Fault β) :
    Reading → Except Fault (Option α × Option β)
  | .object members fault => do
    let found ← members.foldlM (recordMember name₁ f₁ name₂ f₂) (none, none)
    finish fault
    return found
  | .array items fault =>
    match items with
    | [] => (finish fault).map fun _ => (none, none)
    | [r₁] => do
      let a ← f₁ r₁
      finish fault
      return (some a, none)
    | [r₁, r₂] => do
      let a ← f₁ r₁
      let b ← f₂ r₂
      finish fault
      return (some a, some b)
    | r₁ :: r₂ :: _ :: _ => do
      let _ ← f₁ r₁
      let _ ← f₂ r₂
      throw .malformed
  | r => .error r.refusal

end Reading

/-- The value that a text holds, if it holds exactly one. -/
def ofText? (text : String) : Option Json :=
  match Reading.ofText text with
  | (r, []) => r.toJson?
  | _ => none

end SelectionLadder.Json
