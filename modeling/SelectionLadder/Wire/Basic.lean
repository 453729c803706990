import SelectionLadder.Json.Basic
import SelectionLadder.Outline.Validity
import SelectionLadder.Range

/-!
# Decoding values

What other programs send is decoded from JSON.  A record is an object that has its fields, among
others perhaps, or an array of exactly its fields in their order.  Values that decode may still
break a law of their type, such as the order of the ends of a range.
-/

namespace SelectionLadder.Wire

/-- Why a value does not decode. -/
inductive Error where
  /-- It does not have the form that is asked for. -/
  | undecodable
  /-- A range has its ends in the wrong order. -/
  | reversed (e : ReversedRange)
  /-- The nodes of an outline are not one tree. -/
  | outline (e : OutlineError)
deriving DecidableEq

/-- Decodes an unsigned integer of 64 bits. -/
def natural : Json → Except Error Nat
  | .number n => match n.natural? with
    | some k => .ok k
    | none => .error .undecodable
  | _ => .error .undecodable

/-- Decodes a string. -/
def string : Json → Except Error String
  | .string s => .ok s
  | _ => .error .undecodable

/-- Decodes an array of items that `f` decodes. -/
def list {α : Type} (f : Json → Except Error α) : Json → Except Error (List α)
  | .array items => items.mapM f
  | _ => .error .undecodable

/-- A field of a record: its name, and what it holds where it may be missing and is. -/
structure Field where
  name : String
  default : Option Json := none

/-- The values of the fields of a record, in order. -/
def record (fields : List Field) : Json → Except Error (List Json)
  | .array items => if items.length = fields.length then .ok items else .error .undecodable
  | .object members =>
    fields.mapM fun f =>
      match (members.lookup f.name).or f.default with
      | some value => .ok value
      | none => .error .undecodable
  | _ => .error .undecodable

end SelectionLadder.Wire
