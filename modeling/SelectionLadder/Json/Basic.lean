/-!
# JSON values

A number keeps its decimal form: an integer is a number that is written without a point and
without an exponent, so `1.0` is none.  The members of an object keep their order.
-/

namespace SelectionLadder.Json

/-- A number as it is written. -/
structure Number where
  negative : Bool
  whole : Nat
  /-- The digits after the point; a number without a point has none. -/
  fraction : List Char
  exponent : Option Int
deriving DecidableEq, Repr, Inhabited

/-- The number is an unsigned integer of 64 bits. -/
def Number.natural? (n : Number) : Option Nat :=
  if ¬ n.negative ∧ n.fraction = [] ∧ n.exponent = none ∧ n.whole < UInt64.size then some n.whole
  else none

/-- The number that digits spell after those of `n`. -/
def appendDigits (n : Nat) (digits : List Char) : Nat :=
  digits.foldl (fun n c => 10 * n + (c.toNat - '0'.toNat)) n

/-- Above all numbers that have a nearest double-precision number. -/
def doubleLimit : Nat := Nat.pow 2 1024 - Nat.pow 2 970

/-- The number is `mantissa * 10 ^ scale`. -/
def Number.mantissa (n : Number) : Nat := appendDigits n.whole n.fraction

def Number.scale (n : Number) : Int := n.exponent.getD 0 - n.fraction.length

/-- The size of the number is below the limit of double precision.  Only where the count of
digits does not settle the matter are the powers of ten worked out. -/
def Number.inRange (n : Number) : Bool :=
  let digits : Int := (Nat.toDigits 10 n.mantissa).length + n.scale
  if n.mantissa = 0 ∨ digits < 300 then true
  else if digits > 310 then false
  else n.mantissa * Nat.pow 10 n.scale.toNat < doubleLimit * Nat.pow 10 (-n.scale).toNat

end SelectionLadder.Json

namespace SelectionLadder

/-- A JSON value. -/
inductive Json where
  | null
  | bool (b : Bool)
  | number (n : Json.Number)
  | string (s : String)
  | array (items : List Json)
  | object (members : List (String × Json))
deriving Repr, Inhabited

namespace Json

/-- A natural number as a value. -/
def nat (n : Nat) : Json := .number ⟨false, n, [], none⟩

/-- The value of the member with this name, if the value is an object that has one. -/
def field? (j : Json) (name : String) : Option Json :=
  match j with
  | .object members => members.lookup name
  | _ => none

end Json

end SelectionLadder
