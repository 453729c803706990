/-!
# Node identifiers

Nodes of an outline are named by numbers.  Outside the program an identifier of 128 bits is
written as 32 hexadecimal digits in groups of 8, 4, 4, 4 and 12.
-/

namespace SelectionLadder

/-- The name of a node. -/
structure NodeId where
  value : Nat
deriving DecidableEq, Repr, Inhabited

namespace NodeId

/-- The last `count` hexadecimal digits of a number. -/
def digits (n : Nat) : Nat → List Char
  | 0 => []
  | count + 1 => digits (n / 16) count ++ [Nat.digitChar (n % 16)]

/-- Where the hyphens stand: the lengths of the groups. -/
def groups : List Nat := [8, 4, 4, 4, 12]

/-- Cuts the characters into groups of these lengths. -/
def split : List Nat → List Char → List (List Char)
  | [], _ => []
  | n :: ns, cs => cs.take n :: split ns (cs.drop n)

/-- The written form, in small letters. -/
def display (id : NodeId) : String :=
  String.ofList (List.intercalate ['-'] (split groups (digits id.value 32)))

/-! ## Reading -/

/-- The value of a hexadecimal digit. -/
def digitValue? (c : Char) : Option Nat :=
  if '0' ≤ c ∧ c ≤ '9' then some (c.toNat - '0'.toNat)
  else if 'a' ≤ c ∧ c ≤ 'f' then some (c.toNat - 'a'.toNat + 10)
  else if 'A' ≤ c ∧ c ≤ 'F' then some (c.toNat - 'A'.toNat + 10)
  else none

/-- The identifier with exactly these 32 digits. -/
def ofDigits? (cs : List Char) : Option NodeId :=
  if cs.length = 32 then
    (cs.mapM digitValue?).map fun ds => ⟨ds.foldl (fun n d => 16 * n + d) 0⟩
  else none

/-- The digits of a text that is written in groups of these lengths, with a hyphen between two
groups. -/
def ungroup? : List Nat → List Char → Option (List Char)
  | [], _ => none
  | [n], cs => if cs.length = n then some cs else none
  | n :: ns, cs =>
    match cs.drop n with
    | '-' :: rest => (ungroup? ns rest).map (cs.take n ++ ·)
    | _ => none

/-- The identifier written in groups. -/
def ofGroups? (cs : List Char) : Option NodeId :=
  (ungroup? groups cs).bind ofDigits?

/-- Reads an identifier: 32 digits in groups or without hyphens, or in groups inside braces or
after `urn:uuid:`. -/
def ofString? (text : String) : Option NodeId :=
  let cs := text.toList
  match cs.length with
  | 32 => ofDigits? cs
  | 36 => ofGroups? cs
  | 38 =>
    if cs.head? = some '\x7b' ∧ cs.getLast? = some '\x7d' then ofGroups? (cs.drop 1).dropLast
    else none
  | 45 =>
    if cs.take 9 = "urn:uuid:".toList then ofGroups? (cs.drop 9) else none
  | _ => none

end NodeId

end SelectionLadder
