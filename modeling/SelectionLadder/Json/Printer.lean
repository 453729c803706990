import SelectionLadder.Json.Basic

/-!
# Writing JSON

Two layouts.  The compact one has no white space.  The wide one puts every item on a line of its
own, indented by two spaces for each level, and a space after each colon; empty arrays and objects
stay on one line.  In strings only the quote, the backslash and the control characters below the
space are escaped.
-/

namespace SelectionLadder.Json

/-! ## Scalars -/

/-- A character inside a string. -/
def escape (c : Char) : List Char :=
  if c = '"' then ['\\', '"']
  else if c = '\\' then ['\\', '\\']
  else if c = '\n' then ['\\', 'n']
  else if c = '\r' then ['\\', 'r']
  else if c = '\t' then ['\\', 't']
  else if c = '\x08' then ['\\', 'b']
  else if c = '\x0c' then ['\\', 'f']
  else if c.toNat < 0x20 then
    ['\\', 'u', '0', '0', Nat.digitChar (c.toNat / 16), Nat.digitChar (c.toNat % 16)]
  else [c]

/-- A string between quotes. -/
def quoted (s : String) : List Char := '"' :: (s.toList.flatMap escape ++ ['"'])

/-- The digits of a number. -/
def decimal (n : Nat) : List Char := Nat.toDigits 10 n

/-- A number in its decimal form. -/
def Number.chars (n : Number) : List Char :=
  (if n.negative then ['-'] else []) ++ decimal n.whole ++
    (if n.fraction = [] then [] else '.' :: n.fraction) ++
    match n.exponent with
    | none => []
    | some e => 'e' :: ((if e < 0 then ['-'] else []) ++ decimal e.natAbs)

/-- A truth value. -/
def boolChars (b : Bool) : List Char := if b then "true".toList else "false".toList

/-! ## The compact layout -/

mutual

/-- A value without white space. -/
def compact : Json → List Char
  | null => "null".toList
  | bool b => boolChars b
  | number n => n.chars
  | string s => quoted s
  | array items => '[' :: compactItems items
  | object members => '\x7b' :: compactMembers members

/-- What follows the opening bracket of an array. -/
def compactItems : List Json → List Char
  | [] => [']']
  | [item] => compact item ++ [']']
  | item :: next :: rest => compact item ++ ',' :: compactItems (next :: rest)

/-- What follows the opening brace of an object. -/
def compactMembers : List (String × Json) → List Char
  | [] => ['\x7d']
  | [(name, value)] => quoted name ++ ':' :: (compact value ++ ['\x7d'])
  | (name, value) :: next :: rest =>
    quoted name ++ ':' :: (compact value ++ ',' :: compactMembers (next :: rest))

end

/-! ## The wide layout -/

/-- A line break and the indentation of a level. -/
def newLine (level : Nat) : List Char := '\n' :: List.replicate (2 * level) ' '

mutual

/-- A value that stands at a level. -/
def wide (level : Nat) : Json → List Char
  | null => "null".toList
  | bool b => boolChars b
  | number n => n.chars
  | string s => quoted s
  | array [] => ['[', ']']
  | array (item :: rest) =>
    '[' :: (newLine (level + 1) ++ wide (level + 1) item ++ wideItems level rest)
  | object [] => ['\x7b', '\x7d']
  | object ((name, value) :: rest) =>
    '\x7b' :: (newLine (level + 1) ++ quoted name ++ [':', ' '] ++ wide (level + 1) value ++
      wideMembers level rest)

/-- What follows an item of an array that stands at a level. -/
def wideItems (level : Nat) : List Json → List Char
  | [] => newLine level ++ [']']
  | item :: rest => ',' :: (newLine (level + 1) ++ wide (level + 1) item ++ wideItems level rest)

/-- What follows a member of an object that stands at a level. -/
def wideMembers (level : Nat) : List (String × Json) → List Char
  | [] => newLine level ++ ['\x7d']
  | (name, value) :: rest =>
    ',' :: (newLine (level + 1) ++ quoted name ++ [':', ' '] ++ wide (level + 1) value ++
      wideMembers level rest)

end

/-- The value in the wide layout. -/
def pretty (j : Json) : String := String.ofList (wide 0 j)

end SelectionLadder.Json
