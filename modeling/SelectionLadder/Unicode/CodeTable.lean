/-!
# Tables of code points

Sets and maps of characters, written as text.  Numbers are hexadecimal, items are separated by
blanks, and items are in increasing order.

* `CodeTable` is a set: an item is a code point `41` or an inclusive range `41-5A`.
* `CaseTable` maps ranges by an offset: `100-12E/2:101` maps every second code point of the range.
* `ExpansionTable` maps single characters to several: `DF:73,73`.
-/

namespace SelectionLadder.Unicode

/-- The value of a hexadecimal digit in capital or small letters, zero for any other character. -/
def hexDigit (c : Char) : Nat :=
  if '0' ≤ c ∧ c ≤ '9' then c.toNat - '0'.toNat
  else if 'A' ≤ c ∧ c ≤ 'F' then c.toNat - 'A'.toNat + 10
  else if 'a' ≤ c ∧ c ≤ 'f' then c.toNat - 'a'.toNat + 10
  else 0

/-- The number that hexadecimal digits spell. -/
def hexNumber (digits : String) : Nat :=
  digits.toList.foldl (fun n c => 16 * n + hexDigit c) 0

/-- The items of a text, which blanks and line ends separate. -/
def items (text : String) : List String :=
  ((text.splitOn "\n").flatMap fun line => line.splitOn " ").filter (· ≠ "")

/-- An inclusive range of code points, written `41-5A`, or `41` for a single one. -/
def hexRange (item : String) : Nat × Nat :=
  match item.splitOn "-" with
  | first :: last :: _ => (hexNumber first, hexNumber last)
  | _ => (hexNumber item, hexNumber item)

/-! ## Sets -/

/-- A set of characters as sorted, disjoint, inclusive ranges of code points. -/
structure CodeTable where
  ranges : Array (Nat × Nat)

namespace CodeTable

/-- The set written as a text of ranges. -/
def ofHex (text : String) : CodeTable :=
  ⟨((items text).map hexRange).toArray⟩

/-- Binary search for the range that holds `n` among those from `low` up to `high`. -/
def search (ranges : Array (Nat × Nat)) (n low high : Nat) : Bool :=
  if low < high then
    let middle := (low + high) / 2
    match ranges[middle]? with
    | none => false
    | some (first, last) =>
      if n < first then search ranges n low middle
      else if last < n then search ranges n (middle + 1) high
      else true
  else false
termination_by high - low

/-- Whether the character belongs to the set. -/
def contains (table : CodeTable) (c : Char) : Bool :=
  search table.ranges c.toNat 0 table.ranges.size

end CodeTable

/-! ## Maps -/

/-- A run of code points that all move by the same offset. -/
structure CaseRun where
  first : Nat
  last : Nat
  /-- Only every `step`-th code point of the run moves. -/
  step : Nat
  /-- Where the first code point of the run moves to. -/
  target : Nat

/-- A map of characters to characters as a list of runs. -/
structure CaseTable where
  runs : List CaseRun

namespace CaseTable

/-- The run written `first-last/step:target`. -/
def runOfHex (item : String) : CaseRun :=
  match item.splitOn ":" with
  | [source, target] =>
    match source.splitOn "/" with
    | [range, step] =>
      ⟨(hexRange range).1, (hexRange range).2, hexNumber step, hexNumber target⟩
    | _ => ⟨1, 0, 1, 0⟩
  | _ => ⟨1, 0, 1, 0⟩

/-- The map written as a text of runs. -/
def ofHex (text : String) : CaseTable :=
  ⟨(items text).map runOfHex⟩

/-- The image of a character; a character outside all runs is its own image. -/
def apply (table : CaseTable) (c : Char) : Char :=
  match table.runs.find? fun run => run.first ≤ c.toNat ∧ c.toNat ≤ run.last with
  | none => c
  | some run =>
    if (c.toNat - run.first) % run.step = 0 then Char.ofNat (run.target + (c.toNat - run.first))
    else c

end CaseTable

/-- A map of single characters to texts. -/
structure ExpansionTable where
  entries : List (Nat × List Char)

namespace ExpansionTable

/-- The entry written `source:target,target`. -/
def entryOfHex (item : String) : Nat × List Char :=
  match item.splitOn ":" with
  | [source, targets] =>
    (hexNumber source, (targets.splitOn ",").map fun target => Char.ofNat (hexNumber target))
  | _ => (0, [])

/-- The map written as a text of entries. -/
def ofHex (text : String) : ExpansionTable :=
  ⟨(items text).map entryOfHex⟩

/-- The text that the character maps to, if the table has it. -/
def find? (table : ExpansionTable) (c : Char) : Option (List Char) :=
  table.entries.lookup c.toNat

end ExpansionTable

end SelectionLadder.Unicode
