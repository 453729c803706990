import SelectionLadder.Unicode.Space

/-!
# Growing over a class of characters

For a host that has only a string and two offsets: grow the stretch between the offsets over the
run of characters of one class on each side.
-/

namespace SelectionLadder

/-- The classes that runs are made of. -/
inductive CharClass where
  | word
  | whitespace
  | punctuation
deriving DecidableEq, Repr

namespace CharClass

/-- Letters and digits of ASCII, the low line and the hyphen make words. -/
def of (c : Char) : CharClass :=
  if c.isAlphanum || c == '_' || c == '-' then .word
  else if Unicode.isSpace c then .whitespace
  else .punctuation

/-- Offsets that do not delimit a stretch of the text. -/
structure BadOffsets where
  start : Nat
  stop : Nat
  length : Nat
deriving DecidableEq

/-- What the error says. -/
def BadOffsets.message (e : BadOffsets) : String :=
  s!"Invalid text range {e.start}..{e.stop} for text of length {e.length}"

/-- Word if either neighbour is one, else whitespace if either is, else punctuation. -/
def choose (before after : Option CharClass) : CharClass :=
  if before = some .word ∨ after = some .word then .word
  else if before = some .whitespace ∨ after = some .whitespace then .whitespace
  else .punctuation

/-- How many characters at the head of the list have the class. -/
def runLength (k : CharClass) (cs : List Char) : Nat :=
  (cs.takeWhile fun c => of c = k).length

/-- The offsets after growing.  A side grows over the run of the chosen class that starts there,
which has no character when its neighbour is of another class or missing. -/
def grow (cs : List Char) (start stop : Nat) : Except BadOffsets (Nat × Nat) :=
  if start > stop ∨ stop > cs.length then .error ⟨start, stop, cs.length⟩
  else
    let before := (cs.take start).reverse
    let after := cs.drop stop
    let k := choose (before.head?.map of) (after.head?.map of)
    .ok (start - runLength k before, stop + runLength k after)

end CharClass

end SelectionLadder
