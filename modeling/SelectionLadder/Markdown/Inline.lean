import SelectionLadder.Markdown.Emphasis
import SelectionLadder.Markdown.Html
import SelectionLadder.Markdown.Reference

/-!
# Units within text

The text of a block is read from left to right for code, links in angle brackets, pieces of HTML,
brackets and runs of marks.  A closing bracket makes a link or an image of what stands between it
and the last opening one, if a target or a defined label follows or the text itself is a defined
label.  Emphasis is matched separately inside each link and outside of all.
-/

namespace SelectionLadder.Markdown

/-- A character with the one before it. -/
structure Spot where
  char : Char
  offset : Nat
  before : Option Char

/-- The characters with the ones before them. -/
def spots (before : Option Char) : List Located → List Spot
  | [] => []
  | c :: cs => ⟨c.char, c.offset, before⟩ :: spots (some c.char) cs

/-- The characters alone. -/
def spotChars (cs : List Spot) : List Char := cs.map (·.char)

/-- The last so many characters. -/
def lastSpots (count : Nat) (cs : List Spot) : List Spot := cs.drop (cs.length - count)

/-- The number of bytes before the first character, or up to the end of the text. -/
def spotOffset (stop : Nat) : List Spot → Nat
  | [] => stop
  | c :: _ => c.offset

/-! ## Code and angle brackets -/

/-- What follows the next run of exactly `length` backticks; the text up to it starts in a run of
`current` backticks. -/
def closingTicks? (length current : Nat) : List Char → Option (List Char)
  | [] => if current = length then some [] else none
  | c :: cs =>
    if c = '`' then closingTicks? length (current + 1) cs
    else if current = length then some (c :: cs)
    else closingTicks? length 0 cs

/-- What follows an address with a scheme, after the opening angle bracket. -/
def uri? (cs : List Char) : Option (List Char) :=
  let scheme := cs.takeWhile fun c => c.isAlphanum || c == '.' || c == '-' || c == '+'
  match cs.drop scheme.length with
  | ':' :: path =>
    if scheme.head?.any Char.isAlpha ∧ 2 ≤ scheme.length ∧ scheme.length ≤ 32 then
      match path.dropWhile fun c => ' ' < c ∧ c ≠ '<' ∧ c ≠ '>' with
      | '>' :: rest => some rest
      | _ => none
    else none
  | _ => none

/-- The characters of the name in a mail address. -/
def isMailChar (c : Char) : Bool := c.isAlphanum || ".!#$%&'*+/=?^_`\x7b|\x7d~-".toList.contains c

/-- A part of the domain in a mail address. -/
def isMailLabel (cs : List Char) : Bool :=
  1 ≤ cs.length && cs.length ≤ 63 && cs.head? != some '-' && cs.getLast? != some '-' &&
    cs.all fun c => c.isAlphanum || c == '-'

/-- Parts of a domain, with a period between two of them. -/
def isMailHost : List (List Char) → Bool
  | [] => false
  | [part] => isMailLabel part
  | part :: dot :: rest => isMailLabel part && dot == ['.'] && isMailHost rest

/-- What follows a mail address, after the opening angle bracket. -/
def mail? (cs : List Char) : Option (List Char) :=
  let name := cs.takeWhile isMailChar
  match cs.drop name.length with
  | '@' :: domain =>
    let host := domain.takeWhile fun c => c ≠ '>'
    if name ≠ [] ∧ isMailHost (host.splitBy fun a b => (a == '.') == (b == '.')) then
      match domain.drop host.length with
      | '>' :: rest => some rest
      | _ => none
    else none
  | _ => none

/-! ## Brackets -/

/-- A part of the text that has been read. -/
inductive Piece where
  /-- A run whose matches are not known yet. -/
  | run (r : Run)
  /-- Units that are complete. -/
  | units (events : List Event)

/-- The units of a stretch of text. -/
def unitsOf (pieces : List Piece) : List Event :=
  pieces.flatMap (fun p => match p with
    | .units events => events
    | .run _ => []) ++
  emphasis (pieces.filterMap fun p => match p with
    | .run r => some r
    | .units _ => none)

/-- An opening bracket that has not been closed. -/
structure Bracket where
  offset : Nat
  image : Bool
  /-- Links do not contain links, so a bracket before a link no longer opens one. -/
  active : Bool
  /-- The text from the bracket on. -/
  text : List Spot
  /-- The pieces before the bracket, the last one first, back to the bracket before. -/
  earlier : List Piece

/-- What has been read of a text. -/
structure Reader where
  /-- The pieces since the last open bracket, the last one first. -/
  pieces : List Piece := []
  /-- The open brackets, the last one first. -/
  brackets : List Bracket := []
  /-- The offsets of closing brackets that have been tried as the end of a label. -/
  tried : List Nat := []

namespace Reader

/-- Adds a complete unit. -/
def addUnit (r : Reader) (tag : Tag) (start stop : Nat) : Reader :=
  { r with pieces := .units [⟨tag, start, stop⟩] :: r.pieces }

/-- Opens a bracket. -/
def openBracket (r : Reader) (offset : Nat) (image : Bool) (text : List Spot) : Reader :=
  { r with
    pieces := []
    brackets := ⟨offset, image, true, text, r.pieces⟩ :: r.brackets }

/-- The last bracket is text. -/
def dropBracket (r : Reader) : Reader :=
  match r.brackets with
  | [] => r
  | b :: rest => { r with pieces := r.pieces ++ b.earlier, brackets := rest }

/-- The last bracket makes a link or an image that stops here. -/
def closeBracket (r : Reader) (stop : Nat) : Reader :=
  match r.brackets with
  | [] => r
  | b :: rest =>
    let unit : Event := ⟨if b.image then .image else .link, b.offset, stop⟩
    { r with
      pieces := .units (unit :: unitsOf r.pieces.reverse) :: b.earlier
      brackets :=
        if b.image then rest
        else rest.map fun b => { b with active := b.active && b.image } }

/-- The label that the text of a bracket is, if the closing bracket before `rest` ends it. -/
def ownLabel? (b : Bracket) (rest : List Spot) : Option (List Char) := do
  let (label, after) ← label? (spotChars b.text)
  if after.length = rest.length then some label else none

/-- The label in brackets at the head of a text, and what follows it. -/
def nextLabel? (rest : List Spot) : Option (List Char × List Spot) :=
  match spotChars rest with
  | '[' :: more => (label? more).map fun (label, after) => (label, lastSpots after.length rest)
  | _ => none

/-- Reads a closing bracket at `offset`, of a text with these defined labels that stops at `stop`.
A target comes first, then a label in brackets, then the label that the text itself is, which a
pair of empty brackets may follow.  Gives the text from which to go on. -/
def closingBracket (labels : List (List Char)) (stop : Nat) (r : Reader) (offset : Nat)
    (rest : List Spot) : Reader × List Spot :=
  match r.brackets with
  | [] => (r, rest)
  | b :: _ =>
    if ¬ b.active then (r.dropBracket, rest)
    else
      match inlineTarget? (spotChars rest), nextLabel? rest with
      | some after, _ =>
        let left := lastSpots after.length rest
        (r.closeBracket (spotOffset stop left), left)
      | none, some (label, left) =>
        let labelStop := spotOffset stop left
        if label ∈ labels then (r.closeBracket labelStop, left)
        else ({ r.dropBracket with tried := (labelStop - 1) :: r.tried }, rest)
      | none, none =>
        if offset ∉ r.tried ∧ (ownLabel? b rest).any (· ∈ labels) then
          (r.closeBracket (offset + 1),
            if spotChars (rest.take 2) = ['[', ']'] then rest.drop 2 else rest)
        else (r.dropBracket, rest)

/-! ## Reading -/

/-- Reads a run of backticks, of which a backslash may escape the first.  It is code up to the
next run of the same length, or text. -/
def backticks (stop : Nat) (r : Reader) (escaped : Bool) (offset : Nat) (cs : List Spot) :
    Reader × List Spot :=
  let length := (cs.takeWhile fun c => c.char = '`').length
  let skipped := if escaped then 1 else 0
  let rest := cs.drop length
  if length = skipped then (r, rest)
  else
    match closingTicks? (length - skipped) 0 (spotChars rest) with
    | some after =>
      let left := lastSpots after.length rest
      (r.addUnit .inlineCode (offset + skipped) (spotOffset stop left), left)
    | none => (r, rest)

/-- Reads an opening angle bracket at `offset`. -/
def angleBracket (stop : Nat) (r : Reader) (offset : Nat) (rest : List Spot) :
    Reader × List Spot :=
  let cs := spotChars rest
  match (uri? cs).or (mail? cs) with
  | some after =>
    let left := lastSpots after.length rest
    (r.addUnit .link offset (spotOffset stop left), left)
  | none =>
    match Html.inline? cs with
    | some after => (r, lastSpots after.length rest)
    | none => (r, rest)

/-- Reads a run of marks. -/
def marks (r : Reader) (c : Spot) (cs : List Spot) : Reader × List Spot :=
  let length := (cs.takeWhile fun d => d.char = c.char).length
  let rest := cs.drop length
  match run? c.char c.offset length c.before (rest.head?.map (·.char)) with
  | some run => ({ r with pieces := .run run :: r.pieces }, rest)
  | none => (r, rest)

/-- Reads at most `count` pieces of a text. -/
def read (labels : List (List Char)) (stop : Nat) : Nat → Reader → List Spot → Reader
  | 0, r, _ => r
  | _ + 1, r, [] => r
  | count + 1, r, c :: cs =>
    let goOn (step : Reader × List Spot) : Reader := read labels stop count step.1 step.2
    if c.char = '\\' then
      match cs with
      | d :: rest =>
        if d.char = '`' then goOn (backticks stop r true d.offset cs)
        else if Unicode.isAsciiPunctuation d.char then goOn (r, rest)
        else goOn (r, cs)
      | [] => r
    else if c.char = '`' then goOn (backticks stop r false c.offset (c :: cs))
    else if c.char = '<' then goOn (angleBracket stop r c.offset cs)
    else if c.char = '*' ∨ c.char = '_' ∨ c.char = '~' then goOn (marks r c (c :: cs))
    else if c.char = '[' then goOn (r.openBracket c.offset false cs, cs)
    else if c.char = ']' then goOn (closingBracket labels stop r c.offset cs)
    else if c.char = '!' ∧ (cs.head?.map (·.char)) = some '[' then
      goOn (r.openBracket c.offset true (cs.drop 1), cs.drop 1)
    else goOn (r, cs)

/-- All pieces, after the brackets that are still open have become text. -/
def allPieces (r : Reader) : List Piece :=
  (r.pieces ++ r.brackets.flatMap (·.earlier)).reverse

end Reader

/-- The units in a text, in order of their starts. -/
def inlineEvents (labels : List (List Char)) (content : List Located) : List Event :=
  let stop := (content.getLast?.map Located.stop).getD 0
  let r := Reader.read labels stop content.length {} (spots none content)
  (unitsOf r.allPieces).mergeSort fun a b => a.start ≤ b.start

end SelectionLadder.Markdown
