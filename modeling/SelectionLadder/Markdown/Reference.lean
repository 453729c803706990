import SelectionLadder.Markdown.Source
import SelectionLadder.Unicode.Fold
import SelectionLadder.Unicode.Punctuation

/-!
# Link targets, labels and definitions

A link names its target directly, or by a label that a definition somewhere in the document gives
a target.  Only where these pieces end matters here, and which labels are defined; the functions
give what follows a piece.
-/

namespace SelectionLadder.Markdown

/-! ## Destinations and titles -/

/-- What follows a destination in angle brackets, after the opening one. -/
def bracketedDestination? : List Char → Option (List Char)
  | [] => none
  | '\\' :: c :: cs =>
    if Unicode.isAsciiPunctuation c then bracketedDestination? cs
    else if c = '\n' ∨ c = '<' then none
    else if c = '>' then some cs
    else bracketedDestination? cs
  | c :: cs =>
    if c = '\n' ∨ c = '<' then none
    else if c = '>' then some cs
    else bracketedDestination? cs

/-- What follows a destination without angle brackets, inside `depth` parentheses of which there
may be `most + 1`. -/
def bareDestination? (most depth : Nat) : List Char → Option (List Char)
  | [] => if depth = 0 then some [] else none
  | '\\' :: c :: cs =>
    if Unicode.isAsciiPunctuation c then bareDestination? most depth cs
    else if c.toNat ≤ 0x20 then if depth = 0 then some (c :: cs) else none
    else bareDestination? most depth cs
  | c :: cs =>
    if c.toNat ≤ 0x20 then if depth = 0 then some (c :: cs) else none
    else if c = '(' then if depth > most then none else bareDestination? most (depth + 1) cs
    else if c = ')' then
      if depth = 0 then some (c :: cs) else bareDestination? most (depth - 1) cs
    else bareDestination? most depth cs

/-- What follows a destination, which may be empty. -/
def destination? (most : Nat) : List Char → Option (List Char)
  | '<' :: cs => bracketedDestination? cs
  | cs => bareDestination? most 0 cs

/-- What follows the text of a title up to its closing mark.  Another opening mark is not
allowed in it. -/
def titleText? (opening closing : Char) : List Char → Option (List Char)
  | [] => none
  | '\\' :: c :: cs =>
    if Unicode.isAsciiPunctuation c then titleText? opening closing cs
    else if c = closing then some cs
    else if c = opening then none
    else titleText? opening closing cs
  | c :: cs =>
    if c = closing then some cs
    else if c = opening then none
    else titleText? opening closing cs

/-- What follows a title in quotes or parentheses. -/
def title? : List Char → Option (List Char)
  | '"' :: cs => titleText? '"' '"' cs
  | '\'' :: cs => titleText? '\'' '\'' cs
  | '(' :: cs => titleText? '(' ')' cs
  | _ => none

/-- What follows the target of a link in parentheses. -/
def inlineTarget? : List Char → Option (List Char)
  | '(' :: cs => do
    let afterDestination ← destination? 32 (cs.dropWhile isGap)
    let gap := afterDestination.dropWhile isGap
    match ((title? gap).map (·.dropWhile isGap)).getD gap with
    | ')' :: rest => some rest
    | _ => none
  | _ => none

/-! ## Labels -/

/-- The characters of a label up to the closing bracket, and what follows it. -/
def labelText? : List Char → Option (List Char × List Char)
  | [] => none
  | '\\' :: c :: cs => (labelText? cs).map fun (label, rest) => ('\\' :: c :: label, rest)
  | c :: cs =>
    if c = '[' then none
    else if c = ']' then some ([], cs)
    else (labelText? cs).map fun (label, rest) => (c :: label, rest)

/-- Runs of blanks and line breaks as single spaces, none at the ends. -/
def collapse (cs : List Char) : List Char :=
  let words := (cs.splitBy fun a b => isGap a == isGap b).filter fun run => !run.any isGap
  List.intercalate [' '] words

/-- The form in which labels are compared. -/
def normalizeLabel (cs : List Char) : List Char := Unicode.caseFold (collapse cs)

/-- The label after an opening bracket, in the form for comparison, and what follows it.  A label
has fewer than a thousand characters, one of which is not a blank. -/
def label? (cs : List Char) : Option (List Char × List Char) := do
  let (label, rest) ← labelText? cs
  if label.length < 1000 ∧ ¬ label.all isGap then some (normalizeLabel label, rest) else none

/-! ## Definitions -/

/-- What follows the line, which has nothing more but blanks. -/
def lineEnd? (cs : List Char) : Option (List Char) :=
  match cs.dropWhile isBlank with
  | [] => some []
  | c :: rest => if c = '\n' then some rest else none

/-- The label that the lines define, and the lines that follow the definition.  A title that is
not the end of its line does not count, and then there is a definition only if the destination is
the end of its own. -/
def definition? : List Char → Option (List Char × List Char)
  | '[' :: cs => do
    let (label, afterLabel) ← label? cs
    match afterLabel with
    | ':' :: target =>
      let target := target.dropWhile isGap
      let afterDestination ← destination? 1 target
      if target = [] ∨ afterDestination.length = target.length then none
      else
        let gap := afterDestination.dropWhile isGap
        let titled :=
          if gap.length < afterDestination.length then (title? gap).bind lineEnd? else none
        let rest ← titled.or (lineEnd? afterDestination)
        some (label, rest)
    | _ => none
  | _ => none

end SelectionLadder.Markdown
