import SelectionLadder.Unicode.Letter
import SelectionLadder.Unicode.Space
import SelectionLadder.Word.Pattern.Syntax

/-!
# Reading patterns

Reads the text of a pattern.  Classes, escapes and case folding know ASCII only.  Look-around,
back-references, Unicode properties, nested classes and set operations on classes are refused.

The readers are functions on a state, the rest of the text with the flags in effect.  A reader that
loops takes an amount of fuel, for which the length of the text is enough.
-/

namespace SelectionLadder.Pattern

/-- The switches that a pattern can set. -/
structure Flags where
  ignoreCase : Bool := false
  multiLine : Bool := false
  dotAll : Bool := false
  swapGreed : Bool := false
  carriageReturns : Bool := false
  /-- Blanks and comments in the pattern are skipped. -/
  extended : Bool := false

/-- What is left to read, the flags in effect and the group names used so far. -/
structure State where
  rest : List Char
  flags : Flags := {}
  names : List (List Char) := []

/-- Drops blanks and comments, each of which ends with its line. -/
def skipBlanks : List Char → Bool → List Char
  | [], _ => []
  | c :: cs, true => skipBlanks cs (c != '\n')
  | c :: cs, false =>
    if Unicode.isSpace c then skipBlanks cs false
    else if c == '#' then skipBlanks cs true
    else c :: cs

namespace State

/-- Skips blanks and comments if the flags ask for it. -/
def skip (s : State) : State :=
  if s.flags.extended then { s with rest := skipBlanks s.rest false } else s

/-- Goes on with another rest. -/
def withRest (s : State) (rest : List Char) : State := { s with rest := rest }

/-- Goes on with another rest, after blanks and comments. -/
def after (s : State) (rest : List Char) : State := (s.withRest rest).skip

end State

/-- How many groups may be open at a time. -/
def maxDepth : Nat := 50

/-! ## Characters and assertions -/

/-- An element of a pattern that is not built from others. -/
inductive Atom where
  | literal (c : Char)
  | oneOf (set : CharSet)
  | look (look : Look)

/-- The pattern of an atom; a literal stands for both of its cases if case is ignored. -/
def Atom.regex (flags : Flags) : Atom → Regex
  | literal c =>
    .char (if flags.ignoreCase then (CharSet.single c).foldCase else CharSet.single c)
  | oneOf set => .char set
  | look assertion => .look assertion

/-- A hexadecimal digit. -/
def isHexDigit (c : Char) : Bool :=
  c.isDigit || ('a' ≤ c && c ≤ 'f') || ('A' ≤ c && c ≤ 'F')

/-- The value of a hexadecimal digit. -/
def hexValue (c : Char) : Nat :=
  if c.isDigit then c.toNat - 48 else if 'a' ≤ c then c.toNat - 87 else c.toNat - 55

/-- The character whose code point the digits spell, if there is one. -/
def charOfHex (digits : List Char) : Option Char :=
  let n := digits.foldl (fun n c => 16 * n + hexValue c) 0
  if digits ≠ [] ∧ n.isValidChar then some (Char.ofNat n) else none

/-- The digits up to a closing brace, read after the opening one. -/
def readBracedHex (fuel : Nat) (digits : List Char) (s : State) : Option (Char × State) :=
  match fuel with
  | 0 => none
  | fuel + 1 =>
    match s.rest with
    | [] => none
    | c :: cs =>
      if c == '}' then (charOfHex digits.reverse).map fun ch => (ch, s.after cs)
      else if isHexDigit c then readBracedHex fuel (c :: digits) (s.after cs)
      else none

/-- A given number of digits. -/
def readFixedHex (count : Nat) (digits : List Char) (s : State) : Option (Char × State) :=
  match count with
  | 0 => (charOfHex digits.reverse).map fun ch => (ch, s)
  | count + 1 =>
    match s.rest with
    | [] => none
    | c :: cs => if isHexDigit c then readFixedHex count (c :: digits) (s.after cs) else none

/-- The digits of a character escape, read after its letter. -/
def readHex (count : Nat) (s : State) : Option (Char × State) :=
  match s.rest with
  | '{' :: cs => readBracedHex (cs.length + 1) [] (s.after cs)
  | _ => readFixedHex count [] s

/-- The letters of a word boundary in braces. -/
def isBoundaryChar (c : Char) : Bool := c.isAlpha || c == '-'

/-- The letters up to the first other character. -/
def readBoundaryName (fuel : Nat) (name : List Char) (s : State) : List Char × State :=
  match fuel with
  | 0 => (name.reverse, s)
  | fuel + 1 =>
    match s.rest with
    | [] => (name.reverse, s)
    | c :: cs =>
      if isBoundaryChar c then readBoundaryName fuel (c :: name) (s.after cs)
      else (name.reverse, s)

/-- A word boundary, read after its letter.  Braces that start with a letter or a hyphen name a
kind of boundary; other braces are left for a repetition. -/
def readBoundary (s : State) : Option (Look × State) :=
  match s.rest with
  | '{' :: cs =>
    let inner := s.after cs
    match inner.rest with
    | [] => none
    | c :: _ =>
      if isBoundaryChar c then
        let (name, s') := readBoundaryName inner.rest.length [] inner
        match s'.rest with
        | '}' :: cs' =>
          let look? : Option Look :=
            if name = "start".toList then some .wordStart
            else if name = "end".toList then some .wordStop
            else if name = "start-half".toList then some .wordStartHalf
            else if name = "end-half".toList then some .wordStopHalf
            else none
          look?.map fun look => (look, s'.withRest cs')
        | _ => none
      else some (.wordBoundary, s)
  | _ => some (.wordBoundary, s)

/-- An escape, read after its backslash.  Punctuation stands for itself. -/
def readEscape (s : State) : Option (Atom × State) :=
  match s.rest with
  | [] => none
  | c :: cs =>
    let s' := s.withRest cs
    let literal (ch : Char) : Option (Atom × State) := some (.literal ch, s')
    let oneOf (set : CharSet) : Option (Atom × State) := some (.oneOf set, s')
    match c with
    | 'x' => (readHex 2 s'.skip).map fun (ch, s'') => (.literal ch, s'')
    | 'u' => (readHex 4 s'.skip).map fun (ch, s'') => (.literal ch, s'')
    | 'U' => (readHex 8 s'.skip).map fun (ch, s'') => (.literal ch, s'')
    | 'd' => oneOf .digit
    | 'D' => oneOf (CharSet.complement .digit)
    | 's' => oneOf .space
    | 'S' => oneOf (CharSet.complement .space)
    | 'w' => oneOf .word
    | 'W' => oneOf (CharSet.complement .word)
    | 'a' => literal (Char.ofNat 7)
    | 'f' => literal (Char.ofNat 12)
    | 't' => literal '\t'
    | 'n' => literal '\n'
    | 'r' => literal '\r'
    | 'v' => literal (Char.ofNat 11)
    | 'A' => some (.look .start, s')
    | 'z' => some (.look .stop, s')
    | 'b' => (readBoundary s').map fun (look, s'') => (.look look, s'')
    | 'B' => some (.look .notWordBoundary, s')
    | '<' => some (.look .wordStart, s')
    | '>' => some (.look .wordStop, s')
    | _ => if c.val < 128 && !c.isAlphanum then literal c else none

/-! ## Classes -/

/-- The characters that a class in colons and brackets names. -/
def namedClass (name : List Char) : Option CharSet :=
  [("alnum", [('0', '9'), ('A', 'Z'), ('a', 'z')]), ("alpha", [('A', 'Z'), ('a', 'z')]),
    ("ascii", [(Char.ofNat 0, Char.ofNat 127)]), ("blank", [('\t', '\t'), (' ', ' ')]),
    ("cntrl", [(Char.ofNat 0, Char.ofNat 31), (Char.ofNat 127, Char.ofNat 127)]),
    ("digit", [('0', '9')]), ("graph", [('!', '~')]), ("lower", [('a', 'z')]),
    ("print", [(' ', '~')]), ("punct", [('!', '/'), (':', '@'), ('[', Char.ofNat 0x60),
      ('{', '~')]), ("space", [('\t', '\r'), (' ', ' ')]), ("upper", [('A', 'Z')]),
    ("word", [('0', '9'), ('A', 'Z'), ('_', '_'), ('a', 'z')]),
    ("xdigit", [('0', '9'), ('A', 'F'), ('a', 'f')])].lookup (String.ofList name)
    |>.map CharSet.ofRanges

/-- A named class such as `[:alpha:]` or `[:^alpha:]`, read after its first bracket. -/
def readNamedClass : List Char → Option (CharSet × List Char)
  | ':' :: cs =>
    let (negated, cs) := match cs with
      | '^' :: cs' => (true, cs')
      | _ => (false, cs)
    match cs.dropWhile (· != ':') with
    | ':' :: ']' :: rest =>
      (namedClass (cs.takeWhile (· != ':'))).map fun set =>
        (if negated then set.complement else set, rest)
    | _ => none
  | _ => none

/-- One character or escape of a class. -/
def readClassItem (s : State) : Option (Atom × State) :=
  match s.rest with
  | [] => none
  | '\\' :: cs => readEscape (s.withRest cs)
  | c :: cs => some (.literal c, s.withRest cs)

/-- The characters that an item of a class adds. -/
def Atom.classSet : Atom → Option CharSet
  | literal c => some (.single c)
  | oneOf set => some set
  | look _ => none

/-- A single item, or a range of characters from one literal to another. -/
def readClassRange (s : State) : Option (CharSet × State) := do
  let (item, s) ← readClassItem s
  let s := s.skip
  match s.rest with
  | [] => none
  | '-' :: cs =>
    let next := s.after cs
    match next.rest with
    | ']' :: _ | '-' :: _ => item.classSet.map (·, s)
    | [] => none
    | _ =>
      let (last, s) ← readClassItem next
      match item, last with
      | .literal a, .literal b => if a ≤ b then some (.range a b, s) else none
      | _, _ => none
  | _ => item.classSet.map (·, s)

/-- The items of a class up to its closing bracket. -/
def readClassItems (fuel : Nat) (acc : CharSet) (s : State) : Option (CharSet × State) :=
  match fuel with
  | 0 => none
  | fuel + 1 =>
    let s := s.skip
    match s.rest with
    | [] => none
    | ']' :: cs => some (acc, s.withRest cs)
    | '[' :: cs => do
      let (set, rest) ← readNamedClass cs
      readClassItems fuel (acc.union set) (s.withRest rest)
    | '&' :: '&' :: _ => none
    | '-' :: '-' :: _ => none
    | '~' :: '~' :: _ => none
    | _ => do
      let (set, s) ← readClassRange s
      readClassItems fuel (acc.union set) s

/-- The hyphens at the start of a class, which stand for themselves. -/
def readHyphens (fuel : Nat) (seen : Bool) (s : State) : Bool × State :=
  match fuel with
  | 0 => (seen, s)
  | fuel + 1 =>
    match s.rest with
    | '-' :: cs => readHyphens fuel true (s.after cs)
    | _ => (seen, s)

/-- A class, read after its opening bracket.  A closing bracket that comes first stands for
itself. -/
def readClass (s : State) : Option (Regex × State) := do
  let s := s.skip
  let (negated, s) := match s.rest with
    | '^' :: cs => (true, s.after cs)
    | _ => (false, s)
  let (hyphen, s) := readHyphens s.rest.length false s
  let start : CharSet := if hyphen then .single '-' else .none
  let (start, s) := match s.rest with
    | ']' :: cs => if hyphen then (start, s) else (CharSet.single ']', s.after cs)
    | _ => (start, s)
  let (set, s) ← readClassItems (s.rest.length + 1) start s
  let set := if s.flags.ignoreCase then set.foldCase else set
  pure (.char (if negated then set.complement else set), s)

/-! ## Repetitions -/

/-- The largest count that can be written. -/
def maxCount : Nat := UInt32.size - 1

/-- Digits, where blanks and comments between them are skipped if the flags ask for it. -/
def readDigits (fuel : Nat) (digits : List Char) (s : State) : List Char × State :=
  match fuel with
  | 0 => (digits.reverse, s)
  | fuel + 1 =>
    match s.rest with
    | [] => (digits.reverse, s)
    | c :: cs =>
      if c.isDigit then readDigits fuel (c :: digits) (s.after cs) else (digits.reverse, s)

/-- A count, which spaces may surround. -/
def readCount (s : State) : Option (Nat × State) :=
  let s := s.withRest (s.rest.dropWhile Unicode.isSpace)
  let (digits, s) := readDigits s.rest.length [] s
  let n := digits.foldl (fun n c => 10 * n + (c.toNat - 48)) 0
  if digits = [] ∨ n > maxCount then none
  else some (n, s.withRest (s.rest.dropWhile Unicode.isSpace))

/-- Whether the repetition that was just read is greedy; a question mark says that it is not. -/
def readGreed (s : State) : Bool × State :=
  match s.rest with
  | '?' :: cs => (s.flags.swapGreed, s.withRest cs)
  | _ => (!s.flags.swapGreed, s)

/-- A counted repetition of a pattern, read after its opening brace. -/
def readCounted (sub : Regex) (s : State) : Option (Regex × State) := do
  let s := s.skip
  let (least, s) ← readCount s
  let (most, s) ← match s.rest with
    | ',' :: cs =>
      let s := s.after cs
      match s.rest with
      | '}' :: _ => some (none, s)
      | _ => (readCount s).map fun (n, s) => (some n, s)
    | _ => some (some least, s)
  match s.rest with
  | '}' :: cs =>
    let (greedy, s) := readGreed (s.after cs)
    if most.all (least ≤ ·) then some (.repetition least most greedy sub, s) else none
  | _ => none

/-! ## Groups -/

/-- A name starts with a letter or a low line. -/
def isNameStart (c : Char) : Bool := c == '_' || Unicode.isAlphabetic c

/-- A name goes on with letters, numbers, low lines, dots and brackets. -/
def isNameChar (c : Char) : Bool :=
  c == '_' || c == '.' || c == '[' || c == ']' || Unicode.isAlphanumeric c

/-- The name of a group up to its closing bracket.  A name is used once. -/
def readGroupName (s : State) : Option State :=
  let name := s.rest.takeWhile (· != '>')
  match s.rest.dropWhile (· != '>') with
  | '>' :: cs =>
    if name.head?.any isNameStart && name.all isNameChar && !s.names.contains name then
      some { s with rest := cs, names := name :: s.names }
    else none
  | _ => none

/-- Sets or clears the flag that a letter stands for. -/
def setFlag (flags : Flags) (value : Bool) : Char → Option Flags
  | 'i' => some { flags with ignoreCase := value }
  | 'm' => some { flags with multiLine := value }
  | 's' => some { flags with dotAll := value }
  | 'U' => some { flags with swapGreed := value }
  | 'R' => some { flags with carriageReturns := value }
  | 'x' => some { flags with extended := value }
  | 'u' => some flags
  | _ => none

/-- Flag letters up to a colon or a closing parenthesis.  No letter comes twice; those after a
hyphen are cleared. -/
def readFlags (value : Bool) (seen : List Char) (flags : Flags) :
    List Char → Option (Flags × List Char)
  | [] => none
  | c :: cs =>
    if c == ':' || c == ')' then
      if seen.head? = some '-' then none else some (flags, c :: cs)
    else if c == '-' then
      if value then readFlags false ('-' :: seen) flags cs else none
    else if seen.contains c then none
    else do readFlags value (c :: seen) (← setFlag flags value c) cs

/-- What an opening parenthesis begins. -/
inductive Opening where
  /-- Flags for the rest of the enclosing group; a closing parenthesis follows. -/
  | flags (s : State)
  /-- A group; its content follows. -/
  | group (s : State)

/-- Reads the beginning of a group, after its parenthesis. -/
def readOpening (s : State) : Option Opening :=
  let s := s.skip
  match s.rest with
  | '?' :: '=' :: _ | '?' :: '!' :: _ => none
  | '?' :: '<' :: '=' :: _ | '?' :: '<' :: '!' :: _ => none
  | '?' :: 'P' :: '<' :: cs | '?' :: '<' :: cs => (readGroupName (s.withRest cs)).map .group
  | '?' :: cs => do
    let (flags, rest) ← readFlags true [] s.flags cs
    match rest with
    | ':' :: rest => some (.group { s with rest := rest, flags := flags })
    | _ =>
      if rest.length = cs.length then none
      else some (.flags { s with rest := rest, flags := flags })
  | _ => some (.group s)

/-! ## Whole patterns -/

/-- The assertion of a caret. -/
def startLook (flags : Flags) : Look :=
  if !flags.multiLine then .start else if flags.carriageReturns then .startCRLF else .startLF

/-- The assertion of a dollar sign. -/
def stopLook (flags : Flags) : Look :=
  if !flags.multiLine then .stop else if flags.carriageReturns then .stopCRLF else .stopLF

/-- The characters that a dot matches. -/
def dotSet (flags : Flags) : CharSet := fun x =>
  flags.dotAll || (x != '\n' && !(flags.carriageReturns && x == '\r'))

/-- Reads alternatives up to a closing parenthesis or the end.  The alternatives and the elements
that have been read are given last first; `depth` groups are open. -/
def readAlternatives (fuel depth : Nat) (alts items : List Regex) (s : State) :
    Option (Regex × State) :=
  match fuel with
  | 0 => none
  | fuel + 1 =>
    let s := s.skip
    let finish : Regex := .alternatives ((Regex.sequence items.reverse :: alts).reverse)
    match s.rest with
    | [] => if depth = 0 then some (finish, s) else none
    | '(' :: cs => do
      match ← readOpening (s.withRest cs) with
      | .flags s =>
        match s.rest with
        | ')' :: cs => readAlternatives fuel depth alts items (s.withRest cs)
        | _ => none
      | .group inner =>
        if depth ≥ maxDepth then none
        else
          let (sub, inner) ← readAlternatives fuel (depth + 1) [] [] inner
          readAlternatives fuel depth alts (sub :: items) { inner with flags := s.flags }
    | ')' :: cs => if depth = 0 then none else some (finish, s.withRest cs)
    | '|' :: cs => readAlternatives fuel depth (.sequence items.reverse :: alts) [] (s.withRest cs)
    | '[' :: cs => do
      let (set, s) ← readClass (s.withRest cs)
      readAlternatives fuel depth alts (set :: items) s
    | c :: cs =>
      if c == '?' || c == '*' || c == '+' then
        match items with
        | [] => none
        | sub :: items =>
          let (greedy, s) := readGreed (s.withRest cs)
          let least := if c == '+' then 1 else 0
          let most := if c == '?' then some 1 else none
          readAlternatives fuel depth alts (.repetition least most greedy sub :: items) s
      else if c == '{' then
        match items with
        | [] => none
        | sub :: items => do
          let (counted, s) ← readCounted sub (s.withRest cs)
          readAlternatives fuel depth alts (counted :: items) s
      else if c == '\\' then do
        let (atom, s) ← readEscape (s.withRest cs)
        readAlternatives fuel depth alts (atom.regex s.flags :: items) s
      else
        let item : Regex :=
          if c == '.' then .char (dotSet s.flags)
          else if c == '^' then .look (startLook s.flags)
          else if c == '$' then .look (stopLook s.flags)
          else (Atom.literal c).regex s.flags
        readAlternatives fuel depth alts (item :: items) (s.withRest cs)

/-- The pattern that a text spells, if it spells one. -/
def Regex.ofChars? (cs : List Char) : Option Regex :=
  (readAlternatives (2 * cs.length + 2) 0 [] [] { rest := cs }).map (·.1)

end SelectionLadder.Pattern
