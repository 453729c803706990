import SelectionLadder.Json.Basic

/-!
# Tokens of JSON

A text is cut into tokens up to its end or to the first place where no token can be read.  What is
wrong there can depend on what the text is read for: a value that nobody asked for is passed over
with fewer checks than a value that is used.  So a broken token carries a fault for either case.

A string whose escapes stand for no sequence of characters, since a surrogate is not one of a
pair, is a token all the same: it is only wrong where it is used.
-/

namespace SelectionLadder.Json

/-- What is wrong with a text that should hold a value. -/
inductive Fault where
  /-- It is not JSON. -/
  | malformed
  /-- It ends too early. -/
  | truncated
  /-- It is JSON as far as it has been read, but not what was asked for. -/
  | unfit
deriving DecidableEq, Repr

/-- The fault that is met when a value is used, and the one when it is passed over. -/
structure Faults where
  whenUsed : Fault
  whenSkipped : Fault
deriving DecidableEq, Repr

namespace Faults

/-- A fault that is met in either case. -/
def both (f : Fault) : Faults := ⟨f, f⟩

/-- A number that stops where a digit has to follow. -/
def digitExpected (rest : List Char) : Faults :=
  if rest = [] then ⟨.truncated, .malformed⟩ else both .malformed

end Faults

/-- The smallest units of a text. -/
inductive Token where
  | openArray
  | closeArray
  | openObject
  | closeObject
  | comma
  | colon
  | null
  | bool (b : Bool)
  | number (n : Number)
  /-- A string, or `none` if its surrogates are not in pairs. -/
  | string (s : Option String)
  /-- A string that has a fault before its end. -/
  | brokenString (f : Faults)
  /-- Anything else that is no token. -/
  | broken (f : Faults)
deriving DecidableEq, Repr

/-! ## Strings -/

/-- A piece of a string: a character, or a unit of 16 bits that is written as an escape. -/
inductive Unit16 where
  | char (c : Char)
  | unit (n : Nat)
deriving DecidableEq, Repr

/-- The value of a hexadecimal digit. -/
def hexDigit? (c : Char) : Option Nat :=
  if '0' ≤ c ∧ c ≤ '9' then some (c.toNat - '0'.toNat)
  else if 'a' ≤ c ∧ c ≤ 'f' then some (c.toNat - 'a'.toNat + 10)
  else if 'A' ≤ c ∧ c ≤ 'F' then some (c.toNat - 'A'.toNat + 10)
  else none

/-- The number that four hexadecimal digits spell. -/
def hexUnit? (a b c d : Char) : Option Nat :=
  ([a, b, c, d].mapM hexDigit?).map fun digits => digits.foldl (fun n k => 16 * n + k) 0

/-- What is wrong where four digits should follow: fewer than four bytes are left, or these are
not digits. -/
def hexFault (rest : List Char) : Fault :=
  if rest.foldr (fun c bytes => c.utf8Size + bytes) 0 < 4 then .truncated else .malformed

/-- What a single letter after a backslash stands for. -/
def simpleEscape? : Char → Option Char
  | '"' => some '"'
  | '\\' => some '\\'
  | '/' => some '/'
  | 'b' => some '\x08'
  | 'f' => some '\x0c'
  | 'n' => some '\n'
  | 'r' => some '\r'
  | 't' => some '\t'
  | _ => none

/-- The pieces up to the closing quote, then the rest of the text or what is wrong. -/
def stringPieces : List Char → List Unit16 × Except Fault (List Char)
  | [] => ([], .error .truncated)
  | ['\\'] => ([], .error .truncated)
  | '\\' :: 'u' :: a :: b :: c :: d :: rest =>
    match hexUnit? a b c d with
    | some n =>
      let following := stringPieces rest
      (.unit n :: following.1, following.2)
    | none => ([], .error .malformed)
  | '\\' :: e :: rest =>
    if e = 'u' then ([], .error (hexFault rest))
    else match simpleEscape? e with
      | some c =>
        let following := stringPieces rest
        (.char c :: following.1, following.2)
      | none => ([], .error .malformed)
  | c :: rest =>
    if c = '"' then ([], .ok rest)
    else if c.toNat < 0x20 then ([], .error .malformed)
    else
      let following := stringPieces rest
      (.char c :: following.1, following.2)

/-- The first of a pair of surrogates. -/
def isHigh (n : Nat) : Bool := 0xD800 ≤ n && n < 0xDC00

/-- The second of a pair of surrogates. -/
def isLow (n : Nat) : Bool := 0xDC00 ≤ n && n < 0xE000

/-- The characters of a string, unless a surrogate is not one of a pair. -/
def joinPieces : List Unit16 → Option (List Char)
  | [] => some []
  | .char c :: rest => (joinPieces rest).map (c :: ·)
  | [.unit n] => if isHigh n || isLow n then none else some [Char.ofNat n]
  | .unit n :: next :: rest =>
    if isHigh n then
      match next with
      | .unit m =>
        if isLow m then
          (joinPieces rest).map (Char.ofNat (0x10000 + (n - 0xD800) * 0x400 + (m - 0xDC00)) :: ·)
        else none
      | .char _ => none
    else if isLow n then none
    else (joinPieces (next :: rest)).map (Char.ofNat n :: ·)

/-- The pieces without a last one that may be the first of a pair. -/
def settledPieces (pieces : List Unit16) : List Unit16 :=
  match pieces.getLast? with
  | some (.unit n) => if isHigh n then pieces.dropLast else pieces
  | _ => pieces

/-- The string that follows a quote, and the rest of the text.  The surrogates before a fault are
looked at first by who uses the string. -/
def scanString (cs : List Char) : Token × List Char :=
  match stringPieces cs with
  | (pieces, .ok rest) => (.string ((joinPieces pieces).map String.ofList), rest)
  | (pieces, .error f) =>
    let used := if (joinPieces (settledPieces pieces)).isSome then f else .malformed
    (.brokenString ⟨used, f⟩, [])

/-! ## Numbers and words -/

/-- The exponent at the head of a text, if there is one, and what follows. -/
def scanExponent (cs : List Char) : Except Faults (Option Int × List Char) :=
  match cs with
  | e :: rest =>
    if e = 'e' ∨ e = 'E' then
      let (negative, rest) := match rest with
        | '-' :: rest => (true, rest)
        | '+' :: rest => (false, rest)
        | _ => (false, rest)
      let digits := rest.takeWhile Char.isDigit
      let after := rest.dropWhile Char.isDigit
      if digits = [] then .error (.digitExpected rest)
      else
        let size : Int := appendDigits 0 digits
        .ok (some (if negative then -size else size), after)
    else .ok (none, cs)
  | [] => .ok (none, cs)

/-- The fraction at the head of a text, if there is one, and what follows. -/
def scanFraction (cs : List Char) : Except Faults (List Char × List Char) :=
  match cs with
  | '.' :: rest =>
    let digits := rest.takeWhile Char.isDigit
    if digits = [] then .error (.digitExpected rest) else .ok (digits, rest.dropWhile Char.isDigit)
  | _ => .ok ([], cs)

/-- The number without its sign at the head of a text, and what follows.  It has no leading
zeros. -/
def scanUnsigned (negative : Bool) (cs : List Char) : Except Faults (Number × List Char) := do
  let digits := cs.takeWhile Char.isDigit
  if digits = [] then throw (.digitExpected cs)
  if digits.head? = some '0' ∧ digits ≠ ['0'] then throw (.both .malformed)
  let (fraction, rest) ← scanFraction (cs.dropWhile Char.isDigit)
  let (exponent, rest) ← scanExponent rest
  return (⟨negative, appendDigits 0 digits, fraction, exponent⟩, rest)

/-- The number at the head of a text. -/
def scanNumber (cs : List Char) : Token × List Char :=
  let result := match cs with
    | '-' :: rest => scanUnsigned true rest
    | _ => scanUnsigned false cs
  match result with
  | .ok (n, rest) => (.number n, rest)
  | .error f => (.broken f, [])

/-- The word that should stand at the head of a text, which is what `t` is written as. -/
def scanWord (t : Token) : List Char → List Char → Token × List Char
  | [], cs => (t, cs)
  | _ :: _, [] => (.broken (.both .truncated), [])
  | w :: ws, c :: cs => if w = c then scanWord t ws cs else (.broken (.both .malformed), [])

/-! ## Texts -/

/-- The token that starts with this character, and what follows. -/
def scanToken (c : Char) (rest : List Char) : Token × List Char :=
  if c = '[' then (.openArray, rest)
  else if c = ']' then (.closeArray, rest)
  else if c = '\x7b' then (.openObject, rest)
  else if c = '\x7d' then (.closeObject, rest)
  else if c = ',' then (.comma, rest)
  else if c = ':' then (.colon, rest)
  else if c = '"' then scanString rest
  else if c = '-' ∨ c.isDigit then scanNumber (c :: rest)
  else if c = 'n' then scanWord .null "null".toList (c :: rest)
  else if c = 't' then scanWord (.bool true) "true".toList (c :: rest)
  else if c = 'f' then scanWord (.bool false) "false".toList (c :: rest)
  else (.broken (.both .malformed), [])

/-- The characters that may stand between tokens. -/
def isBlank (c : Char) : Bool := c == ' ' || c == '\n' || c == '\r' || c == '\t'

/-- At most `count` tokens from the head of a text. -/
def scanTokens : Nat → List Char → List Token
  | 0, _ => []
  | count + 1, cs =>
    match cs.dropWhile isBlank with
    | [] => []
    | c :: rest =>
      let scanned := scanToken c rest
      scanned.1 :: scanTokens count scanned.2

/-- The tokens of a text, the last of which may be broken. -/
def tokens (text : String) : List Token := scanTokens text.length text.toList

end SelectionLadder.Json
