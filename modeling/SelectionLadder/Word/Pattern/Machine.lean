import SelectionLadder.Word.Basic
import SelectionLadder.Word.Pattern.Syntax

/-!
# Matching patterns

A pattern becomes a machine whose states read a character, test an assertion or branch with a
preference.  The machine runs all ways of matching in step, in order of preference, and keeps one
thread per state, so the time is bounded by the size of the machine and the length of the line.
The match found starts as early as possible, and among those that start there it is the preferred
one.
-/

namespace SelectionLadder.Pattern

/-- A state of the machine. -/
inductive Instruction where
  /-- Reads a character of the set and goes on. -/
  | char (set : CharSet) (next : Nat)
  /-- Goes on if the assertion holds. -/
  | look (look : Look) (next : Nat)
  /-- Goes both ways, and prefers the first. -/
  | split (first second : Nat)
  /-- Ends a match. -/
  | accept

/-- A machine under construction. -/
abbrev Program := Array Instruction

/-- Branches to a body and to what follows it, in the order that greed asks for. -/
def branch (greedy : Bool) (body next : Nat) : Instruction :=
  if greedy then .split body next else .split next body

/-- Adds what `one` builds `count` times, each time going on with the one built before. -/
def addCopies (one : Nat → Program → Nat × Program) : Nat → Nat → Program → Nat × Program
  | 0, next, p => (next, p)
  | count + 1, next, p =>
    let (entry, p) := one next p
    addCopies one count entry p

/-- Adds what `one` builds `count` times, where each copy may be left out with all that follow. -/
def addOptional (one : Nat → Program → Nat × Program) (greedy : Bool) (exit : Nat) :
    Nat → Nat → Program → Nat × Program
  | 0, next, p => (next, p)
  | count + 1, next, p =>
    let (entry, p) := one next p
    addOptional one greedy exit count p.size (p.push (branch greedy entry exit))

/-- Adds a loop that runs the body at least once; returns the entry of the body.  The first state
added is the one that decides whether to run it again. -/
def addLoop (one : Nat → Program → Nat × Program) (greedy : Bool) (next : Nat) (p : Program) :
    Nat × Program :=
  let loop := p.size
  let (entry, p) := one loop (p.push .accept)
  (entry, p.setIfInBounds loop (branch greedy entry next))

/-- Adds the states of a pattern that goes on with the state `next`; returns the entry. -/
def Regex.compile : Regex → Nat → Program → Nat × Program
  | empty, next, p => (next, p)
  | char set, next, p => (p.size, p.push (.char set next))
  | look assertion, next, p => (p.size, p.push (.look assertion next))
  | seq a b, next, p =>
    let (entry, p) := b.compile next p
    a.compile entry p
  | alt a b, next, p =>
    let (first, p) := a.compile next p
    let (second, p) := b.compile next p
    (p.size, p.push (.split first second))
  | repetition least (some most) greedy sub, next, p =>
    let (entry, p) := addOptional sub.compile greedy next (most - least) next p
    addCopies sub.compile least entry p
  | repetition (least + 1) none greedy sub, next, p =>
    let (entry, p) := addLoop sub.compile greedy next p
    addCopies sub.compile least entry p
  | repetition 0 none greedy sub, next, p =>
    let loop := p.size
    let (entry, p) := addLoop sub.compile greedy next p
    if sub.matchesEmpty then (p.size, p.push (branch greedy entry next)) else (loop, p)

/-- A machine with the state that it starts in. -/
structure Machine where
  program : Program
  start : Nat

/-- The machine of a pattern. -/
def Machine.ofRegex (r : Regex) : Machine :=
  let (start, program) := r.compile 0 #[.accept]
  ⟨program, start⟩

/-! ## Running -/

/-- A thread: its state, and where its match starts. -/
structure Thread where
  state : Nat
  start : Nat

/-- Follows branches and assertions from the waiting threads, in order of preference.  The threads
that read or accept are added to `ready`, last first; a state is entered once. -/
def follow (program : Program) (before after : Option Char) :
    Nat → List Thread → Array Bool → List Thread → Array Bool × List Thread
  | 0, _, seen, ready => (seen, ready)
  | _ + 1, [], seen, ready => (seen, ready)
  | fuel + 1, t :: waiting, seen, ready =>
    if seen.getD t.state true then follow program before after fuel waiting seen ready
    else
      let seen := seen.setIfInBounds t.state true
      match program[t.state]? with
      | some (.look look next) =>
        if look.holds before after then
          follow program before after fuel (⟨next, t.start⟩ :: waiting) seen ready
        else follow program before after fuel waiting seen ready
      | some (.split first second) =>
        follow program before after fuel
          (⟨first, t.start⟩ :: ⟨second, t.start⟩ :: waiting) seen ready
      | _ => follow program before after fuel waiting seen (t :: ready)

/-- All threads that can be reached from the waiting ones without reading, in order. -/
def closure (m : Machine) (before after : Option Char) (waiting : List Thread) : List Thread :=
  let fuel := waiting.length + 2 * m.program.size + 1
  (follow m.program before after fuel waiting (.replicate m.program.size false) []).2.reverse

/-- The threads preferred to the first one that accepts, and where that one's match starts. -/
def cutAtAccept (m : Machine) : List Thread → List Thread × Option Nat
  | [] => ([], none)
  | t :: rest =>
    match m.program[t.state]? with
    | some .accept => ([], some t.start)
    | _ =>
      let (kept, accepted) := cutAtAccept m rest
      (t :: kept, accepted)

/-- The threads after reading a character, in order. -/
def step (m : Machine) (c : Char) (threads : List Thread) : List Thread :=
  threads.filterMap fun t =>
    match m.program[t.state]? with
    | some (Instruction.char set next) => if set c then some ⟨next, t.start⟩ else none
    | _ => none

/-- Runs the machine at a column with the threads that have got there and the best match so far.
New matches may start until there is one. -/
def run (m : Machine) (before : Option Char) (column : Nat) (threads : List Thread)
    (best : Option (Nat × Nat)) (rest : List Char) : Option (Nat × Nat) :=
  let waiting := if best.isNone then threads ++ [⟨m.start, column⟩] else threads
  let (kept, accepted) := cutAtAccept m (closure m before rest.head? waiting)
  let best := (accepted.map fun start => (start, column)).or best
  match rest with
  | [] => best
  | c :: cs =>
    if best.isSome && kept.isEmpty then best
    else run m (some c) (column + 1) (step m c kept) best cs

/-- The first match in the rest of a line that starts at a column, as columns. -/
def Machine.find (m : Machine) (before : Option Char) (column : Nat) (rest : List Char) :
    Option (Nat × Nat) :=
  run m before column [] none rest

/-- Cuts the rest of a line at the matches.  A match of no characters does not count, and after it
the search goes on one character further. -/
def matchPieces (m : Machine) : Nat → Option Char → Nat → List Char → List Piece
  | 0, _, _, rest => [⟨rest, false⟩]
  | fuel + 1, before, column, rest =>
    match m.find before column rest with
    | none => [⟨rest, false⟩]
    | some (start, stop) =>
      if column < stop then
        let gap := rest.take (start - column)
        let found := (rest.drop (start - column)).take (stop - start)
        ⟨gap, false⟩ :: ⟨found, true⟩ ::
          matchPieces m fuel (found.getLast?.or (gap.getLast?.or before)) stop
            (rest.drop (stop - column))
      else
        match rest with
        | [] => []
        | c :: cs => ⟨[c], false⟩ :: matchPieces m fuel (some c) (column + 1) cs

/-- Cuts a line at the matches of the machine. -/
def Machine.pieces (m : Machine) (line : Line) : List Piece :=
  matchPieces m (line.length + 1) none 0 line

end SelectionLadder.Pattern
