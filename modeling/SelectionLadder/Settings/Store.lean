import SelectionLadder.Settings.Document

/-!
# Stored settings

Settings are loaded from files and saved to files.  What has not been saved yet or cannot be
understood loads as the defaults; only a file that cannot be read is an error.

The directory that the files are in is a `Tree`: a set of paths, each of a file with bytes or of a
directory.  Its root is always there.
-/

namespace SelectionLadder.Settings

/-- What a path leads to. -/
inductive Entry where
  | file (content : ByteArray)
  | directory

/-- The names on the way from the root to a file or directory. -/
abbrev Path := List String

/-- What is stored, by path.  Of entries with the same path the first one counts. -/
abbrev Tree := List (Path × Entry)

/-- The system refuses to read or write. -/
inductive StoreError where
  | io
deriving DecidableEq

namespace Tree

/-- What a path leads to. -/
def entry? (t : Tree) (p : Path) : Option Entry :=
  if p = [] then some .directory else t.lookup p

/-- Makes the directories on the way to `base` and then `names`, where they are missing. -/
def makeDirectories (t : Tree) (base : Path) : Path → Except StoreError Tree
  | [] => .ok t
  | name :: names =>
    let here := base ++ [name]
    match t.entry? here with
    | some .directory => t.makeDirectories here names
    | some (.file _) => .error .io
    | none => makeDirectories ((here, .directory) :: t) here names

/-- Writes a file, in a directory that is there. -/
def write (t : Tree) (p : Path) (content : ByteArray) : Except StoreError Tree :=
  match t.entry? p with
  | some .directory => .error .io
  | _ => .ok ((p, .file content) :: t)

end Tree

/-- The path that is written with slashes.  A name `.` stays where it is and `..` goes back; a
text that ends in a slash or in one of these can only be the path of a directory. -/
def readPath (text : String) : Path × Bool :=
  let names := text.splitOn "/"
  let step (p : Path) (name : String) : Path :=
    if name = "" ∨ name = "." then p else if name = ".." then p.dropLast else p ++ [name]
  (names.foldl step [], names.getLast?.any (· ∈ ["", ".", ".."]))

/-- Loads settings. -/
def load (t : Tree) (p : Path) : Except StoreError Settings :=
  match t.entry? p with
  | none => .ok {}
  | some .directory => .error .io
  | some (.file content) =>
    match String.fromUTF8? content with
    | none => .error .io
    | some text => .ok ((ofText text).toOption.getD {})

/-- Saves settings, and makes the directories on the way. -/
def save (s : Settings) (t : Tree) (p : Path) : Except StoreError Tree := do
  let t ← t.makeDirectories [] p.dropLast
  t.write p s.toText.toUTF8

end SelectionLadder.Settings
