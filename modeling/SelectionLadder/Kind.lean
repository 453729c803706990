import SelectionLadder.Unicode.Lowercase

/-!
# Kinds of structural units

Parsers name the units of a document by tags.  A tag is mapped to a kind by its normal form, in
which case and the separators `-` and `_` do not count, so that `list-item`, `ListItem` and
`list_item` are one kind.  A tag that is not in the vocabulary is a kind of its own, spelling
included.
-/

namespace SelectionLadder

/-- What a unit of a document is. -/
inductive Kind where
  | document
  /-- A heading of a level, which is 1 to 6 when it comes from a tag. -/
  | heading (level : UInt8)
  | paragraph
  | blockquote
  | codeBlock
  | bulletList
  | orderedList
  | listItem
  | table
  | tableHead
  | tableRow
  | tableCell
  | emphasis
  | strong
  | strikethrough
  | inlineCode
  | link
  | image
  /-- Plain text, also text that no parser has claimed. -/
  | text
  /-- A unit with a tag outside the vocabulary. -/
  | other (tag : String)
deriving DecidableEq, Repr, Inhabited

namespace Kind

/-- The tags of each kind, in normal form. -/
def vocabulary : List (Kind × List String) :=
  [(document, ["document", "doc", "root"]),
   (paragraph, ["paragraph", "para", "p"]),
   (blockquote, ["blockquote", "quote"]),
   (codeBlock, ["codeblock", "fencedcode", "code"]),
   (bulletList, ["bulletlist", "unorderedlist", "ul"]),
   (orderedList, ["orderedlist", "ol"]),
   (listItem, ["listitem", "item", "li"]),
   (table, ["table"]),
   (tableHead, ["tablehead", "tableheader"]),
   (tableRow, ["tablerow"]),
   (tableCell, ["tablecell"]),
   (emphasis, ["emphasis", "em"]),
   (strong, ["strong", "strongemphasis"]),
   (strikethrough, ["strikethrough"]),
   (inlineCode, ["inlinecode"]),
   (link, ["link"]),
   (image, ["image"]),
   (text, ["text"])]

/-- The tags of headings, in normal form and without a level. -/
def headingStems : List String := ["atxheading", "setextheading", "heading", "h"]

/-- The tag in small letters and without separators. -/
def normalize (tag : String) : List Char :=
  Unicode.lowercase (tag.toList.filter fun c => c ≠ '-' ∧ c ≠ '_')

/-- The number that the characters spell, if they are digits and it is at most 255. -/
def level? (cs : List Char) : Option Nat :=
  if cs ≠ [] ∧ cs.all Char.isDigit then
    let n := cs.foldl (fun n c => 10 * n + (c.toNat - '0'.toNat)) 0
    if n ≤ 255 then some n else none
  else none

/-- The kind whose tags include this one. -/
def lookUp (stem : String) : Option Kind :=
  (vocabulary.find? fun entry => stem ∈ entry.2).map (·.1)

/-- The kind that a tag names.

The normal form is cut before its first digit.  A heading takes its level from the second part,
limited to 1 to 6; where that is no level, it is a heading of level 1.  Another tag is unknown if
its second part is a level, and is otherwise looked up by its first part. -/
def ofTag (tag : String) : Kind :=
  let normal := normalize tag
  let stem := String.ofList (normal.takeWhile (! ·.isDigit))
  let level := level? (normal.dropWhile (! ·.isDigit))
  if stem ∈ headingStems then heading (UInt8.ofNat (min (max (level.getD 1) 1) 6))
  else if level.isSome then other tag
  else (lookUp stem).getD (other tag)

/-- The kind as it is shown. -/
def display : Kind → String
  | document => "document"
  | heading level => s!"heading{level.toNat}"
  | paragraph => "paragraph"
  | blockquote => "blockquote"
  | codeBlock => "code-block"
  | bulletList => "bullet-list"
  | orderedList => "ordered-list"
  | listItem => "list-item"
  | table => "table"
  | tableHead => "table-head"
  | tableRow => "table-row"
  | tableCell => "table-cell"
  | emphasis => "emphasis"
  | strong => "strong"
  | strikethrough => "strikethrough"
  | inlineCode => "inline-code"
  | link => "link"
  | image => "image"
  | text => "text"
  | other tag => tag

end Kind

end SelectionLadder
