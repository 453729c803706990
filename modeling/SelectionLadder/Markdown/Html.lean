import SelectionLadder.Markdown.Source

/-!
# HTML in Markdown

Which lines start a block of HTML, and how far a piece of HTML within a line goes.  HTML has no
units of its own; it matters because Markdown inside it is not read.

The functions on pieces are given what follows the opening angle bracket, and give what follows
the piece.
-/

namespace SelectionLadder.Markdown.Html

/-- What follows the first occurrence of some characters. -/
def dropThrough (marker : List Char) : List Char → Option (List Char)
  | [] => none
  | c :: cs =>
    if marker.isPrefixOf (c :: cs) then some ((c :: cs).drop marker.length)
    else dropThrough marker cs

/-- A letter of ASCII. -/
def isLetter (c : Char) : Bool := c.isAlpha

/-- A letter or digit of ASCII. -/
def isWordChar (c : Char) : Bool := c.isAlphanum

/-! ## Tags -/

/-- What follows the name of an attribute. -/
def attributeName? : List Char → Option (List Char)
  | c :: cs =>
    if isLetter c || c == '_' || c == ':' then
      some (cs.dropWhile fun d => isWordChar d || d == '_' || d == '.' || d == ':' || d == '-')
    else none
  | [] => none

/-- What follows the value of an attribute. -/
def attributeValue? : List Char → Option (List Char)
  | [] => none
  | c :: cs =>
    if c = '"' ∨ c = '\'' then dropThrough [c] cs
    else if isGap c ∨ c = '=' ∨ c = '>' ∨ c = '<' ∨ c = '`' then none
    else some ((c :: cs).dropWhile fun d =>
      !(isGap d || d == '=' || d == '<' || d == '>' || d == '`' || d == '"' || d == '\''))

/-- What follows an attribute, which need not have a value. -/
def attribute? (cs : List Char) : Option (List Char) := do
  let afterName ← attributeName? cs
  match afterName.dropWhile isGap with
  | '=' :: value => attributeValue? (value.dropWhile isGap)
  | _ => some afterName

/-- What follows at most `count` attributes, each of which has a gap before it. -/
def attributes? : Nat → List Char → Option (List Char)
  | 0, _ => none
  | count + 1, cs =>
    match cs.dropWhile isGap with
    | [] => none
    | c :: after =>
      if c = '/' ∨ c = '>' then some (c :: after)
      else if cs.head?.all isGap then (attribute? (c :: after)).bind (attributes? count)
      else none

/-- What follows the angle bracket that closes a tag. -/
def closed? (cs : List Char) : Option (List Char) :=
  match cs.dropWhile isBlank with
  | '>' :: rest => some rest
  | _ => none

/-- What follows the name of a tag. -/
def tagName? : List Char → Option (List Char)
  | c :: cs => if isLetter c then some (cs.dropWhile fun d => isWordChar d || d == '-') else none
  | [] => none

/-- What follows an opening or a closing tag. -/
def tag? : List Char → Option (List Char)
  | '/' :: cs => (tagName? cs).bind closed?
  | cs => do
    let afterName ← tagName? cs
    let afterAttributes ← attributes? (afterName.length + 1) afterName
    match afterAttributes.dropWhile isBlank with
    | '/' :: rest => match rest with
      | '>' :: rest => some rest
      | _ => none
    | rest => closed? rest

/-! ## Other pieces -/

/-- What follows a declaration: letters, a gap, and anything up to an angle bracket. -/
def declaration? (cs : List Char) : Option (List Char) :=
  let after := cs.dropWhile isLetter
  if cs.head?.any isLetter ∧ after.head?.any isGap then dropThrough ['>'] after else none

/-- What follows a piece of HTML within a line. -/
def inline? : List Char → Option (List Char)
  | '!' :: '-' :: '-' :: cs => dropThrough "-->".toList ('-' :: '-' :: cs)
  | '!' :: '[' :: 'C' :: 'D' :: 'A' :: 'T' :: 'A' :: '[' :: cs => dropThrough "]]>".toList cs
  | '!' :: cs => declaration? cs
  | '?' :: cs => dropThrough "?>".toList cs
  | cs => tag? cs

/-! ## Blocks -/

/-- The elements whose content is not Markdown, with their closing tags. -/
def rawElements : List (String × String) :=
  [("pre", "</pre>"), ("style", "</style>"), ("script", "</script>"),
   ("textarea", "</textarea>")]

/-- The pieces that can go over several lines, with their ends. -/
def longPieces : List (String × String) :=
  [("!--", "-->"), ("?", "?>"), ("![CDATA[", "]]>")]

/-- What ends a block that starts with this raw element, long piece or declaration. -/
def blockEnd? (cs : List Char) : Option (List Char) :=
  let raw := rawElements.find? fun e =>
    let name := e.1.toList
    (cs.take name.length).map Char.toLower = name ∧
      (cs.drop name.length).head?.all fun c => isGap c || c == '>'
  let long := longPieces.find? fun e => e.1.toList.isPrefixOf cs
  match raw.or long with
  | some e => some e.2.toList
  | none =>
    match cs with
    | '!' :: c :: _ => if isLetter c then some ['>'] else none
    | _ => none

/-- The elements that make a block of their own, up to the next empty line. -/
def blockElements : List String :=
  ["address", "article", "aside", "base", "basefont", "blockquote", "body", "caption", "center",
   "col", "colgroup", "dd", "details", "dialog", "dir", "div", "dl", "dt", "fieldset",
   "figcaption", "figure", "footer", "form", "frame", "frameset", "h1", "h2", "h3", "h4", "h5",
   "h6", "head", "header", "hr", "html", "iframe", "legend", "li", "link", "main", "menu",
   "menuitem", "nav", "noframes", "ol", "optgroup", "option", "p", "param", "search", "section",
   "summary", "table", "tbody", "td", "tfoot", "th", "thead", "title", "tr", "track", "ul"]

/-- A tag of an element that makes a block starts here; the tag need not be complete. -/
def startsElement (cs : List Char) : Bool :=
  let cs := if cs.head? = some '/' then cs.drop 1 else cs
  let name := String.ofList ((cs.takeWhile isWordChar).map Char.toLower)
  let after := cs.dropWhile isWordChar
  blockElements.contains name &&
    (after.head?.all (fun c => c == ' ' || c == '\t' || c == '>') || "/>".toList.isPrefixOf after)

/-- A complete tag stands alone on the line. -/
def isLoneTag (cs : List Char) : Bool :=
  match tag? cs with
  | some rest => rest.all isBlank
  | none => false

/-- The line starts a block of HTML that can end a paragraph. -/
def interrupts : List Char → Bool
  | '<' :: cs => (blockEnd? cs).isSome || startsElement cs
  | _ => false

end SelectionLadder.Markdown.Html
