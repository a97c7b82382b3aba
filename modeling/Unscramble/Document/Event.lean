import Unscramble.Document.Entity
import Unscramble.Document.Markup
import Unscramble.Text.Split

/-! A scanner for documents. It walks over the characters once and answers the events in the order in
which they are met; nothing follows a `flaw`. -/
namespace Unscramble.Document

/-- The white space of markup, which is narrower than that of texts. -/
def isSpace (c : Char) : Bool := c == ' ' || c == '\t' || c == '\n' || c == '\r'

/-- Reads the attributes of a tag. Each turn uses up at least one character, so the length of
the text bounds the number of turns. -/
def readAttributes : Nat → Attributes → List Char → Except Error Attributes
  | 0, found, _ => .ok found
  | turns + 1, found, s =>
    match s.dropWhile isSpace with
    | [] => .ok found
    | c :: rest =>
      let (more, rest) := rest.span fun c => c != '=' && !isSpace c
      match rest.dropWhile isSpace with
      | '=' :: rest =>
        let key := String.ofList (c :: more)
        if (found.get? key).isSome then .error .markupAttribute
        else
          match rest.dropWhile isSpace with
          | quote :: rest =>
            if quote == '"' || quote == '\'' then
              match rest.span (· != quote) with
              | (value, _ :: rest) =>
                match decode value with
                | some value => readAttributes turns (found.set key (String.ofList value)) rest
                | none => .error .markup
              | (_, []) => .error .markupAttribute
            else .error .markupAttribute
          | [] => .error .markupAttribute
      | _ => .error .markupAttribute

/-- The event of the text between the brackets of a tag. -/
def tagEvent (content : List Char) : Event :=
  let read (content : List Char) : String × Except Error Attributes :=
    let (tag, rest) := content.span (!isSpace ·)
    (String.ofList tag, readAttributes rest.length .empty rest)
  match Text.dropEnd? ['/'] content with
  | some content => .single (read content).1 (read content).2
  | none => .opening (read content).1 (read content).2

/-- What a scan is inside of, with the characters met so far, last first. In a tag, `quote` is the
quote that is open. -/
inductive Mode where
  | content (met : List Char)
  | markup
  | tag (quote : Option Char) (met : List Char)
  | closing (quote : Option Char) (met : List Char)
  | instruction (met : List Char)
  | declaration
  | comment (met : List Char)
  | verbatim (met : List Char)
  | doctype (depth : Nat) (met : List Char)

/-- The text that ends here, if there is any, and then what comes after it. -/
def flush (met : List Char) (after : List Event) : List Event :=
  if met.isEmpty then after
  else
    match decode met.reverse with
    | some content => .text (String.ofList content) :: after
    | none => [.flaw .markup]

/-- A name in a closing tag, without the white space behind it. -/
def closingName (met : List Char) : String :=
  let name := met.dropWhile isSpace
  String.ofList (if name.isEmpty then met.reverse else name.reverse)

def startsIgnoringCase (start s : List Char) : Bool :=
  Text.startsBy (fun a b => a.toLower == b.toLower) start s

/-- The quote that is open behind a character. A bracket between quotes does not end a tag. -/
def quoteAfter (c : Char) : Option Char → Option Char
  | some quote => if c == quote then none else some quote
  | none => if c == '"' || c == '\'' then some c else none

/-- Scans what follows, given what the scan is inside of and the tags that are open. -/
def scan : List String → Mode → List Char → List Event
  | _, .content met, [] => flush met []
  | _, _, [] => [.flaw .markup]
  | opened, .content met, c :: rest =>
    if c == '<' then flush met (scan opened .markup rest)
    else scan opened (.content (c :: met)) rest
  | opened, .markup, c :: rest =>
    if c == '!' then scan opened .declaration rest
    else if c == '/' then scan opened (.closing none []) rest
    else if c == '?' then scan opened (.instruction []) rest
    else if c == '>' then tagEvent [] :: scan ("" :: opened) (.content []) rest
    else scan opened (.tag (quoteAfter c none) [c]) rest
  | opened, .tag quote met, c :: rest =>
    if c == '>' && quote.isNone then
      let event := tagEvent met.reverse
      match event with
      | .opening tag _ => event :: scan (tag :: opened) (.content []) rest
      | _ => event :: scan opened (.content []) rest
    else scan opened (.tag (quoteAfter c quote) (c :: met)) rest
  | opened, .closing quote met, c :: rest =>
    if c == '>' && quote.isNone then
      match opened with
      | tag :: outer =>
        if closingName met == tag then .closing tag :: scan outer (.content []) rest
        else [.flaw .markup]
      | [] => [.flaw .markup]
    else scan opened (.closing (quoteAfter c quote) (c :: met)) rest
  | opened, .instruction met, c :: rest =>
    if c == '>' && met.head? == some '?' then .layout :: scan opened (.content []) rest
    else if c == '>' && met.isEmpty then [.flaw .markup]
    else scan opened (.instruction (c :: met)) rest
  | opened, .declaration, c :: rest =>
    if c == '-' then scan opened (.comment [c]) rest
    else if c == '[' then scan opened (.verbatim [c]) rest
    else if c == 'D' || c == 'd' then scan opened (.doctype 0 [c]) rest
    else [.flaw .markup]
  | opened, .comment met, c :: rest =>
    if c == '>' && 4 ≤ met.length && ['-', '-'].isPrefixOf met then
      if ['-', '-'].isSuffixOf met then .layout :: scan opened (.content []) rest
      else [.flaw .markup]
    else scan opened (.comment (c :: met)) rest
  | opened, .verbatim met, c :: rest =>
    if c == '>' && [']', ']'].isPrefixOf met then
      match Text.dropStart? ['[', 'C', 'D', 'A', 'T', 'A', '['] met.reverse with
      | some content =>
        .verbatim (String.ofList (content.take (content.length - 2))) ::
          scan opened (.content []) rest
      | none => [.flaw .markup]
    else scan opened (.verbatim (c :: met)) rest
  | opened, .doctype depth met, c :: rest =>
    if c == '>' && depth == 0 then
      let name := ['D', 'O', 'C', 'T', 'Y', 'P', 'E']
      if startsIgnoringCase name met.reverse && (met.reverse.drop name.length).any (!isSpace ·) then
        .layout :: scan opened (.content []) rest
      else [.flaw .markup]
    else
      let depth := if c == '<' then depth + 1 else if c == '>' then depth - 1 else depth
      scan opened (.doctype depth (c :: met)) rest

/-- The events of a document; a byte order mark in front is no part of it. -/
def events (document : String) : List Event :=
  match document.toList with
  | '\uFEFF' :: rest => scan [] (.content []) rest
  | document => scan [] (.content []) document

end Unscramble.Document
