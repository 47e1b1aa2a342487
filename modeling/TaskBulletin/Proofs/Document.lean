import TaskBulletin.Bracket.Conversion
import TaskBulletin.Proofs.Token

/-!
# Documents

A document is a well-formed body as a tree: runs of text, elements with an opening
and a closing tag, and links that name their target in their body. Its source is
the bracket markup, its HTML is what it means: elements of the chat, anchors, and
nothing for the tags that the chat does not know.
-/

namespace TaskBulletin

namespace Bracket

/-- Text without square brackets and NULs. -/
structure Run where
  text : Text
  plain : ∀ c ∈ text, c ≠ '[' ∧ c ≠ ']' ∧ c ≠ '\x00'

/-- A tag's name as it is written, with letters of either case. -/
structure Spelled (name : Text) where
  text : Text
  upper : text.map Char.toUpper = name

inductive Tag where
  | style (style : Style)
  | link (target : Run)
  | image
  | color (value : Run)
  | size (value : Run)

namespace Tag

def name : Tag → Text
  | style s => s.tagName
  | link _ => "URL".toList
  | image => "IMG".toList
  | color _ => "COLOR".toList
  | size _ => "SIZE".toList

def valuePart : Tag → Text
  | style _ => []
  | link v => '=' :: v.text
  | image => []
  | color v => '=' :: v.text
  | size v => '=' :: v.text

/-- What the element means, around a body that is HTML already. -/
def html : Tag → Text → Text
  | style s, body => Html.element s.elementName body
  | link v, body => Html.anchorRaw (Html.escapeValue v.text) body
  | image, body => body
  | color _, body => body
  | size _, body => body

end Tag

inductive Document where
  | nil
  | text (run : Run) (rest : Document)
  | bareLink (opener closer : Spelled "URL".toList) (target : Run) (rest : Document)
  | element (tag : Tag) (opener closer : Spelled tag.name) (body rest : Document)

def openingTag (spelled value : Text) : Text := '[' :: spelled ++ (value ++ [']'])

def closingTag (spelled : Text) : Text := '[' :: '/' :: spelled ++ [']']

namespace Document

def pieces : Document → List (Piece Text)
  | nil => []
  | text run rest => run.text.map .plain ++ rest.pieces
  | bareLink opener closer target rest =>
    .hit (openingTag opener.text []) :: target.text.map .plain ++
      .hit (closingTag closer.text) :: rest.pieces
  | element tag opener closer body rest =>
    .hit (openingTag opener.text tag.valuePart) :: body.pieces ++
      .hit (closingTag closer.text) :: rest.pieces

def source (d : Document) : Text := Pattern.writeWith id d.pieces

/-- What a document means. -/
def html : Document → Text
  | nil => []
  | text run rest => Html.escape run.text ++ rest.html
  | bareLink _ _ target rest => Html.anchor target.text target.text ++ rest.html
  | element tag _ _ body rest => tag.html body.html ++ rest.html

def names : Document → List Text
  | nil => []
  | text _ rest => rest.names
  | bareLink _ _ _ rest => "URL".toList :: rest.names
  | element tag _ _ body rest => tag.name :: body.names ++ rest.names

/-- No tag occurs inside an element of its own name. -/
def NoSelfNesting : Document → Prop
  | nil => True
  | text _ rest => rest.NoSelfNesting
  | bareLink _ _ _ rest => rest.NoSelfNesting
  | element tag _ _ body rest => tag.name ∉ body.names ∧ body.NoSelfNesting ∧ rest.NoSelfNesting

def innerRuns (d : Document) : List Text := (Pattern.runsOf d.pieces).tail.dropLast

end Document

end Bracket

end TaskBulletin
