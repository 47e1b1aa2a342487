import TaskBulletin.Bracket.Stash
import TaskBulletin.Html.Escape

/-!
# Bracket tags

A tag is a name in square brackets, perhaps after a slash, perhaps with a value.
Before references are looked up and the text is escaped, every tag but those of
user mentions is put into a stash; afterwards the tags come back, with their
values escaped like the text around them.
-/

namespace TaskBulletin.Bracket

open Pattern

def notBracket (c : Char) : Bool := c != ']'

/-- An opening tag whose name takes a value; `head` is written with its equals
sign. The content of the match is the value. -/
def valued (head : Text) : Pattern (Span Text Text) :=
  between (word ('[' :: head)) notBracket (exact [']'])

/-- An element without a value: the shortest stretch between its two tags. -/
def paired (name : Text) : Pattern (Span Text Text) :=
  between (word ('[' :: name ++ [']'])) (fun _ => true) (word ('[' :: '/' :: name ++ [']']))

/-- An element with a value: the shortest stretch between its two tags. -/
def pairedWithValue (name : Text) : Pattern (Span (Span Text Text) Text) :=
  between (valued (name ++ ['='])) (fun _ => true) (word ('[' :: '/' :: name ++ [']']))

/-- Square brackets around anything but a closing bracket. -/
def bracketed : Pattern (Span Text Text) :=
  between (exact ['[']) notBracket (exact [']'])

/-- What may follow a tag's name: nothing, or an equals sign and a value. -/
def isValuePart : Text → Bool
  | [] => true
  | '=' :: value => !value.isEmpty
  | _ => false

def dropSlash : Text → Text
  | '/' :: t => t
  | t => t

theorem dropSlash_cons {c : Char} (hc : c ≠ '/') (t : Text) : dropSlash (c :: t) = c :: t := by
  rw [dropSlash]
  simpa using hc

/-- Do these characters between square brackets make a tag? -/
def isTagBody (body : Text) : Bool :=
  let t := dropSlash body
  !(t.takeWhile Text.isTagLetter).isEmpty && isValuePart (t.dropWhile Text.isTagLetter)

/-- Do they make the tag of a user mention? -/
def isMentionBody (body : Text) : Bool :=
  match Text.readWord "USER".toList (dropSlash body) with
  | some (_, rest) => isValuePart rest
  | none => false

def anyTag : Pattern (Span Text Text) := bracketed.filter fun t => isTagBody t.content

/-- The tags of user mentions, which are resolved before the text is escaped. -/
def mentionTag : Pattern (Span Text Text) := bracketed.filter fun t => isMentionBody t.content

/-- Stash every tag except those of mentions. -/
def stashTags (tags : Stash) (t : Text) : Text × Stash :=
  tags.stow anyTag mentionTag.covers t

/-- Bring the stashed tags back, escaped. -/
def unstashTags (tags : Stash) (t : Text) : Text := tags.putBack Html.escape t

/-- Escape a text and put the resolved fragments into it as they are. -/
def escapeAround (fragments : Stash) (t : Text) : Text := fragments.putBack id (Html.escape t)

end TaskBulletin.Bracket
