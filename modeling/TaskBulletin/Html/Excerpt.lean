import TaskBulletin.Text.Pattern

/-!
# Excerpts of HTML under a length budget

Length counts what a reader sees: a character, or a whole entity reference such
as the one for an ampersand. Tags count nothing. An excerpt keeps the tags and
the first tokens of a document up to its budget, drops the blanks before the
cut, adds an ellipsis and closes the elements that the cut left open, innermost
first. A document that fits is left as it is.
-/

namespace TaskBulletin.Html

open Pattern

/-- A tag: everything from an opening angle bracket to the next closing one, with
at least a character between them. -/
def tag : Pattern (Span Text Text) :=
  (between (exact ['<']) (· != '>') (exact ['>'])).filter fun t => !t.content.isEmpty

/-- The characters of an entity's name. -/
def isEntityCharacter (c : Char) : Bool := c.isAlphanum || c == '#'

/-- An entity reference: an ampersand, a name of ASCII letters, digits and number
signs, and a semicolon. -/
def entity : Pattern (Span Text Text) :=
  (between (exact ['&']) isEntityCharacter (exact [';'])).filter fun e => !e.content.isEmpty

/-- The visible tokens of a run of text: entity references and characters. -/
def tokens (t : Text) : List Text :=
  (entity.pieces t).map fun
    | .plain c => [c]
    | .hit e => entity.spelling e

def stripTags (t : Text) : Text := tag.rewrite (fun _ => []) t

def visibleSize (t : Text) : Nat := (tokens (stripTags t)).length

/-! ## Tags and the elements they open -/

/-- What a tag does to the elements that are open around it. -/
inductive TagRole where
  | opens (name : Text)
  | closes (name : Text)
  | neutral
  deriving Repr, DecidableEq

def voidElements : List Text :=
  ["br", "hr", "img", "input", "meta", "link", "source"].map String.toList

/-- The role of a tag, read off what stands between its angle brackets: its name
is the first run of ASCII letters and digits, in any case, after an optional
slash and blanks. A tag without a name has no role; nor has an opening tag that
ends in a slash or names an element without content. -/
def tagRole (inside : Text) : TagRole :=
  let (closing, body) :=
    match inside with
    | '/' :: rest => (true, rest)
    | _ => (false, inside)
  let name := Text.lowerAscii ((Text.trimStart body).takeWhile Char.isAlphanum)
  if name.isEmpty then .neutral
  else if closing then .closes name
  else if inside.getLast? == some '/' || voidElements.contains name then .neutral
  else .opens name

/-- The open elements, innermost first, after a tag. A closing tag that does not
name the innermost one leaves them alone. -/
def openAfter (opened : List Text) : TagRole → List Text
  | .opens name => name :: opened
  | .closes name =>
    match opened with
    | inner :: outer => if inner = name then outer else opened
    | [] => []
  | .neutral => opened

/-! ## Cutting -/

/-- A document as the cut sees it: tags, and the visible tokens of the runs
between them. -/
inductive Item where
  | tag (spelled : Text) (role : TagRole)
  | token (spelled : Text)
  deriving Repr, DecidableEq

/-- The items of pieces whose run of plain characters so far is `run`. -/
def itemsFrom (run : Text) : List (Piece (Span Text Text)) → List Item
  | [] => (tokens run).map .token
  | .plain c :: ps => itemsFrom (run ++ [c]) ps
  | .hit t :: ps =>
    (tokens run).map .token ++ .tag (tag.spelling t) (tagRole t.content) :: itemsFrom [] ps

def items (t : Text) : List Item := itemsFrom [] (tag.pieces t)

/-- What is kept of a document, and the elements that a cut leaves open. -/
structure Kept where
  text : Text
  /-- The open elements where the cut fell, or nothing if all was kept. -/
  cutInside : Option (List Text)
  deriving Repr, DecidableEq

/-- Keep tags, and tokens while the budget lasts. -/
def keep (budget : Nat) (opened : List Text) : List Item → Kept
  | [] => ⟨[], none⟩
  | .tag spelled role :: rest =>
    let kept := keep budget (openAfter opened role) rest
    { kept with text := spelled ++ kept.text }
  | .token spelled :: rest =>
    match budget with
    | 0 => ⟨[], some opened⟩
    | budget + 1 =>
      let kept := keep budget opened rest
      { kept with text := spelled ++ kept.text }

def ellipsis : Char := '…'

def closingTag (name : Text) : Text := '<' :: '/' :: name ++ ['>']

/-- A document cut to a budget of visible tokens. No budget leaves nothing. -/
def excerpt (budget : Int) (t : Text) : Text :=
  if budget ≤ 0 then []
  else if visibleSize t ≤ budget then t
  else
    let kept := keep budget.toNat [] (items t)
    match kept.cutInside with
    | none => kept.text
    | some opened =>
      Text.trimEnd kept.text ++ ellipsis :: (opened.map closingTag).flatten

end TaskBulletin.Html
