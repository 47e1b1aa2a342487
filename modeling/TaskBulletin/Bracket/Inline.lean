import TaskBulletin.Bracket.Tag

/-!
# Inline elements

Six formatting tags become elements, links become anchors, and the tags of
images, colours and sizes leave only their content. The text is escaped by now:
an anchor's target has only its quotes left to escape.
-/

namespace TaskBulletin.Bracket

/-- A formatting element of the markup. -/
inductive Style where
  | bold
  | italic
  | underline
  | strike
  | code
  | quote
  deriving Repr, DecidableEq

namespace Style

def tagName : Style → Text
  | bold => ['B']
  | italic => ['I']
  | underline => ['U']
  | strike => ['S']
  | code => "CODE".toList
  | quote => "QUOTE".toList

def elementName : Style → Text
  | bold => ['b']
  | italic => ['i']
  | underline => ['u']
  | strike => ['s']
  | code => "code".toList
  | quote => "blockquote".toList

def pattern (style : Style) : Pattern (Span Text Text) := paired style.tagName

def render (style : Style) (t : Text) : Text :=
  style.pattern.rewrite (fun e => Html.element style.elementName e.content) t

end Style

def targetedLink : Pattern (Span (Span Text Text) Text) := pairedWithValue "URL".toList

def plainLink : Pattern (Span Text Text) := paired "URL".toList

/-- Turn links into anchors. A link without a target points to its own body. -/
def renderLinks (t : Text) : Text :=
  let t := targetedLink.rewrite
    (fun e => Html.anchorRaw (Html.escapeDoubleQuotes e.opener.content) e.content) t
  plainLink.rewrite (fun e => Html.anchorRaw (Html.escapeDoubleQuotes e.content) e.content) t

def renderInline (t : Text) : Text :=
  let t := [Style.bold, .italic, .underline, .strike].foldl (fun t style => style.render t) t
  let t := renderLinks t
  [Style.code, .quote].foldl (fun t style => style.render t) t

/-- Keep only the content of images, colours and sizes. -/
def unwrapUnsupported (t : Text) : Text :=
  let t := (paired "IMG".toList).rewrite Span.content t
  let t := (pairedWithValue "COLOR".toList).rewrite Span.content t
  (pairedWithValue "SIZE".toList).rewrite Span.content t

end TaskBulletin.Bracket
