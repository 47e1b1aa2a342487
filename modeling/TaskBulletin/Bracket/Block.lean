import TaskBulletin.Bracket.Tag

/-!
# Lists and paragraphs

A chat message has no block elements, so lists and paragraphs become lines. The
items of a list are the stretches between its item marks that are not blank,
trimmed and freed of paragraph tags; they are numbered from one, or get a bullet.
-/

namespace TaskBulletin.Bracket

open Pattern

def paragraph : Pattern (Span Text Text) := paired "P".toList

def bulletList : Pattern (Span Text Text) := paired "LIST".toList

def numberedList : Pattern (Span Text Text) :=
  between (word "[LIST=1]".toList) (fun _ => true) (word "[/LIST]".toList)

/-- The mark in front of an item. -/
def itemMark : Pattern Text := exact "[*]".toList

def listItems (content : Text) : List Text :=
  ((itemMark.split content).filter fun item => !Text.blank item).map fun item =>
    paragraph.rewrite Span.content (Text.trim item)

/-- Items numbered from `n`. -/
def numberFrom : Nat → List Text → List Text
  | _, [] => []
  | n, item :: items => (Text.ofNat n ++ ". ".toList ++ item) :: numberFrom (n + 1) items

def numberedLines (content : Text) : Text :=
  List.intercalate ['\n'] (numberFrom 1 (listItems content))

def bulletLines (content : Text) : Text :=
  List.intercalate ['\n'] ((listItems content).map fun item => "• ".toList ++ item)

/-- Turn lists and paragraphs into lines. -/
def flattenBlocks (t : Text) : Text :=
  let t := numberedList.rewrite (fun list => numberedLines list.content) t
  let t := bulletList.rewrite (fun list => bulletLines list.content) t
  paragraph.rewrite (fun p => p.content ++ ['\n']) t

end TaskBulletin.Bracket
