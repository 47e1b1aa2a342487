import TaskBulletin.Bracket.Tag
import TaskBulletin.Number.Whole
import TaskBulletin.Text.Word

/-!
# References to files and users

A file tag names a disk file by the first run of digits in its id. A mention is
the label between the two tags of a user, on one line, and its id must be a
positive whole number. Both are read from the text left to right, each distinct
spelling once, up to an id that is too long to be read.
-/

namespace TaskBulletin.Bracket

open Pattern

abbrev FileTag := Span Text Text

abbrev Mention := Span (Span Text Text) Text

/-- The characters of a file tag's id. -/
def isFileIdCharacter (c : Char) : Bool := c == '-' || Text.isWordCharacter c

def fileTag : Pattern FileTag :=
  (between (word "[DISK FILE ID=".toList) isFileIdCharacter (exact [']'])).filter
    fun t => !t.content.isEmpty

def mention : Pattern Mention :=
  between (valued "USER=".toList) (· != '\n') (word "[/USER]".toList)

def digitRun : Pattern Text := run Text.isDigit

/-- The file id in the id part of a tag: its first run of digits, if it has one. -/
def fileId (part : Text) : Except OverlongNumeral (Option Nat) :=
  match digitRun.hits part with
  | [] => .ok none
  | digits :: _ => (Numeral.ofDigits (digits.filterMap Text.digitValue?)).map some

/-- The user id that a mention's id part writes, if it is a positive whole number:
an optional sign and digits, with blanks around them. -/
def userId (part : Text) : Except OverlongNumeral (Option Nat) :=
  let (negative, body) := Numeral.splitSign (Text.trim part)
  match body, Numeral.digits? body with
  | _ :: _, some digits =>
    (Numeral.ofDigits digits).map fun n => if negative || n == 0 then none else some n
  | _, _ => .ok none

/-- The ids of some references, in order. One that is too long ends the reading, with
the references that were read before it. -/
def readIds {α : Type} (read : α → Except OverlongNumeral (Option Nat)) :
    List α → Except (OverlongNumeral × List (α × Option Nat)) (List (α × Option Nat))
  | [] => .ok []
  | a :: rest =>
    match read a with
    | .error e => .error (e, [])
    | .ok id =>
      ((readIds read rest).map ((a, id) :: ·)).mapError fun (e, found) => (e, (a, id) :: found)

/-- The distinct file tags of a text, in order, with their ids. -/
def fileTags (t : Text) :
    Except (OverlongNumeral × List (FileTag × Option Nat)) (List (FileTag × Option Nat)) :=
  readIds (fun tag => fileId tag.content) (fileTag.hits t).eraseDups

/-- The distinct mentions of a text, in order, with their ids. -/
def mentions (t : Text) :
    Except (OverlongNumeral × List (Mention × Option Nat)) (List (Mention × Option Nat)) :=
  readIds (fun m => userId m.opener.content) (mention.hits t).eraseDups

end TaskBulletin.Bracket
