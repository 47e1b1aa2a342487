import TaskBulletin.Assignment
import TaskBulletin.Html.Escape
import TaskBulletin.Value

/-!
# Messages

A message is put together from parts that may be missing or empty. Its header and
title and everything called raw is HTML already; all other text is escaped. The
chunks that are not empty stand one blank line apart. A message that lists a number
too long to be written cannot be put together.
-/

namespace TaskBulletin

/-- A block of lines under a title. -/
structure Section where
  title : Option Text := none
  lines : List Text := []
  raw : Option Text := none

structure Message where
  header : Option Text := none
  title : Option Text := none
  emphasis : Option Text := none
  sections : List Section := []
  metadata : Assignments Value := []
  footer : Option Text := none
  raw : Option Text := none

namespace Message

def italic (t : Text) : Text := Html.element ['i'] (Html.escape t)

def underlined (t : Text) : Text := Html.element ['u'] (Html.escape t)

def bold (t : Text) : Text := Html.element ['b'] (Html.escape t)

/-- A part as a chunk, unless it is missing or empty. -/
def part (write : Text → Text) : Option Text → List Text
  | none => []
  | some [] => []
  | some t => [write t]

def sectionLines (lines : List Text) : List Text :=
  if lines.isEmpty then [] else [List.intercalate ['\n'] (lines.map Html.escape)]

def sectionChunk (s : Section) : List Text :=
  match part underlined s.title ++ sectionLines s.lines ++ part id s.raw with
  | [] => []
  | chunks => [List.intercalate ['\n'] chunks]

/-- A line of the metadata: a bold name, and the text of the value. -/
def metadataLine (field : Text × Value) : Except Fault Text :=
  field.2.write.map fun value => bold (field.1 ++ [':']) ++ ' ' :: Html.escape value

def metadataChunk (metadata : Assignments Value) : Except Fault (List Text) :=
  if metadata.isEmpty then .ok []
  else (metadata.mapM metadataLine).map fun lines => [List.intercalate ['\n'] lines]

def chunks (m : Message) : Except Fault (List Text) :=
  (metadataChunk m.metadata).map fun metadata =>
    part id m.header ++ part id m.title ++ part italic m.emphasis ++
      m.sections.flatMap sectionChunk ++ metadata ++ part italic m.footer

/-- The HTML of a message. One that is given raw is taken as it is. -/
def html (m : Message) : Except Fault Text :=
  match part id m.raw with
  | raw :: _ => .ok raw
  | [] => m.chunks.map fun chunks =>
    List.intercalate "\n\n".toList (chunks.filter fun chunk => !chunk.isEmpty)

end Message

end TaskBulletin
