import TaskBulletin.Text.Spacing

/-!
# Settings files

A settings file is a sequence of statements, each of which ends with a line. A
statement gives a name, and a value after an equals sign or none at all; it may
also be blank or a comment. A name or a value in quotes may span lines. Where a
statement cannot be read, the rest of the line is passed over, and the line that it
started on is kept for the complaint.
-/

namespace TaskBulletin.Configuration

inductive Statement where
  | blank
  | assignment (name : Text) (value : Option Text)
  | unreadable
  deriving Repr, DecidableEq

namespace Statement

def isInlineBlank (c : Char) : Bool := Text.isBlank c && c != '\n'

def skipBlanks (t : Text) : Text := t.dropWhile isInlineBlank

/-- The text after the end of the current line. -/
def nextLine (t : Text) : Text := (t.dropWhile (· != '\n')).drop 1

/-- Pass over the word that marks a name for export. -/
def skipExport (t : Text) : Text :=
  if "export".toList.isPrefixOf t && ((t.drop 6).head?.map isInlineBlank).getD false then
    skipBlanks (t.drop 6)
  else t

/-- The name at the front of a statement, or nothing in front of a comment, and the
text after it. -/
def readName (t : Text) : Option (Option Text × Text) :=
  match t with
  | '#' :: _ => some (none, t)
  | '\'' :: body =>
    let name := body.takeWhile (· != '\'')
    match body.dropWhile (· != '\'') with
    | _ :: rest => if name.isEmpty then none else some (some name, rest)
    | [] => none
  | _ =>
    let inName (c : Char) := c != '=' && c != '#' && !Text.isBlank c
    let name := t.takeWhile inName
    if name.isEmpty then none else some (some name, t.dropWhile inName)

/-- The characters up to the closing quote, and the text after it. The first quote
without a backslash before it closes, or else the last quote of the text; `escaped`
tells whether a backslash stands before the text. -/
def readQuoted (quote : Char) : (escaped : Bool) → Text → Option (Text × Text)
  | _, [] => none
  | escaped, c :: t =>
    if c = quote then
      if escaped then
        match readQuoted quote false t with
        | some (value, rest) => some (c :: value, rest)
        | none => some ([], t)
      else some ([], t)
    else (readQuoted quote (c == '\\') t).map fun (value, rest) => (c :: value, rest)

/-- The character that a letter stands for after a backslash between double
quotes. -/
def escapeLetter : Char → Option Char
  | 'a' => some '\x07'
  | 'b' => some '\x08'
  | 'f' => some '\x0c'
  | 'n' => some '\n'
  | 'r' => some '\r'
  | 't' => some '\t'
  | 'v' => some '\x0b'
  | '\\' => some '\\'
  | '\'' => some '\''
  | '"' => some '"'
  | _ => none

/-- Between single quotes only the quote and the backslash are escaped. -/
def escapeFor (quote c : Char) : Option Char :=
  if quote = '"' then escapeLetter c
  else if c = '\'' || c = '\\' then some c
  else none

/-- Replace each escape by its character; any other backslash stays. -/
def unescape (quote : Char) (t : Text) : Text :=
  match t with
  | [] => []
  | '\\' :: c :: t =>
    match escapeFor quote c with
    | some d => d :: unescape quote t
    | none => '\\' :: unescape quote (c :: t)
  | c :: t => c :: unescape quote t
termination_by t.length

/-- A value without quotes ends before the blanks in front of a number sign. -/
def dropComment : Text → Text
  | [] => []
  | c :: t =>
    if Text.isBlank c && (t.dropWhile Text.isBlank).head? == some '#' then []
    else c :: dropComment t

/-- Read the value after an equals sign, and the text after it. -/
def readValue (t : Text) : Option (Text × Text) :=
  match skipBlanks t with
  | '\'' :: body => (readQuoted '\'' false body).map fun (v, rest) => (unescape '\'' v, rest)
  | '"' :: body => (readQuoted '"' false body).map fun (v, rest) => (unescape '"' v, rest)
  | _ => some (Text.trim (dropComment (t.takeWhile (· != '\n'))), t.dropWhile (· != '\n'))

/-- Pass over blanks, a comment and the end of the line. -/
def readEnd (t : Text) : Option Text :=
  match skipBlanks t with
  | [] => some []
  | '\n' :: rest => some rest
  | '#' :: rest => some (nextLine rest)
  | _ => none

/-- A statement that has been read up to its end. -/
def ofParts (name : Option Text) (value : Option Text) (t : Text) : Statement × Text :=
  match readEnd t with
  | none => (unreadable, nextLine t)
  | some rest => (name.elim blank fun n => assignment n value, rest)

/-- Read a statement, and the text after it. -/
def read (t : Text) : Statement × Text :=
  match Text.trimStart t with
  | [] => (blank, [])
  | c :: cs =>
    let start := skipExport (c :: cs)
    match readName start with
    | none => (unreadable, nextLine start)
    | some (name, rest) =>
      match skipBlanks rest with
      | '=' :: rest =>
        match readValue rest with
        | none => (unreadable, nextLine rest)
        | some (value, rest) => ofParts name (some value) rest
      | rest => ofParts name none rest

/-- Every statement of a text with the number of the line on which it starts: the
line after the one before it, even if that is blank. -/
def readAll (line : Nat) (t : Text) : List (Nat × Statement) :=
  if t.isEmpty then []
  else
    let (s, rest) := read t
    if rest.length < t.length then
      (line, s) :: readAll (line + (t.count '\n' - rest.count '\n')) rest
    else [(line, s)]
termination_by t.length
decreasing_by assumption

end Statement

/-- What a settings file says. -/
structure SettingsFile where
  /-- Names with their values, in order and as they are written. -/
  assignments : List (Text × Option Text) := []
  /-- The lines on which unreadable statements start. -/
  unreadable : List Nat := []
  deriving Repr, DecidableEq

namespace SettingsFile

def read (t : Text) : SettingsFile :=
  let statements := Statement.readAll 1 (Text.unifyLineEnds t)
  { assignments := statements.filterMap fun
      | (_, .assignment name value) => some (name, value)
      | _ => none
    unreadable := statements.filterMap fun
      | (line, .unreadable) => some line
      | _ => none }

/-- What is said about an unreadable statement. -/
def complaint (line : Nat) : Text :=
  "python-dotenv could not parse statement starting at line ".toList ++ Text.ofNat line

end SettingsFile

end TaskBulletin.Configuration
