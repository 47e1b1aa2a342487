import TaskBulletin.Number.Whole
import TaskBulletin.Text.Quoted

/-!
# Options of the command line

Options may be shortened to any beginning that fits only one of them, take a value
after an equals sign or as the next word, and may stand before or after the one
operand. After two hyphens every word is an operand. Words are sorted first, so an
ambiguous option is refused before anything else happens; then they take effect
from left to right; words that nobody wanted are refused at the end.
-/

namespace TaskBulletin.CommandLine

inductive Flag where
  | help
  | version
  | debug
  | offline
  | maxLength
  deriving Repr, DecidableEq

namespace Flag

def all : List Flag := [help, version, debug, offline, maxLength]

def name : Flag → String
  | help => "--help"
  | version => "--version"
  | debug => "--debug"
  | offline => "--offline"
  | maxLength => "--max-length"

/-- The names by which a refusal calls a flag. -/
def title : Flag → String
  | help => "-h/--help"
  | f => f.name

end Flag

/-- Why a command line was refused. -/
inductive UsageError where
  | ambiguous (word : Text) (candidates : List Flag)
  | unwantedValue (flag : Flag) (value : Text)
  | missingValue (flag : Flag)
  | notANumber (flag : Flag) (value : Text)
  | notPositive (flag : Flag) (value : Text)
  | unrecognized (words : List Text)
  deriving Repr, DecidableEq

namespace UsageError

/-- A refusal that concerns one flag. -/
def about (flag : Flag) (complaint : Text) : Text :=
  ("argument " ++ flag.title ++ ": ").toList ++ complaint

def message : UsageError → Text
  | ambiguous word candidates =>
    "ambiguous option: ".toList ++ word ++ " could match ".toList ++
      List.intercalate ", ".toList (candidates.map fun f => f.name.toList)
  | unwantedValue flag value =>
    about flag ("ignored explicit argument ".toList ++ Text.quoted value)
  | missingValue flag => about flag "expected one argument".toList
  | notANumber flag value =>
    about flag ("invalid _positive_int value: ".toList ++ Text.quoted value)
  | notPositive flag value => about flag ("must be a positive integer: ".toList ++ value)
  | unrecognized words => "unrecognized arguments: ".toList ++ List.intercalate [' '] words

end UsageError

/-! ## Sorting the words -/

inductive Word where
  | operand (t : Text)
  | flag (f : Flag) (value : Option Text)
  /-- The short flag for help with more characters joined to it. -/
  | cluster (tail : Text)
  | unknown (t : Text)
  deriving Repr, DecidableEq

def splitEquals (t : Text) : Text × Option Text :=
  match t.dropWhile (· != '=') with
  | _ :: value => (t.takeWhile (· != '='), some value)
  | [] => (t, none)

/-- A hyphen and a number, whole or with a point before its last digits. -/
def looksNegative (t : Text) : Bool :=
  match t with
  | '-' :: body =>
    let body := if body.getLast? == some '\n' then body.dropLast else body
    let whole := body.takeWhile Text.isDigit
    match body.dropWhile Text.isDigit with
    | [] => !whole.isEmpty
    | '.' :: fraction => !fraction.isEmpty && fraction.all Text.isDigit
    | _ => false
  | _ => false

/-- A word that begins no flag: a negative number and words with a space in them are
operands. -/
def sortOther (t : Text) : Word :=
  if looksNegative t || t.contains ' ' then .operand t else .unknown t

/-- Sort a word that comes before any pair of hyphens. -/
def sortWord (t : Text) : Except UsageError Word :=
  match t with
  | '-' :: '-' :: _ =>
    let (name, value) := splitEquals t
    match Flag.all.filter fun f => f.name.toList == name with
    | f :: _ => .ok (.flag f value)
    | [] =>
      match Flag.all.filter fun f => name.isPrefixOf f.name.toList with
      | [] => .ok (sortOther t)
      | [f] => .ok (.flag f value)
      | candidates => .error (.ambiguous t candidates)
  | ['-', 'h'] => .ok (.flag .help none)
  | '-' :: 'h' :: '=' :: tail => .ok (.cluster tail)
  | '-' :: 'h' :: tail => .ok (.cluster tail)
  | '-' :: _ :: _ => .ok (sortOther t)
  | _ => .ok (.operand t)

/-- Sort the words up to a pair of hyphens; what follows the pair stays as it is. -/
def sortWords : List Text → Except UsageError (List Word × Option (List Text))
  | [] => .ok ([], none)
  | t :: ts =>
    if t = ['-', '-'] then .ok ([], some ts)
    else do
      let w ← sortWord t
      let (ws, tail) ← sortWords ts
      return (w :: ws, tail)

/-! ## Taking effect -/

/-- A limit on the length of the body. A pair of hyphens given for it is dropped, as
pairs of hyphens are, and leaves a limit that is no number. -/
inductive LengthLimit where
  | characters (n : Int)
  | dropped
  deriving Repr, DecidableEq

structure Options where
  debug : Bool := false
  offline : Bool := false
  maxLength : Option LengthLimit := none
  file : Option Text := none
  deriving Repr, DecidableEq

/-- How a command line ends that does not ask for any work. -/
inductive Ending where
  | help
  | version
  | refused (e : UsageError)
  deriving Repr, DecidableEq

/-- Has the operand been given, and if so, by the word just read? -/
inductive Place where
  | free
  | justTaken
  | taken
  deriving Repr, DecidableEq

structure Progress where
  options : Options := {}
  place : Place := .free
  extras : List Text := []

namespace Progress

/-- Note that another word than an operand was read. -/
def step (p : Progress) : Progress :=
  match p.place with
  | .justTaken => { p with place := .taken }
  | _ => p

/-- The first operand is the file; an empty one names the current directory. -/
def operand (p : Progress) (t : Text) : Progress :=
  match p.place with
  | .free =>
    { p with
      options := { p.options with file := some (if t.isEmpty then ['.'] else t) }
      place := .justTaken }
  | _ => { p with place := .taken, extras := p.extras ++ [t] }

def limit (p : Progress) (l : LengthLimit) : Progress :=
  { p.step with options := { p.options with maxLength := some l } }

def setMaxLength (p : Progress) (value : Text) : Except Ending Progress :=
  if value = ['-', '-'] then .ok (p.limit .dropped)
  else
    match Numeral.readInt? value with
    | none => .error (.refused (.notANumber .maxLength value))
    | some n =>
      if n ≤ 0 then .error (.refused (.notPositive .maxLength value))
      else .ok (p.limit (.characters n))

end Progress

/-- The value that the short flag for help refuses, if it does: whatever is joined to
it that is not a row of further flags for help. -/
def clusterRefusal : Text → Option Text
  | [] => some []
  | c :: tail =>
    if c = 'h' then if tail.isEmpty then none else clusterRefusal tail
    else some (c :: tail)

/-- Let the words take effect. -/
def interpret (p : Progress) : List Word → Except Ending Progress
  | [] => .ok p
  | .operand t :: ws => interpret (p.operand t) ws
  | .unknown t :: ws => interpret { p.step with extras := p.extras ++ [t] } ws
  | .cluster tail :: _ =>
    .error ((clusterRefusal tail).elim .help fun v => .refused (.unwantedValue .help v))
  | .flag .maxLength (some v) :: ws => do interpret (← p.setMaxLength v) ws
  | .flag .maxLength none :: .operand v :: ws => do interpret (← p.setMaxLength v) ws
  | .flag .maxLength none :: _ => .error (.refused (.missingValue .maxLength))
  | .flag f (some v) :: _ => .error (.refused (.unwantedValue f v))
  | .flag .help none :: _ => .error .help
  | .flag .version none :: _ => .error .version
  | .flag .debug none :: ws =>
    interpret { p.step with options := { p.options with debug := true } } ws
  | .flag .offline none :: ws =>
    interpret { p.step with options := { p.options with offline := true } } ws

/-- The words after a pair of hyphens. The pair itself is dropped when it stands by
the operand, before or after it. -/
def Progress.finish (p : Progress) : Option (List Text) → Progress
  | none => p
  | some tail =>
    match p.place, tail with
    | .free, [] => p
    | .free, t :: ts => { p.operand t with extras := p.extras ++ ts }
    | .justTaken, ts => { p with extras := p.extras ++ ts }
    | .taken, ts => { p with extras := p.extras ++ ['-', '-'] :: ts }

def readOptions (args : List Text) : Except Ending Options := do
  let (words, tail) ← (sortWords args).mapError .refused
  let p ← interpret {} words
  let p := p.finish tail
  if p.extras.isEmpty then return p.options else throw (.refused (.unrecognized p.extras))

end TaskBulletin.CommandLine
