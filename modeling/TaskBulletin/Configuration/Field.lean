import TaskBulletin.Configuration.Spelling
import TaskBulletin.Value

/-!
# Reading the value of a setting

A setting may be given as a value of its own type or as text. Each reader accepts
the spellings of one type and names the cause when it refuses a value.
-/

namespace TaskBulletin.Configuration

/-- Why a value was refused. -/
inductive FieldError where
  | notText
  | notWhole
  | wholeUnreadable
  | wholeTooLong
  | fractional
  | infinite
  | belowOne
  | notNumber
  | numberUnreadable
  | notPositive
  | notFlag
  | flagUnreadable
  | domainScheme (domain : Text)
  | unknownLogLevel
  deriving Repr, DecidableEq

/-- The explanation of a refusal that has one of its own. -/
def FieldError.explanation? : FieldError → Option Text
  | .domainScheme domain =>
    some ("Value error, bx24_domain must start with http:// or https://: ".toList ++ domain)
  | .unknownLogLevel =>
    some ("Value error, log_level must be one of " ++
      "['DEBUG', 'INFO', 'WARNING', 'ERROR', 'CRITICAL']").toList
  | _ => none

def readText : Value → Except FieldError Text
  | .text t => .ok t
  | _ => .error .notText

def readOptionalText : Value → Except FieldError (Option Text)
  | .null => .ok none
  | v => (readText v).map some

/-- The least magnitude that does not fit a signed word of 64 bits. -/
def wordLimit : Nat := 1 <<< 63

/-- A whole number. True is one and false is zero; a float must have no fraction
and lie within 64 bits. -/
def readWhole : Value → Except FieldError Int
  | .int n => .ok n
  | .bool b => .ok (if b then 1 else 0)
  | .text t =>
    match wholeOfText? t with
    | some (.ok n) => .ok n
    | some (.error _) => .error .wholeTooLong
    | none => .error .wholeUnreadable
  | .float x =>
    let parts := Binary64.parts x
    match parts.truncate? with
    | none => .error .infinite
    | some n =>
      if !parts.isWhole then .error .fractional
      else if n.natAbs < wordLimit then .ok n
      else .error .wholeTooLong
  | _ => .error .notWhole

/-- The nearest float to a whole number, if there is a finite one. -/
def floatOfWhole? (n : Int) : Option Float :=
  let x := Decimal.nearest n.natAbs 0
  if x.isInf then none else some (if n < 0 then -x else x)

def readNumber : Value → Except FieldError Float
  | .float x => .ok x
  | .int n => (floatOfWhole? n).elim (.error .notNumber) .ok
  | .bool b => .ok (if b then 1 else 0)
  | .text t => (numberOfText? t).elim (.error .numberUnreadable) .ok
  | _ => .error .notNumber

def trueWords : List Text := ["1", "on", "t", "true", "y", "yes"].map String.toList

def falseWords : List Text := ["0", "off", "f", "false", "n", "no"].map String.toList

/-- The flag that a whole number stands for: only zero and one stand for one. -/
def flagOfWhole (n : Int) : Except FieldError Bool :=
  if n = 1 then .ok true
  else if n = 0 then .ok false
  else .error .flagUnreadable

/-- A flag: a truth value, zero or one, or a word for either in any case. Numbers that
do not fit a word are of another kind, and so is the least float that would. -/
def readFlag : Value → Except FieldError Bool
  | .bool b => .ok b
  | .int n => if -wordLimit ≤ n ∧ n < wordLimit then flagOfWhole n else .error .notFlag
  | .float x =>
    let parts := Binary64.parts x
    match parts.truncate? with
    | some n =>
      if parts.isWhole && n.natAbs < wordLimit then flagOfWhole n else .error .notFlag
    | none => .error .notFlag
  | .text t =>
    let word := Text.lowerAscii t
    if trueWords.contains word then .ok true
    else if falseWords.contains word then .ok false
    else .error .flagUnreadable
  | _ => .error .notFlag

end TaskBulletin.Configuration
