import TaskBulletin.Number.Decimal

/-!
# Spellings of numbers in settings

A whole number has one plain form. Other spellings are brought to it: blanks
around the number, a plus sign, leading zeros, single underscores between digits
and a fraction of zeros say nothing. Once only zeros and underscores have been
read, any number of underscores and a late minus sign may still follow. A decimal
may have blanks around it or single underscores inside it, but not both.
-/

namespace TaskBulletin.Configuration

/-- A whole number in plain form: an optional minus sign, and zero or digits that
do not start with zero. A run of digits that is too long is refused whatever comes
after it. -/
def plainWhole? (t : Text) : Option (Except OverlongNumeral Int) :=
  let (negative, body) :=
    match t with
    | '-' :: body => (true, body)
    | _ => (false, t)
  let digits := body.takeWhile Char.isDigit
  if digits.isEmpty || (digits.head? == some '0' && digits.length != 1) then none
  else
    match Numeral.ofDigits (digits.filterMap Text.digitValue?) with
    | .error e => some (.error e)
    | .ok n => if digits.length = body.length then some (.ok (Numeral.signed negative n)) else none

def isNonzeroDigit (c : Char) : Bool := c.isDigit && c != '0'

/-- What follows a zero and more zeros and underscores, of which `last` is the last:
a digit or a minus sign starts the number, and a point or the end leaves `last` in
front of it. -/
def afterZeros (last : Char) : Text → Option Text
  | [] => some [last]
  | c :: t =>
    if c == '0' || c == '_' then afterZeros c t
    else if isNonzeroDigit c || c == '-' then some (c :: t)
    else if c == '.' then some (last :: c :: t)
    else none

/-- Drop leading zeros. A text that does not start with a digit is no number. -/
def dropLeadingZeros : Text → Option Text
  | [] => none
  | c :: t =>
    if c == '0' then afterZeros c t
    else if isNonzeroDigit c then some (c :: t)
    else none

/-- Drop a decimal point that zeros, at least one of them, and nothing else follow. -/
def dropZeroFraction (t : Text) : Text :=
  match t.dropWhile (· != '.') with
  | _ :: zeros =>
    if !zeros.isEmpty && zeros.all (· == '0') then t.takeWhile (· != '.') else t
  | [] => t

/-- A text without its underscores, if each has another character on either side. -/
def ungrouped? : Text → Option Text
  | '_' :: _ => none
  | t => go t
where
  go : Text → Option Text
    | [] => some []
    | ['_'] => none
    | '_' :: '_' :: _ => none
    | '_' :: t => go t
    | c :: t => (go t).map (c :: ·)

/-- Bring the spelling of a whole number to the plain form, as far as it can be
brought there. -/
def plainSpelling? (t : Text) : Option Text :=
  let (negative, body) := Numeral.splitSign (Numeral.trimPadding t)
  (dropLeadingZeros body).map fun body =>
    let body := dropZeroFraction body
    let body := (ungrouped? body).getD body
    if negative then '-' :: body else body

def wholeOfText? (t : Text) : Option (Except OverlongNumeral Int) :=
  (plainWhole? t).or ((plainSpelling? t).bind plainWhole?)

/-- The number that a text spells in decimal notation. -/
def numberOfText? (t : Text) : Option Float :=
  (Decimal.read? (Numeral.trimPadding t)).or ((ungrouped? t).bind Decimal.read?)

end TaskBulletin.Configuration
