import TaskBulletin.Calendar.Date
import TaskBulletin.Number.Whole

/-!
# Moments in ISO notation

A moment is a date and a time of day on the clock where it was written. Its text
is a date, by month or by week, with or without hyphens; then any character and a
time, with or without colons, perhaps with a fraction; then perhaps an offset from
universal time, which is checked and otherwise without effect. Without a time it
is midnight.
-/

namespace TaskBulletin

structure Moment where
  date : Date
  hour : Nat
  minute : Nat
  second : Nat
  deriving Repr, DecidableEq

namespace Moment

/-- Read a number of exactly `n` ASCII digits. -/
def readNumber (n : Nat) (t : Text) : Option (Nat × Text) :=
  let digits := t.take n
  if digits.length = n && digits.all Char.isDigit then
    some (Numeral.value (digits.filterMap Text.digitValue?), t.drop n)
  else none

/-! ## Dates -/

/-- The number of characters that write the date at the front of a text. A hyphen
or a digit after a week is the separator of a time where a time can follow it. -/
def dateLength? (t : Text) : Option Nat :=
  if t.length = 7 then some 7
  else if t[4]? = some '-' then
    if t[5]? = some 'W' then
      if t[8]? = some '-' then
        if t.length = 9 then none
        else if (t[10]?.map Char.isDigit).getD false then some 8
        else some 10
      else some 8
    else some 10
  else if t[4]? = some 'W' then
    let last := 7 + ((t.drop 7).takeWhile Char.isDigit).length
    if last < 9 then some last
    else if last % 2 = 0 then some 7
    else some 8
  else some 8

def readHyphen (hyphens : Bool) (t : Text) : Option Text :=
  if hyphens then
    match t with
    | '-' :: rest => some rest
    | _ => none
  else some t

/-- Read a date that takes up the whole text. The day of a week is Monday when it
is not written. -/
def readDate (t : Text) : Option Date := do
  let (year, t) ← readNumber 4 t
  let hyphens := t.head? == some '-'
  let t ← readHyphen hyphens t
  match t with
  | 'W' :: t =>
    let (week, t) ← readNumber 2 t
    match t with
    | [] => Date.ofWeek? year week 1
    | _ :: _ =>
      let t ← readHyphen hyphens t
      let (day, _) ← readNumber 1 t
      Date.ofWeek? year week day
  | _ =>
    let (month, t) ← readNumber 2 t
    let t ← readHyphen hyphens t
    let (day, _) ← readNumber 2 t
    return ⟨year, month, day⟩

/-! ## Times -/

/-- Pass over a fraction: six digits, or fewer if the text ends, and any more. -/
def readFraction (t : Text) : Option Text :=
  if (t.take 6).all Char.isDigit then some ((t.drop 6).dropWhile Char.isDigit) else none

/-- Read up to `n` fields of two digits and a fraction, and say what is left. A
single ASCII character after a field is left where it stands. -/
def readFields (colons : Bool) : (n : Nat) → Text → Option (List Nat × Text)
  | 0, t => (readFraction t).map fun rest => ([], rest)
  | n + 1, t => do
    let (v, t) ← readNumber 2 t
    match t with
    | [] => some ([v], [])
    | [c] => if c.toNat < 128 then some ([v], [c]) else none
    | c :: rest =>
      if colons && c == ':' then
        let (vs, rest) ← readFields colons n rest
        return (v :: vs, rest)
      else if c == '.' || c == ',' then (readFraction rest).map fun rest => ([v], rest)
      else if colons then none
      else
        let (vs, rest) ← readFields colons n (c :: rest)
        return (v :: vs, rest)

/-- A time of day, or the size of an offset. -/
structure Clock where
  hour : Nat
  minute : Nat
  second : Nat
  deriving Repr, DecidableEq

def Clock.ofFields (fields : List Nat) : Clock :=
  ⟨fields.getD 0 0, fields.getD 1 0, fields.getD 2 0⟩

def Clock.seconds (c : Clock) : Nat := 3600 * c.hour + 60 * c.minute + c.second

def Clock.valid (c : Clock) : Bool := c.hour < 24 && c.minute < 60 && c.second < 60

/-- Read an hour, a minute and a second; a colon after the hour asks for colons. -/
def readClock (t : Text) : Option (Clock × Text) :=
  (readFields (t[2]? == some ':') 3 t).map fun (fields, rest) => (.ofFields fields, rest)

/-- A text ends where nothing is left, or where a NUL follows. -/
def ended (rest : Text) : Bool := rest.headD '\x00' == '\x00'

def startsOffset (c : Char) : Bool := c == '+' || c == '-'

/-- Is this the size of an offset, which is less than a day? -/
def validOffset (t : Text) : Bool :=
  match readClock t with
  | some (c, rest) => ended rest && c.seconds < 86400
  | none => false

/-- Read a time and an offset that take up the whole text. In front of an offset,
what is left of the time is passed over. -/
def readTime (t : Text) : Option Clock := do
  let (clock, rest) ← readClock (t.takeWhile fun c => !startsOffset c)
  match t.dropWhile fun c => !startsOffset c with
  | [] => if ended rest then some clock else none
  | _ :: offset => if validOffset offset then some clock else none

/-! ## Moments -/

def of? (date : Date) (clock : Clock) : Option Moment :=
  if date.valid && clock.valid then some ⟨date, clock.hour, clock.minute, clock.second⟩ else none

def read? (t : Text) : Option Moment := do
  let n ← if t.length < 7 then none else dateLength? t
  let date ← readDate (t.take n)
  match t.drop n with
  | [] => of? date ⟨0, 0, 0⟩
  | _ :: time => of? date (← readTime time)

end Moment

end TaskBulletin
