import TaskBulletin.Calendar.Moment

/-!
# Deadlines

A deadline is missing, given as a moment, or given as text in ISO notation with
blanks around it, where a capital Z is another spelling of the offset zero. It is
shown as the day, the month by its name, the year and the time to the minute.
-/

namespace TaskBulletin

inductive Deadline where
  | missing
  | moment (m : Moment)
  | text (t : Text)
  deriving Repr, DecidableEq

namespace Deadline

def months : List String :=
  ["January", "February", "March", "April", "May", "June", "July", "August", "September",
    "October", "November", "December"]

/-- A number of at least two digits. -/
def twoDigits (n : Nat) : Text :=
  let digits := Text.ofNat n
  List.replicate (2 - digits.length) '0' ++ digits

def showMoment (m : Moment) : Text :=
  Text.ofNat m.date.day ++ ' ' :: (months.getD (m.date.month - 1) "").toList ++
    ' ' :: Text.ofNat m.date.year ++ " at ".toList ++ twoDigits m.hour ++ ':' :: twoDigits m.minute

/-- Write every capital Z as the offset zero. -/
def spellOutZulu (t : Text) : Text := t.flatMap fun c => if c = 'Z' then "+00:00".toList else [c]

def readText (t : Text) : Option Moment := Moment.read? (spellOutZulu (Text.trim t))

def noDate : Text := "Date not set".toList

def unreadable : Text := "Date not recognized".toList

end Deadline

end TaskBulletin
