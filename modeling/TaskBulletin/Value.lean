import TaskBulletin.Text.Quoted
import TaskBulletin.Number.Shortest
import TaskBulletin.Number.Whole

/-!
# Dynamic values

What a portal answers, what a log line carries and what a message lists are
values of one type. A value has a truth value and a text: text is its own text,
and inside a list or an object it is quoted. A value with a number in it that is
too long to be written has no text.
-/

namespace TaskBulletin

inductive Value where
  | null
  | bool (b : Bool)
  | int (n : Int)
  | float (x : Float)
  | text (t : Text)
  | list (items : List Value)
  | object (fields : List (Text × Value))
  deriving Inhabited

namespace Value

/-- The first value recorded under a key. -/
def lookup (key : String) (fields : List (Text × Value)) : Option Value :=
  (fields.find? fun (k, _) => k == key.toList).map Prod.snd

/-- Empty values, zero and false do not hold; every other value holds. -/
def holds : Value → Bool
  | null => false
  | bool b => b
  | int n => n != 0
  | float x => x != 0
  | text t => !t.isEmpty
  | list items => !items.isEmpty
  | object fields => !fields.isEmpty

/-- The word for the kind of a value. -/
def kind : Value → String
  | null => "NoneType"
  | bool _ => "bool"
  | int _ => "int"
  | float _ => "float"
  | text _ => "str"
  | list _ => "list"
  | object _ => "dict"

mutual

/-- The text of a value inside a list or an object. -/
def inner : Value → Text
  | null => "None".toList
  | bool b => (if b then "True" else "False").toList
  | int n => Text.ofInt n
  | float x => Binary64.print x
  | text t => Text.quoted t
  | list items => '[' :: innerItems items ++ [']']
  | object fields => '\x7b' :: innerFields fields ++ ['\x7d']

def innerItems : List Value → Text
  | [] => []
  | [v] => inner v
  | v :: vs => inner v ++ ", ".toList ++ innerItems vs

def innerFields : List (Text × Value) → Text
  | [] => []
  | [(key, v)] => Text.quoted key ++ ": ".toList ++ inner v
  | (key, v) :: rest => Text.quoted key ++ ": ".toList ++ inner v ++ ", ".toList ++ innerFields rest

end

/-- The text of a value, all of whose numbers can be written. -/
def print : Value → Text
  | text t => t
  | v => inner v

mutual

/-- Can every number in a value be written? -/
def writable : Value → Bool
  | int n => Numeral.writable n
  | list items => writableItems items
  | object fields => writableFields fields
  | _ => true

def writableItems : List Value → Bool
  | [] => true
  | v :: vs => writable v && writableItems vs

def writableFields : List (Text × Value) → Bool
  | [] => true
  | (_, v) :: rest => writable v && writableFields rest

end

/-- The text of a value, unless a number in it is too long. -/
def write (v : Value) : Except Fault Text :=
  if v.writable then .ok v.print else .error Numeral.tooLong

theorem write_of_writable {v : Value} (h : v.writable = true) : v.write = .ok v.print := if_pos h

theorem write_of_not_writable {v : Value} (h : v.writable = false) :
    v.write = .error Numeral.tooLong :=
  if_neg (by simp [h])

end Value

end TaskBulletin
