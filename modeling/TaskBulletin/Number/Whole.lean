import TaskBulletin.Fault
import TaskBulletin.Text.Digit

/-!
# Reading and writing whole numbers

A whole number is read from decimal digits of any script. Digits are counted
before they are read: a numeral of more than 4300 digits, leading zeros
included, is refused, and the count is part of the refusal. A number is written
in ASCII digits, and one that takes more than 4300 of them is refused as well,
so what was read can be written.
-/

namespace TaskBulletin

/-- The most digits that a numeral may have. -/
def numeralLimit : Nat := 4300

/-- A numeral that is too long to be read. -/
structure OverlongNumeral where
  digits : Nat
  deriving Repr, DecidableEq

namespace OverlongNumeral

def message (e : OverlongNumeral) : Text :=
  "Exceeds the limit (4300 digits) for integer string conversion: value has ".toList ++
    Text.ofNat e.digits ++
    " digits; use sys.set_int_max_str_digits() to increase the limit".toList

end OverlongNumeral

namespace Numeral

/-- The number that a sequence of decimal digits writes, most significant first. -/
def value (digits : List Nat) : Nat := digits.foldl (fun n d => 10 * n + d) 0

/-- The values of a text of decimal digits; `none` if another character occurs. -/
def digits? (t : Text) : Option (List Nat) := t.mapM Text.digitValue?

/-- The number written by some digits, if there are not too many of them. -/
def ofDigits (digits : List Nat) : Except OverlongNumeral Nat :=
  if digits.length ≤ numeralLimit then .ok (value digits) else .error ⟨digits.length⟩

/-- Split an optional sign off the front: is it a minus, and what follows. -/
def splitSign : Text → Bool × Text
  | '-' :: t => (true, t)
  | '+' :: t => (false, t)
  | t => (false, t)

theorem splitSign_cons {c : Char} (hm : c ≠ '-') (hp : c ≠ '+') (t : Text) :
    splitSign (c :: t) = (false, c :: t) := by
  rw [splitSign]
  · simpa using hm
  · simpa using hp

/-- What may stand in front of the digits of a number. -/
def signs : List Text := [[], ['+'], ['-']]

theorem mem_signs_iff {sign : Text} : sign ∈ signs ↔ sign = [] ∨ sign = ['+'] ∨ sign = ['-'] := by
  simp [signs]

/-- What follows the sign is what is left of the text without it. -/
theorem exists_append_splitSign (t : Text) : ∃ sign ∈ signs, t = sign ++ (splitSign t).2 := by
  fun_cases splitSign t with
  | case1 t => exact ⟨['-'], by decide, rfl⟩
  | case2 t => exact ⟨['+'], by decide, rfl⟩
  | case3 => exact ⟨[], by decide, rfl⟩

theorem splitSign_suffix (t : Text) : (splitSign t).2 <:+ t := by
  obtain ⟨sign, -, h⟩ := exists_append_splitSign t
  exact ⟨sign, h.symm⟩

def signed (negative : Bool) (n : Nat) : Int := if negative then -(n : Int) else n

/-- Digits that may be parted by single underscores. -/
def groupedDigits? : Text → Option (List Nat)
  | [] => none
  | [c] => (Text.digitValue? c).map ([·])
  | c :: '_' :: cs => do return (← Text.digitValue? c) :: (← groupedDigits? cs)
  | c :: cs => do return (← Text.digitValue? c) :: (← groupedDigits? cs)

/-- The characters that may surround a numeral: the blanks, apart from the four
information separators. -/
def isPadding (c : Char) : Bool := Text.isBlank c && !(28 ≤ c.toNat && c.toNat ≤ 31)

def trimPadding (t : Text) : Text :=
  ((t.dropWhile isPadding).reverse.dropWhile isPadding).reverse

/-- A signed numeral with padding and digit groups: `none` if the text is not
one, or is too long. -/
def readInt? (t : Text) : Option Int :=
  let (negative, body) := splitSign (trimPadding t)
  match (groupedDigits? body).map ofDigits with
  | some (.ok n) => some (signed negative n)
  | _ => none

/-- Has a number no more digits than may be written? -/
def writable (n : Int) : Bool := (Text.ofNat n.natAbs).length ≤ numeralLimit

/-- What writing a number raises that is too long. -/
def tooLong : Fault where
  kind := .value
  message := ("Exceeds the limit (4300 digits) for integer string conversion; " ++
    "use sys.set_int_max_str_digits() to increase the limit").toList

/-- The text of a number, if it is not too long. -/
def write (n : Int) : Except Fault Text :=
  if writable n then .ok (Text.ofInt n) else .error tooLong

theorem write_of_writable {n : Int} (h : writable n = true) : write n = .ok (Text.ofInt n) :=
  if_pos h

theorem write_of_not_writable {n : Int} (h : writable n = false) : write n = .error tooLong :=
  if_neg (by simp [h])

/-- The least number that is too long to be written. -/
def leastOverlong : Nat := Nat.pow 10 numeralLimit

theorem writable_leastOverlong : writable leastOverlong = false := by
  have hpos : 0 < numeralLimit := by decide
  unfold writable leastOverlong
  generalize numeralLimit = k at hpos ⊢
  exact decide_eq_false fun h =>
    Nat.lt_irrefl _ ((Nat.length_toDigits_le_iff (by decide) hpos).mp h)

end Numeral

end TaskBulletin
