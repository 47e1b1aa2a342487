/-!
# Text as a list of characters

A text is the list of its Unicode scalar values, so a recogniser is a function
on lists and a rewriting pass is a recursion on lists. The blank characters are
fixed here: trimming, the splitting of list items and the normal form of a
converted body all use this one set.
-/

namespace TaskBulletin

abbrev Text := List Char

namespace Text

/-- The blank characters: ASCII space and controls 9-13 and 28-31, the next-line
and no-break spaces, and the Unicode space separators. -/
def isBlank (c : Char) : Bool :=
  let n := c.toNat
  (9 ≤ n && n ≤ 13) || (28 ≤ n && n ≤ 32) || n == 0x85 || n == 0xA0 || n == 0x1680 ||
    (0x2000 ≤ n && n ≤ 0x200A) || n == 0x2028 || n == 0x2029 || n == 0x202F ||
    n == 0x205F || n == 0x3000

def trimStart (t : Text) : Text := t.dropWhile isBlank

def trimEnd (t : Text) : Text := (t.reverse.dropWhile isBlank).reverse

def trim (t : Text) : Text := trimEnd (trimStart t)

/-- A text is blank when trimming leaves nothing of it. -/
def blank (t : Text) : Bool := t.all isBlank

/-- The decimal digits of a number, most significant first. -/
def ofNat (n : Nat) : Text := Nat.toDigits 10 n

/-- Decimal digits, however many, after a minus sign for a negative number. What writes a
number that may be too long goes through `Numeral.write`. -/
def ofInt : Int → Text
  | .ofNat n => ofNat n
  | .negSucc n => '-' :: ofNat (n + 1)

/-- What holds of every character of a text is checked on the text, not on all characters. -/
instance (priority := 2000) decidableForallMem (p : Char → Prop) [DecidablePred p] (t : Text) :
    Decidable (∀ c ∈ t, p c) :=
  List.decidableBAll p t

/-- ASCII letters in lower case; every other character stays. -/
def lowerAscii (t : Text) : Text := t.map Char.toLower

@[simp] theorem trimStart_nil : trimStart [] = [] := rfl

@[simp] theorem trimEnd_nil : trimEnd [] = [] := rfl

end Text

end TaskBulletin
