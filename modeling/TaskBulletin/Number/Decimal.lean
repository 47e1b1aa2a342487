import TaskBulletin.Number.Whole

/-!
# Reading decimals

A decimal is an optional sign, digits with an optional point among or around
them, and an optional exponent; or one of the words for infinity and
not-a-number, in any case. It is read as the nearest binary64 number.
-/

namespace TaskBulletin.Decimal

/-- The nearest binary64 number to `mantissa * 10 ^ exponent`. Magnitudes beyond
the range of the format are settled by their size alone. -/
def nearest (mantissa : Nat) (exponent : Int) : Float :=
  let lead := (Text.ofNat mantissa).length + exponent
  if mantissa = 0 ∨ lead < -330 then 0
  else if 320 < lead then 1 / 0
  else if exponent < 0 then Float.ofScientific mantissa true (-exponent).toNat
  else Float.ofScientific (mantissa * Nat.pow 10 exponent.toNat) false 0

/-- The exponent part: empty, or a mark, an optional sign and at least a digit. -/
def exponent? : Text → Option Int
  | [] => some 0
  | mark :: t =>
    if mark == 'e' || mark == 'E' then
      let (negative, digits) := Numeral.splitSign t
      if digits.isEmpty || !digits.all Char.isDigit then none
      else (Numeral.digits? digits).map fun ds => Numeral.signed negative (Numeral.value ds)
    else none

/-- An unsigned decimal in ASCII digits. -/
def unsigned? (t : Text) : Option Float :=
  let whole := t.takeWhile Char.isDigit
  let rest := t.dropWhile Char.isDigit
  let (fraction, tail) :=
    match rest with
    | '.' :: after => (after.takeWhile Char.isDigit, after.dropWhile Char.isDigit)
    | _ => ([], rest)
  if whole.isEmpty && fraction.isEmpty then none
  else do
    let digits ← Numeral.digits? (whole ++ fraction)
    let e ← exponent? tail
    return nearest (Numeral.value digits) (e - fraction.length)

/-- A signed decimal, or a word, with nothing around it. -/
def read? (t : Text) : Option Float :=
  let (negative, body) := Numeral.splitSign t
  let word := Text.lowerAscii body
  let magnitude :=
    if word = "inf".toList ∨ word = "infinity".toList then some (1 / 0)
    else if word = "nan".toList then some (0 / 0)
    else unsigned? body
  magnitude.map fun x => if negative then -x else x

end TaskBulletin.Decimal
