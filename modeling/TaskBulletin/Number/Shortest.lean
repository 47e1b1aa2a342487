import TaskBulletin.Number.Binary64

/-!
# Shortest decimals

A binary64 number is printed with the fewest significant digits that read back
as the same number and, of the decimals with that many digits, the one nearest
to it. Everything is exact arithmetic on natural numbers: the number, and the
two ends of the interval of reals that round to it, are fractions over a common
denominator, and for each digit count only the two neighbours of the number on
that decimal grid can lie in the interval.
-/

namespace TaskBulletin.Binary64

/-- A finite positive number with the interval of reals that round to it, all
over one denominator. -/
structure Neighbourhood where
  low : Nat
  value : Nat
  high : Nat
  denominator : Nat
  /-- Do the ends themselves round to the number? -/
  closed : Bool

/-- The neighbourhood of `m * 2 ^ (e - 1075)`; below a power of two the grid of
binary64 is twice as fine, unless the exponent is the least one. -/
def neighbourhood (m e : Nat) : Neighbourhood :=
  let below := if m = hiddenBit ∧ 1 < e then 1 else 2
  let up := e - 1077
  { low := (4 * m - below) <<< up
    value := (4 * m) <<< up
    high := (4 * m + 2) <<< up
    denominator := 1 <<< (1077 - e)
    closed := m % 2 = 0 }

namespace Neighbourhood

/-- Multiply the three fractions by a power of ten. -/
def scale (n : Neighbourhood) (k : Int) : Neighbourhood :=
  let up := Nat.pow 10 k.toNat
  { n with
    low := n.low * up
    value := n.value * up
    high := n.high * up
    denominator := n.denominator * Nat.pow 10 (-k).toNat }

/-- The decimal exponent of the leading digit. -/
def exponent (n : Neighbourhood) : Int :=
  let d : Int := (Text.ofNat n.value).length - (Text.ofNat n.denominator).length
  let s := n.scale (-d)
  if s.denominator ≤ s.value then d else d - 1

/-- Does the whole number `a` lie in the interval? -/
def holds (n : Neighbourhood) (a : Nat) : Bool :=
  let x := a * n.denominator
  if n.closed then n.low ≤ x && x ≤ n.high else n.low < x && x < n.high

/-- The whole number of the interval that is nearest to the value, among the two
neighbours of the value; an exact tie goes to the even one. -/
def nearest? (n : Neighbourhood) : Option Nat :=
  let a := n.value / n.denominator
  match n.holds a, n.holds (a + 1) with
  | true, true =>
    let twice := 2 * (n.value % n.denominator)
    if twice < n.denominator ∨ (twice = n.denominator ∧ a % 2 = 0) then some a
    else some (a + 1)
  | true, false => some a
  | false, true => some (a + 1)
  | false, false => none

/-- Search the grids of `count`, `count + 1`, … significant digits. The answer is
a whole number and the power of ten that it counts. -/
def search (n : Neighbourhood) (lead : Int) : (fuel count : Nat) → Nat × Int
  | 0, _ => (n.value / n.denominator, 0)
  | fuel + 1, count =>
    let unit := lead + 1 - count
    match (n.scale (-unit)).nearest? with
    | some a => (a, unit)
    | none => search n lead fuel (count + 1)

/-- The shortest decimal: its digits and the exponent of the first of them. -/
def shortest (n : Neighbourhood) : Text × Int :=
  let (a, unit) := n.search n.exponent 17 1
  let digits := Text.ofNat a
  let kept := (digits.reverse.dropWhile (· == '0')).reverse
  (kept, unit + digits.length - 1)

end Neighbourhood

/-- Positional notation from 10⁻⁴ up to but not including 10¹⁶, always with a
fraction; otherwise a mantissa and an exponent of at least two digits. -/
def layout (digits : Text) (lead : Int) : Text :=
  if -4 ≤ lead ∧ lead < 16 then
    if lead < 0 then
      "0.".toList ++ List.replicate (-lead - 1).toNat '0' ++ digits
    else
      let whole := lead.toNat + 1
      let padded := digits ++ List.replicate (whole - digits.length) '0'
      let fraction := padded.drop whole
      padded.take whole ++ '.' :: (if fraction.isEmpty then ['0'] else fraction)
  else
    let fraction := digits.drop 1
    let size := Text.ofNat lead.natAbs
    digits.take 1 ++ (if fraction.isEmpty then [] else '.' :: fraction) ++
      'e' :: (if lead < 0 then '-' else '+') :: List.replicate (2 - size.length) '0' ++ size

def signed (negative : Bool) (magnitude : Text) : Text :=
  if negative then '-' :: magnitude else magnitude

def Parts.print : Parts → Text
  | .nan => "nan".toList
  | .infinite negative => signed negative "inf".toList
  | .finite negative 0 _ => signed negative "0.0".toList
  | .finite negative mantissa exponent =>
    let (digits, lead) := (neighbourhood mantissa exponent).shortest
    signed negative (layout digits lead)

/-- The text of a number: sign, shortest decimal, and the words `inf` and `nan`. -/
def print (x : Float) : Text := (parts x).print

end TaskBulletin.Binary64
