import TaskBulletin.Text.Basic

/-!
# The parts of a binary64 number

A finite number is a whole mantissa times a power of two, and everything that is
said of its value is said of those two natural numbers.
-/

namespace TaskBulletin.Binary64

/-- A number taken apart. A finite one is `mantissa * 2 ^ (exponent - 1075)`, with
an exponent of at least one. -/
inductive Parts where
  | nan
  | infinite (negative : Bool)
  | finite (negative : Bool) (mantissa exponent : Nat)
  deriving Repr, DecidableEq

/-- The leading bit of a normal number's mantissa, which is not written. -/
def hiddenBit : Nat := 1 <<< 52

/-- Read the sign, exponent and fraction fields of the 64 bits. -/
def Parts.ofBits (bits : Nat) : Parts :=
  let negative := bits >>> 63 == 1
  let exponent := (bits >>> 52) % 2048
  let fraction := bits % hiddenBit
  if exponent = 2047 then
    if fraction = 0 then .infinite negative else .nan
  else if exponent = 0 then .finite negative fraction 1
  else .finite negative (hiddenBit + fraction) exponent

def parts (x : Float) : Parts := .ofBits x.toBits.toNat

namespace Parts

/-- The whole number next to a finite number on the side of zero. -/
def truncate? : Parts → Option Int
  | nan => none
  | infinite _ => none
  | finite negative m e =>
    let n := m <<< (e - 1075) >>> (1075 - e)
    some (if negative then -(n : Int) else n)

/-- Is this a finite number without a fraction? -/
def isWhole : Parts → Bool
  | nan => false
  | infinite _ => false
  | finite _ m e => m % (1 <<< (1075 - e)) == 0

end Parts

end TaskBulletin.Binary64
