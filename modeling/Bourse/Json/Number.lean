import Bourse.Word

/-!
# Numbers of documents

An integer that fits into a word is kept as it is. Every other number is a decimal,
a word times a power of ten: digits are taken from left to right while the word holds
them, and the first digit that it does not hold is dropped with all behind it.

A decimal denotes the product of two doubles, its word and its power of ten, each the
nearest one. Numbers are never computed with, so no double is represented; what is
told is which decimals have a product beyond every double.
-/

namespace Bourse.Json

/-- A number. Minus zero is kept apart from zero. A decimal is its mantissa times a
power of ten. -/
inductive Number where
  | integer (negative : Bool) (magnitude : Nat)
  | decimal (negative : Bool) (mantissa : Nat) (exponent : Int)
  deriving DecidableEq, Repr

/-! ## Reading digits -/

/-- A value with further digits behind it, and the digits from the first one that
takes it out of a word. -/
def absorb (value : Nat) : List Char → Nat × List Char
  | [] => (value, [])
  | digit :: rest =>
    let next := 10 * value + (digit.toNat - '0'.toNat)
    if next < Word.limit then absorb next rest else (value, digit :: rest)

/-- The number of its digits in front of the point, behind it, and in the exponent.
A dropped digit in front of the point is a power of ten more, a digit kept behind it
one less. Digits behind the point are kept even if some in front of it are not. -/
def Number.ofDigits (negative : Bool) (whole : List Char) (fraction : Option (List Char))
    (exponent : Option Int) : Number :=
  let (mantissa, dropped) := absorb 0 whole
  if dropped.isEmpty && fraction.isNone && exponent.isNone then .integer negative mantissa
  else
    let digits := fraction.getD []
    let (mantissa, ignored) := absorb mantissa digits
    .decimal negative mantissa
      (exponent.getD 0 + dropped.length - (digits.length - ignored.length : Nat))

/-! ## The range of doubles -/

/-- The least magnitude that no finite double is nearest to: the greatest double
plus half a unit of its last place. -/
def doubleLimit : Nat := Nat.pow 2 1024 - Nat.pow 2 970

/-- How many multiples of a unit are nearest to a value, an even number of them if
the value lies halfway. -/
def nearestMultiple (unit value : Nat) : Nat :=
  let below := value / unit
  let twice := 2 * (value % unit)
  if unit < twice || (unit == twice && below % 2 == 1) then below + 1 else below

/-- The nearest natural number that fifty-three binary digits and a power of two
make up. -/
def nearestDouble (value : Nat) : Nat :=
  let unit := Nat.pow 2 (Nat.log2 value + 1 - 53)
  nearestMultiple unit value * unit

/-- The greatest power of ten that is a double. -/
def greatestExponent : Int := 308

/-- Whether a number lies beyond every double. A negative power of ten makes a
mantissa smaller, and no mantissa lies beyond. -/
def Number.beyondDouble : Number → Bool
  | .integer _ magnitude => doubleLimit ≤ magnitude
  | .decimal _ mantissa exponent =>
    if mantissa = 0 ∨ exponent < 0 then false
    else if greatestExponent < exponent then true
    else doubleLimit ≤ nearestDouble mantissa * nearestDouble (Nat.pow 10 exponent.toNat)

end Bourse.Json
