import Bourse.Word

/-!
# Unsigned decimal numbers

A number is written with its decimal digits, most significant first, padded with
zeros to a least width. It is read from left to right against an exclusive bound,
with one optional plus sign in front; the first digit at which the number leaves
the bound, or the first character that is no digit, ends the reading.
-/

namespace Bourse.Text

/-- Why a text is not a number below the bound. -/
inductive NumberFault where
  | empty
  | invalidDigit
  | tooLarge
  deriving DecidableEq, Repr

/-- The wording of a fault in a number. -/
def NumberFault.message : NumberFault → String
  | .empty => "cannot parse integer from empty string"
  | .invalidDigit => "invalid digit found in string"
  | .tooLarge => "number too large to fit in target type"

/-- The digits read after a number that is already known. A character that is no
digit is reported before a value that leaves the bound at the same place. -/
def readDigits (bound : Nat) (value : Nat) : List Char → Except NumberFault Nat
  | [] => .ok value
  | c :: rest =>
    let next := 10 * value + (c.toNat - '0'.toNat)
    if !c.isDigit then .error .invalidDigit
    else if next < bound then readDigits bound next rest
    else .error .tooLarge

/-- A number below the bound: one optional plus sign and at least one digit. -/
def readNatural (bound : Nat) : List Char → Except NumberFault Nat
  | [] => .error .empty
  | ['+'] => .error .invalidDigit
  | '+' :: digits => readDigits bound 0 digits
  | digits => readDigits bound 0 digits

/-- A signed number of 64 bits: an optional sign and at least one digit. -/
def readInteger : List Char → Option Int
  | '-' :: digits =>
    if digits.head? == some '+' then none
    else ((readNatural (Word.least.natAbs + 1) digits).toOption).map fun value => -(value : Int)
  | digits => ((readNatural (Word.greatest.natAbs + 1) digits).toOption).map Int.ofNat

/-- The decimal digits of a number, most significant first. -/
def digits (value : Nat) : List Char := Nat.toDigits 10 value

/-- Zeros in front of the characters until there are at least `width`. -/
def padZeros (width : Nat) (cs : List Char) : List Char :=
  List.replicate (width - cs.length) '0' ++ cs

/-- The decimal text of a number. -/
def natural (value : Nat) : String := String.ofList (digits value)

/-- The decimal text of an integer, with a minus sign in front of a negative one. -/
def integer (value : Int) : String :=
  if value < 0 then String.ofList ('-' :: digits value.natAbs) else natural value.natAbs

end Bourse.Text
