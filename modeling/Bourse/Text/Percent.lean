import Bourse.Text.Hexadecimal
import Bourse.Text.Utf8

/-!
# Percent escapes

A percent sign and two hexadecimal digits stand for one byte. A percent sign
without two digits behind it stands for itself. In a query, pairs are separated
by ampersands, a name ends at the first equals sign, and a plus sign stands for
a space.
-/

namespace Bourse.Text

/-- The byte that two hexadecimal digits stand for. -/
def escapedByte? (high low : UInt8) : Option UInt8 :=
  match hexDigit? (Char.ofNat high.toNat), hexDigit? (Char.ofNat low.toNat) with
  | some h, some l => some (UInt8.ofNat (h * 16 + l))
  | _, _ => none

/-- The bytes after every escape is replaced by the byte it stands for. -/
def percentDecoded : List UInt8 → List UInt8
  | 0x25 :: high :: low :: rest =>
    match escapedByte? high low with
    | some b => b :: percentDecoded rest
    | none => 0x25 :: percentDecoded (high :: low :: rest)
  | b :: rest => b :: percentDecoded rest
  | [] => []

/-- The two hexadecimal capitals of a byte behind a percent sign. -/
def percentEncoded (b : UInt8) : List Char :=
  ['%', (hexDigit (b.toNat / 16)).toUpper, (hexDigit (b.toNat % 16)).toUpper]

/-- The pieces of a character list between occurrences of a separator. -/
def pieces (separator : Char) : List Char → List (List Char)
  | [] => [[]]
  | c :: rest =>
    if c == separator then [] :: pieces separator rest
    else
      match pieces separator rest with
      | [] => [[c]]
      | first :: others => (c :: first) :: others

/-- One side of a query pair: plus signs become spaces, then escapes become
bytes, and the bytes are read as text. -/
def formDecoded (cs : List Char) : String :=
  let spaced := String.ofList (cs.map fun c => if c == '+' then ' ' else c)
  String.ofList (lossyUtf8 (percentDecoded (utf8 spaced)))

/-- The pairs of a query in order. Empty pieces are no pairs; a piece without an
equals sign is a name with an empty value. -/
def queryPairs (query : List Char) : List (String × String) :=
  ((pieces '&' query).filter (!·.isEmpty)).map fun piece =>
    (formDecoded (piece.takeWhile (· != '=')), formDecoded ((piece.dropWhile (· != '=')).drop 1))

end Bourse.Text
