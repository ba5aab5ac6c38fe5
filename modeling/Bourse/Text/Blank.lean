/-!
# Blank characters and trimming

A character is blank when it has the Unicode property White_Space. Trimming
removes the blanks at both ends of a text and keeps those inside it.
-/

namespace Bourse.Text

/-- The characters with the property White_Space. The separators of information
(U+001C to U+001F), the Mongolian vowel separator, the zero-width space and the
byte-order mark do not have it. -/
def isBlank (c : Char) : Bool :=
  ('\t' ≤ c && c ≤ '\r') || c == ' ' || c == '\u0085' || c == '\u00A0' || c == '\u1680' ||
    ('\u2000' ≤ c && c ≤ '\u200A') || c == '\u2028' || c == '\u2029' || c == '\u202F' ||
    c == '\u205F' || c == '\u3000'

/-- The characters after the leading blanks. -/
def dropBlanks (cs : List Char) : List Char := cs.dropWhile isBlank

/-- The characters between the leading and the trailing blanks. -/
def trimmed (cs : List Char) : List Char := (dropBlanks (dropBlanks cs).reverse).reverse

end Bourse.Text
