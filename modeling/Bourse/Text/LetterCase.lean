import Bourse.Text.Blank

/-!
# Names without letter case

Names are compared after trimming and lower-casing. A name consists of ASCII
characters, so the only characters whose lower-case form can take part in a match
are the ASCII capitals and the Kelvin sign, whose lower-case form is the ASCII
`k`. Every other character keeps a form outside ASCII and matches no name.
-/

namespace Bourse.Text

/-- The lower-case form, for the characters whose lower-case form is ASCII. -/
def lowerChar (c : Char) : Char := if c == '\u212A' then 'k' else c.toLower

/-- A text as it is compared with names: without outer blanks, in lower case. -/
def folded (text : String) : String :=
  String.ofList ((trimmed text.toList).map lowerChar)

/-- The value that a table of names gives to a text, in any letter case and
with any blanks around it. -/
def lookup {α : Type} (names : List (String × α)) (text : String) : Option α :=
  names.lookup (folded text)

end Bourse.Text
