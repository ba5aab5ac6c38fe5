/-!
# Alignment

A text is brought to a width with blanks. A text that is as wide or wider is left as
it is.
-/

namespace Bourse.Text

/-- A text with blanks in front of it up to a width. -/
def alignRight (width : Nat) (text : String) : String :=
  String.ofList (List.replicate (width - text.length) ' ') ++ text

/-- A text with blanks behind it up to a width. -/
def alignLeft (width : Nat) (text : String) : String :=
  text ++ String.ofList (List.replicate (width - text.length) ' ')

end Bourse.Text
