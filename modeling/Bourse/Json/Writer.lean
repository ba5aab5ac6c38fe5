import Bourse.Json.Basic
import Bourse.Text.Decimal
import Bourse.Text.Hexadecimal

/-!
# Writing JSON

Documents are written in two layouts with the same literals: without any space,
or with one item to a line under an indentation of two spaces. Strings escape the
quotation mark, the backslash and the control characters, and nothing else.
-/

namespace Bourse.Json

/-- The escape of a character inside a string, or the character itself. -/
def escaped (c : Char) : List Char :=
  if c == '"' then ['\\', '"']
  else if c == '\\' then ['\\', '\\']
  else if c == '\u0008' then ['\\', 'b']
  else if c == '\t' then ['\\', 't']
  else if c == '\n' then ['\\', 'n']
  else if c == '\u000C' then ['\\', 'f']
  else if c == '\r' then ['\\', 'r']
  else if c < ' ' then
    ['\\', 'u', '0', '0', Text.hexDigit (c.toNat / 16), Text.hexDigit (c.toNat % 16)]
  else [c]

/-- A string literal. What denotes no text is written as half of a surrogate pair. -/
def writeString : Literal → List Char
  | some value => '"' :: (value.toList.flatMap escaped ++ ['"'])
  | none => "\"\\ud800\"".toList

/-- A number in its plain form, a decimal with its exponent. -/
def writeNumber : Number → List Char
  | .integer negative magnitude => (if negative then ['-'] else []) ++ Text.digits magnitude
  | .decimal negative mantissa exponent =>
    (if negative then ['-'] else []) ++ Text.digits mantissa ++ 'e' ::
      ((if exponent < 0 then ['-'] else []) ++ Text.digits exponent.natAbs)

mutual

/-- A document without any space. -/
def write : Json → List Char
  | .null => "null".toList
  | .bool true => "true".toList
  | .bool false => "false".toList
  | .number value => writeNumber value
  | .string value => writeString value
  | .array [] => "[]".toList
  | .array (item :: rest) => '[' :: (item.write ++ writeItems rest)
  | .object [] => "\x7b\x7d".toList
  | .object ((key, value) :: rest) =>
    '{' :: (writeString key ++ ':' :: (value.write ++ writeMembers rest))
  | .cut => []

/-- The items behind the first one, and the end of the array. -/
def writeItems : List Json → List Char
  | [] => [']']
  | item :: rest => ',' :: (item.write ++ writeItems rest)

/-- The members behind the first one, and the end of the object. -/
def writeMembers : List (Literal × Json) → List Char
  | [] => ['}']
  | (key, value) :: rest => ',' :: (writeString key ++ ':' :: (value.write ++ writeMembers rest))

end

/-- The text of a document without any space. -/
def compact (document : Json) : String := String.ofList document.write

/-- A line break and the indentation of a level. -/
def newLine (level : Nat) : List Char := '\n' :: List.replicate (2 * level) ' '

mutual

/-- A document with one item to a line, at a level of indentation. -/
def layOut (level : Nat) : Json → List Char
  | .array (item :: rest) =>
    '[' :: (newLine (level + 1) ++ item.layOut (level + 1) ++ layOutItems level rest)
  | .object ((key, value) :: rest) =>
    '{' :: (newLine (level + 1) ++ writeString key ++ ':' :: ' ' ::
      (value.layOut (level + 1) ++ layOutMembers level rest))
  | .array [] => "[]".toList
  | .object [] => "\x7b\x7d".toList
  | .null => "null".toList
  | .bool true => "true".toList
  | .bool false => "false".toList
  | .number value => writeNumber value
  | .string value => writeString value
  | .cut => []

/-- The items behind the first one, and the end of the array. -/
def layOutItems (level : Nat) : List Json → List Char
  | [] => newLine level ++ [']']
  | item :: rest =>
    ',' :: (newLine (level + 1) ++ item.layOut (level + 1) ++ layOutItems level rest)

/-- The members behind the first one, and the end of the object. -/
def layOutMembers (level : Nat) : List (Literal × Json) → List Char
  | [] => newLine level ++ ['}']
  | (key, value) :: rest =>
    ',' :: (newLine (level + 1) ++ writeString key ++ ':' :: ' ' ::
      (value.layOut (level + 1) ++ layOutMembers level rest))

end

/-- The text of a document with one item to a line. -/
def indented (document : Json) : String := String.ofList (document.layOut 0)

end Bourse.Json
