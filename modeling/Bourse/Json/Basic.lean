import Bourse.Json.Number

/-!
# JSON documents

A document keeps what a consumer can tell apart: the members of an object in
their order and with repetitions, integers of a word apart from other numbers, and
literals that are well formed but denote nothing. A document read from faulty text
ends in a cut, so a consumer that walks it in the order of the text meets the first
fault there, whether of the text or of its own making.
-/

namespace Bourse

namespace Json

/-- What the quotes of a string literal enclose. An escape that names half of a
surrogate pair alone denotes no text. -/
abbrev Literal := Option String

end Json

/-- A document, or as much of one as its text holds. -/
inductive Json where
  | null
  | bool (value : Bool)
  | number (value : Json.Number)
  | string (value : Json.Literal)
  | array (items : List Json)
  | object (members : List (Json.Literal × Json))
  | cut
  deriving Repr, Inhabited

namespace Json

/-- A string that denotes a text. -/
def text (value : String) : Json := .string (some value)

/-- An integer in its plain form. -/
def int (value : Int) : Json := .number (.integer (value < 0) value.natAbs)

/-- A number that is not negative, in its plain form. -/
def nat (value : Nat) : Json := .number (.integer false value)

/-- An object whose keys denote texts. -/
def record (members : List (String × Json)) : Json :=
  .object (members.map fun (key, value) => (some key, value))

/-- An optional value; its absence is written as null. -/
def nullable {α : Type} (write : α → Json) : Option α → Json
  | none => .null
  | some value => write value

mutual

/-- Whether the document has no cut, so that its whole text was read. -/
def isWhole : Json → Bool
  | .cut => false
  | .array items => itemsWhole items
  | .object members => membersWhole members
  | _ => true

/-- Whether no item has a cut. -/
def itemsWhole : List Json → Bool
  | [] => true
  | item :: rest => item.isWhole && itemsWhole rest

/-- Whether no member has a cut. -/
def membersWhole : List (Literal × Json) → Bool
  | [] => true
  | (_, value) :: rest => value.isWhole && membersWhole rest

end

mutual

/-- How deeply arrays and objects are nested. -/
def depth : Json → Nat
  | .array items => itemsDepth items + 1
  | .object members => membersDepth members + 1
  | _ => 0

/-- The depth of the deepest item. -/
def itemsDepth : List Json → Nat
  | [] => 0
  | item :: rest => max item.depth (itemsDepth rest)

/-- The depth of the deepest member. -/
def membersDepth : List (Literal × Json) → Nat
  | [] => 0
  | (_, value) :: rest => max value.depth (membersDepth rest)

end

mutual

/-- Whether every literal of the document denotes something: each string and each
key a text, each number a double. -/
def isDenoting : Json → Bool
  | .string literal => literal.isSome
  | .number value => !value.beyondDouble
  | .array items => itemsDenoting items
  | .object members => membersDenoting members
  | _ => true

/-- Whether every literal of the items denotes something. -/
def itemsDenoting : List Json → Bool
  | [] => true
  | item :: rest => item.isDenoting && itemsDenoting rest

/-- Whether every key and every literal of the members denotes something. -/
def membersDenoting : List (Literal × Json) → Bool
  | [] => true
  | (key, value) :: rest => key.isSome && value.isDenoting && membersDenoting rest

end

end Json

end Bourse
