import Bourse.Json.Basic
import Bourse.Word

/-!
# Decoding documents

A decoder gives the value that a document stands for, or the first fault in the
order of its text. A fault lies either in the text, where it stops being JSON or
holds a literal that denotes nothing, or in the shape, where it is JSON that does
not fit. A value of the wrong kind is a fault of shape, but a scalar is read to its
end before it is refused, so a fault inside of it comes first.

Decoding from a buffered document differs from decoding straight from text in the
names of an enumeration only.
-/

namespace Bourse.Json

/-- Where a document fails: in its text or in its shape. -/
inductive Fault where
  | text
  | shape
  deriving DecidableEq, Repr

/-- How a document reaches its decoder: straight from its text, or from a buffer
that holds the whole document. -/
inductive Route where
  | direct
  | buffered
  deriving DecidableEq, Repr

/-- The fault of a value of the wrong kind. -/
def mismatch : Json → Fault
  | .cut => .text
  | .string none => .text
  | .number value => if value.beyondDouble then .text else .shape
  | _ => .shape

/-- A text. -/
def toText : Json → Except Fault String
  | .string (some value) => .ok value
  | other => .error (mismatch other)

/-- An integer between two bounds, both included. Minus zero and every number with
a fraction or an exponent are no integers. -/
def toInteger (low high : Int) (document : Json) : Except Fault Int :=
  match document with
  | .number (.integer negative magnitude) =>
    let value : Int := if negative then -magnitude else magnitude
    if (negative && magnitude == 0) || value < low || high < value then
      .error (mismatch document)
    else .ok value
  | other => .error (mismatch other)

/-- A signed integer of 64 bits. -/
def toInt64 : Json → Except Fault Int := toInteger Word.least Word.greatest

/-- An unsigned integer of 64 bits. -/
def toNat64 (document : Json) : Except Fault Nat :=
  (toInteger 0 (Word.limit - 1) document).map Int.toNat

/-- A value that null leaves out. -/
def toOptional {α : Type} (decode : Json → Except Fault α) : Json → Except Fault (Option α)
  | .null => .ok none
  | other => (decode other).map some

/-- Whether a document says nothing more than the name in front of it: null, and
in a buffer the empty object too. -/
def isUnit : Route → Json → Bool
  | _, .null => true
  | .buffered, .object [] => true
  | _, _ => false

/-- The value of a name in a table. -/
def named {α : Type} (names : List (String × α)) (name : String) : Except Fault α :=
  match names.lookup name with
  | some value => .ok value
  | none => .error .shape

/-- A name of an enumeration, alone or as the only key of an object whose value
says nothing more. -/
def toName {α : Type} (names : List (String × α)) (route : Route) : Json → Except Fault α
  | .string (some name) => named names name
  | .object ((some name, value) :: others) => do
    let found ← named names name
    if !isUnit route value then .error (mismatch value)
    else if others.isEmpty then .ok found
    else .error .text
  | .string none => .error .text
  | .object _ => .error .text
  | .cut => .error .text
  | _ => .error (match route with | .direct => .text | .buffered => .shape)

/-- A list of values of one kind. -/
def toList {α : Type} (decode : Json → Except Fault α) : Json → Except Fault (List α)
  | .array items => items.mapM decode
  | other => .error (mismatch other)

/-- A list of exactly `count` values of one kind. Further items are a fault of the
text, missing ones a fault of the shape. -/
def toVector {α : Type} (decode : Json → Except Fault α) (count : Nat) :
    Json → Except Fault (Vector α count)
  | .array items => do
    let values ← (items.take count).mapM decode
    if count < items.length then .error .text
    else if complete : values.length = count then .ok ⟨values.toArray, by simpa using complete⟩
    else .error .shape
  | other => .error (mismatch other)

end Bourse.Json
