import Bourse.Json.Decoder

/-!
# Decoding records

A record is decoded from an object, whose members come in any order, or from an
array with the fields in the order of their declaration. Members that are no
fields are passed over without a look at what they hold, as long as it is JSON. A
field that is given twice is a fault, and so is a field that is missing, unless it
has a value for its absence. An array may leave off such fields at its end and may
not go on behind the last field.

The fields of a record are combined like arguments: `Fields` is a functor, and
`f <*> g` has the fields of `f` in front of those of `g`.
-/

namespace Bourse.Json

/-- The fields that make up a value: their names in the order of declaration, the
check of a single field, and the value that all of them give together. -/
structure Fields (α : Type) where
  names : List String
  check : String → Json → Except Fault Unit
  build : (String → Option Json) → Except Fault α

namespace Fields

variable {α β : Type}

/-- A single field. Without a value for its absence it has to be there. -/
def single (name : String) (decode : Json → Except Fault α) (absent : Option α) :
    Fields α where
  names := [name]
  check key value := if key = name then (decode value).map fun _ => () else .ok ()
  build get :=
    match get name, absent with
    | some value, _ => decode value
    | none, some value => .ok value
    | none, none => .error .shape

/-- A field that has to be there. -/
def required (name : String) (decode : Json → Except Fault α) : Fields α :=
  single name decode none

/-- A field with a value for its absence. -/
def defaulted (name : String) (decode : Json → Except Fault α) (absent : α) : Fields α :=
  single name decode (some absent)

/-- A field that may be missing or null. -/
def optional (name : String) (decode : Json → Except Fault α) : Fields (Option α) :=
  defaulted name (toOptional decode) none

/-- The same fields with a function on the value they give. -/
def map (f : α → β) (fields : Fields α) : Fields β where
  names := fields.names
  check := fields.check
  build get := (fields.build get).map f

/-- The fields of a function and those of its argument. -/
def apply (function : Fields (α → β)) (argument : Fields α) : Fields β where
  names := function.names ++ argument.names
  check key value := do
    function.check key value
    argument.check key value
  build get := do
    let f ← function.build get
    let a ← argument.build get
    pure (f a)

instance : Functor Fields where
  map := map

instance : Seq Fields where
  seq function argument := apply function (argument ())

/-- The members of an object up to the first fault, behind the fields seen. -/
def checkMembers (fields : Fields α) :
    List String → List (Literal × Json) → Except Fault Unit
  | _, [] => .ok ()
  | _, (none, _) :: _ => .error .text
  | seen, (some key, value) :: rest =>
    if key ∈ fields.names then
      if key ∈ seen then .error .shape
      else do
        fields.check key value
        checkMembers fields (key :: seen) rest
    else if value.isWhole then checkMembers fields seen rest
    else .error .text

/-- The items of an array up to the first fault, for the fields that are left. -/
def checkItems (fields : Fields α) : List String → List Json → Except Fault Unit
  | _, [] => .ok ()
  | [], _ :: _ => .error .text
  | name :: names, item :: rest => do
    fields.check name item
    checkItems fields names rest

/-- The value that a document gives for the fields. -/
def decode (fields : Fields α) : Json → Except Fault α
  | .object members => do
    fields.checkMembers [] members
    fields.build fun name => members.lookup (some name)
  | .array items => do
    fields.checkItems fields.names items
    fields.build fun name => (fields.names.zip items).lookup name
  | other => .error (mismatch other)

end Fields

end Bourse.Json
