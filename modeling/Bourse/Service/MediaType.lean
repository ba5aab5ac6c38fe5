/-!
# Media types

A content type names a type, a subtype with an optional suffix behind its last plus
sign, and parameters. JSON is what is of the type `application` and has `json` as its
subtype or suffix, in any letter case. A content type that is not well formed is no
media type.
-/

namespace Bourse

namespace MediaType

/-- The characters of names in a media type. -/
def isTokenChar (c : Char) : Bool :=
  c.isAlphanum || "!#$%&'*+-.^_|~".toList.contains c || c == '\x60'

/-- The characters that a quoted parameter may hold. -/
def isQuotedChar (c : Char) : Bool := ' ' ≤ c && c < '\x7F' && c != '"'

/-- What stands behind a quoted parameter: the rest behind the semicolon. -/
def afterQuoted (cs : List Char) : Option (List Char) :=
  match cs.dropWhile (· == ' ') with
  | [] => some []
  | ';' :: rest => some rest
  | _ => none

/-- What stands behind a quoted value, from its opening quotation mark on. A value is
not empty: a second quotation mark right behind the first one is part of it. -/
def afterQuotedValue : List Char → Option (List Char)
  | first :: rest =>
    if isQuotedChar first || first == '"' then
      match rest.dropWhile isQuotedChar with
      | '"' :: rest => afterQuoted rest
      | _ => none
    else none
  | [] => none

/-- What stands behind one parameter and the spaces in front of it, if it is well
formed. Spaces alone are no parameter and do no harm. -/
def afterParameter (cs : List Char) : Option (List Char) :=
  let cs := cs.dropWhile (· == ' ')
  match cs.takeWhile isTokenChar, cs.dropWhile isTokenChar with
  | [], [] => some []
  | _ :: _, '=' :: '"' :: rest => afterQuotedValue rest
  | _ :: _, '=' :: rest =>
    match rest.takeWhile isTokenChar, rest.dropWhile isTokenChar with
    | _, [] => some []
    | _ :: _, ';' :: rest => some rest
    | _, _ => none
  | _, _ => none

/-- Whether parameters are well formed. A parameter takes at least one character, so
fuel of their length suffices. -/
def parametersFit : Nat → List Char → Bool
  | _, [] => true
  | 0, _ => false
  | fuel + 1, cs =>
    match afterParameter cs with
    | some rest => parametersFit fuel rest
    | none => false

/-- A subtype in front of its suffix, and the suffix behind its last plus sign. A plus
sign with nothing in front of it begins no suffix. -/
def splitSuffix : List Char → List Char × Option (List Char)
  | [] => ([], none)
  | first :: rest =>
    if rest.contains '+' then
      let backwards := rest.reverse
      (first :: ((backwards.dropWhile (· != '+')).drop 1).reverse,
        some (backwards.takeWhile (· != '+')).reverse)
    else (first :: rest, none)

end MediaType

/-- Whether a content type stands for JSON. -/
def isJsonMediaType (contentType : String) : Bool :=
  let cs := contentType.toList
  let names (cs : List Char) (name : String) : Bool :=
    String.ofList (cs.map Char.toLower) == name
  let type := cs.takeWhile MediaType.isTokenChar
  match cs.dropWhile MediaType.isTokenChar with
  | '/' :: rest =>
    let (subtype, suffix) := MediaType.splitSuffix (rest.takeWhile MediaType.isTokenChar)
    let wellFormed :=
      match rest.dropWhile MediaType.isTokenChar with
      | [] => true
      | ';' :: parameters => MediaType.parametersFit parameters.length parameters
      | _ => false
    wellFormed && names type "application" &&
      (names subtype "json" || suffix.any (names · "json"))
  | _ => false

end Bourse
