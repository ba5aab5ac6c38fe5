import Bourse.Text.Percent

/-!
# Targets of addresses

A client builds the address of what it asks for as plain text, and only then is the
text read as an address. Tabs and line breaks in it vanish, backslashes count as
slashes, segments of dots are followed, and what may not stand in a path is escaped;
a percent sign may, and is left alone. A question mark ends the path, a number sign
ends the target.
-/

namespace Bourse.Client

/-- Whether a segment stays where it is: one dot, plain or escaped. -/
def isSingleDot (segment : List Char) : Bool :=
  [".", "%2e"].contains (String.ofList (segment.map Char.toLower))

/-- Whether a segment goes one up: two dots, plain or escaped. -/
def isDoubleDot (segment : List Char) : Bool :=
  ["..", ".%2e", "%2e.", "%2e%2e"].contains (String.ofList (segment.map Char.toLower))

/-- The segments of a path behind those that are known, the last of these first, once
dots are followed. Dots at the end leave an empty segment. -/
def followDots (known : List (List Char)) : List (List Char) → List (List Char)
  | [] => known.reverse
  | segment :: rest =>
    let here :=
      if isDoubleDot segment then known.drop 1
      else if isSingleDot segment then known
      else segment :: known
    if rest.isEmpty && (isDoubleDot segment || isSingleDot segment) then ([] :: here).reverse
    else followDots here rest

/-- Whether a character is escaped in a path. -/
def isEscapedInPath (c : Char) : Bool :=
  c ≤ ' ' || '~' < c || "\"#<>?\x60\x7b\x7d".toList.contains c

/-- Whether a character is escaped in a query. -/
def isEscapedInQuery (c : Char) : Bool :=
  c ≤ ' ' || '~' < c || "\"#<>'".toList.contains c

/-- Characters with those of a class escaped. -/
def escaped (isEscaped : Char → Bool) (cs : List Char) : List Char :=
  cs.flatMap fun c =>
    if isEscaped c then (String.utf8EncodeChar c).flatMap Text.percentEncoded else [c]

/-- The target of an address whose text goes on with a slash behind its server. -/
def targetOf (text : String) : String :=
  let cs := text.toList.filter fun c => !(c == '\t' || c == '\n' || c == '\r')
  let cs := cs.takeWhile (· != '#')
  let path := (cs.takeWhile (· != '?')).map fun c => if c == '\\' then '/' else c
  let segments := followDots [] ((Text.pieces '/' path).drop 1)
  let query :=
    match cs.dropWhile (· != '?') with
    | [] => []
    | mark :: query => mark :: escaped isEscapedInQuery query
  String.ofList (segments.flatMap (fun segment => '/' :: escaped isEscapedInPath segment) ++ query)

end Bourse.Client
