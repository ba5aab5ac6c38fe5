/-!
# Places in a YAML document

A document is read from its first character to its last by a cursor, which knows the
characters still to come and its own line and column. A line ends with a line feed, a
carriage return, both of these, or one of three breaks beyond ASCII. All but the line
and the paragraph separator stand for the same break, so they become line feeds before
the reading begins.
-/

namespace Bourse.Yaml

/-- The characters that a document may hold. -/
def isAllowed (c : Char) : Bool :=
  c == '\t' || c == '\n' || c == '\r' || (' ' ≤ c && c ≤ '~') || c == '\u0085' ||
    ('\u00A0' ≤ c && c ≤ '\uFFFD') || '\uFFFF' < c

/-- The characters of a document with one line feed for every break that is no
separator. -/
def normalised : List Char → List Char
  | '\r' :: '\n' :: rest => '\n' :: normalised rest
  | c :: rest => (if c == '\r' || c == '\u0085' then '\n' else c) :: normalised rest
  | [] => []

/-- Space inside of a line. -/
def isSpace (c : Char) : Bool := c == ' ' || c == '\t'

/-- A line feed or one of the two separators. -/
def isBreak (c : Char) : Bool := c == '\n' || c == '\u2028' || c == '\u2029'

/-- Whether a word ends in front of these characters: at space, at a break or at the
end of the document. -/
def wordEnds : List Char → Bool
  | [] => true
  | c :: _ => isSpace c || isBreak c

/-- The space and the breaks at the beginning. -/
def gapOf (cs : List Char) : List Char := cs.takeWhile fun c => isSpace c || isBreak c

/-- A place in a document. -/
structure Cursor where
  /-- The characters from here on. -/
  rest : List Char
  /-- How many characters are behind this place. -/
  index : Nat
  line : Nat
  column : Nat
  deriving Repr

namespace Cursor

/-- The beginning of a document. -/
def start (cs : List Char) : Cursor := ⟨cs, 0, 0, 0⟩

/-- The place behind the next character. -/
def forward (cursor : Cursor) : Cursor :=
  match cursor.rest with
  | [] => cursor
  | c :: rest =>
    if isBreak c then ⟨rest, cursor.index + 1, cursor.line + 1, 0⟩
    else ⟨rest, cursor.index + 1, cursor.line, cursor.column + 1⟩

/-- The place behind several characters. -/
def advance : (count : Nat) → Cursor → Cursor
  | 0, cursor => cursor
  | count + 1, cursor => advance count cursor.forward

/-- The place at which these characters are left. -/
def behind (cursor : Cursor) (rest : List Char) : Cursor :=
  cursor.advance (cursor.rest.length - rest.length)

/-- Whether a mark of three characters stands here alone, at the beginning of a line. -/
def atMark (cursor : Cursor) (mark : String) : Bool :=
  cursor.column == 0 && cursor.rest.take 3 == mark.toList && wordEnds (cursor.rest.drop 3)

/-- Whether a document begins or ends here. -/
def atDocumentMark (cursor : Cursor) : Bool := cursor.atMark "---" || cursor.atMark "..."

end Cursor

end Bourse.Yaml
