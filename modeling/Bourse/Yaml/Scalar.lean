import Bourse.Text.Hexadecimal
import Bourse.Yaml.Cursor

/-!
# YAML scalars

A scalar is plain or quoted and may go on over several lines. Where it does, the space
around a break vanishes. A single line feed becomes a blank; of several the first one
vanishes and the others stay. Separators stay as they are. A break behind a backslash
in double quotes vanishes with the backslash.
-/

namespace Bourse.Yaml

/-- A scalar. Plain ones and quoted ones stay apart, since a plain scalar can be a
number or nothing at all. -/
inductive Scalar where
  | plain (text : String)
  | quoted (text : String)
  deriving DecidableEq, Repr

/-- The text of a scalar, quoted or not. -/
def Scalar.text : Scalar → String
  | .plain text => text
  | .quoted text => text

/-- Whether a scalar stands for nothing. -/
def Scalar.isNull : Scalar → Bool
  | .plain text => ["", "~", "null", "Null", "NULL"].contains text
  | .quoted _ => false

/-- What the breaks between two parts of a scalar become. -/
def folded : List Char → List Char
  | ['\n'] => [' ']
  | '\n' :: others => others
  | breaks => breaks

/-- What the gap between two parts of a scalar becomes: space within a line stays. -/
def joined (gap : List Char) : List Char :=
  if gap.any isBreak then folded (gap.filter isBreak) else gap

/-- The characters that end a plain scalar in braces. -/
def isFlowMark (c : Char) : Bool := ",[]\x7b\x7d".toList.contains c

/-- A plain scalar up to a space, a break or a separator. In braces the marks of the
mapping are separators too, and none may follow a colon at once. -/
def plainRun (inFlow : Bool) : List Char → Option (List Char)
  | [] => some []
  | c :: rest =>
    if isSpace c || isBreak c then some []
    else if inFlow && c == ':' && rest.head?.any fun next => isFlowMark next || next == '?' then
      none
    else if (c == ':' && wordEnds rest) || (inFlow && isFlowMark c) then some []
    else (plainRun inFlow rest).map (c :: ·)

/-- Whether a tab stands in front of a column on a line behind the first break. -/
def indentsWithTab (least : Nat) : (column : Option Nat) → List Char → Bool
  | _, [] => false
  | column, c :: rest =>
    if isBreak c then indentsWithTab least (some 0) rest
    else (c == '\t' && column.any (· < least)) ||
      indentsWithTab least (column.map (· + 1)) rest

/-- What was read of a plain scalar. -/
structure PlainText where
  text : List Char
  /-- Whether a break stands between the text and the cursor. -/
  broken : Bool
  cursor : Cursor

/-- A plain scalar behind a gap. Its lines are indented by `least` or more; it ends at
a comment, at a separator, and where a document ends. Every part of it takes a
character, so fuel above the length of what is left suffices. -/
def readPlain (inFlow : Bool) (least : Nat) : Nat → List Char → Cursor → Option PlainText
  | 0, _, _ => none
  | fuel + 1, gap, cursor => do
    let stops := cursor.atDocumentMark || cursor.rest.head? == some '#'
    let run ← if stops then some [] else plainRun inFlow cursor.rest
    if run.isEmpty then pure ⟨[], gap.any isBreak, cursor⟩
    else
      let text := joined gap ++ run
      let cursor := cursor.advance run.length
      let next := gapOf cursor.rest
      if next.isEmpty then pure ⟨text, false, cursor⟩
      else if indentsWithTab least none next then none
      else
        let cursor := cursor.advance next.length
        if !inFlow && cursor.column < least then pure ⟨text, next.any isBreak, cursor⟩
        else
          let later ← readPlain inFlow least fuel next cursor
          pure { later with text := text ++ later.text }

/-- The character that hexadecimal digits stand for, and what is behind them. -/
def hexEscape (count : Nat) (cs : List Char) : Option (Char × List Char) := do
  let digits ← (cs.take count).mapM Text.hexDigit?
  let value := digits.foldl (fun value digit => value * 16 + digit) 0
  if digits.length = count ∧ value.isValidChar then pure (Char.ofNat value, cs.drop count)
  else none

/-- The character that a one-letter escape stands for. -/
def shortEscape? : Char → Option Char
  | '0' => some '\x00'
  | 'a' => some '\x07'
  | 'b' => some '\x08'
  | 't' => some '\t'
  | '\t' => some '\t'
  | 'n' => some '\n'
  | 'v' => some '\x0B'
  | 'f' => some '\x0C'
  | 'r' => some '\r'
  | 'e' => some '\x1B'
  | ' ' => some ' '
  | '"' => some '"'
  | '/' => some '/'
  | '\\' => some '\\'
  | 'N' => some '\u0085'
  | '_' => some '\u00A0'
  | 'L' => some '\u2028'
  | 'P' => some '\u2029'
  | _ => none

/-- The character of an escape behind its backslash, and what is behind it. -/
def readEscape : List Char → Option (Char × List Char)
  | 'x' :: rest => hexEscape 2 rest
  | 'u' :: rest => hexEscape 4 rest
  | 'U' :: rest => hexEscape 8 rest
  | c :: rest => (shortEscape? c).map fun meant => (meant, rest)
  | [] => none

/-- The two kinds of quotes. -/
inductive Quotes where
  | single
  | double
  deriving DecidableEq, Repr

/-- The character that opens and closes a scalar. -/
def Quotes.mark : Quotes → Char
  | .single => '\''
  | .double => '"'

/-- A part of a quoted scalar: its text, what is behind it, and whether it ended with
an escaped break. -/
structure QuotedRun where
  text : List Char
  rest : List Char
  escapedBreak : Bool

/-- A quoted scalar up to a space, a break or the closing mark. In single quotes the
mark is written twice, in double quotes it is escaped. Every character takes some of
the text, so fuel above its length suffices. -/
def quotedRun (quotes : Quotes) : Nat → List Char → Option QuotedRun
  | 0, _ => none
  | fuel + 1, cs =>
    let behind (c : Char) (rest : List Char) : Option QuotedRun :=
      (quotedRun quotes fuel rest).map fun run => { run with text := c :: run.text }
    match quotes, cs with
    | .single, '\'' :: '\'' :: rest => behind '\'' rest
    | .double, '\\' :: rest =>
      if rest.head?.any isBreak then some ⟨[], rest.drop 1, true⟩
      else do
        let (c, rest) ← readEscape rest
        behind c rest
    | _, c :: rest =>
      if c == quotes.mark || isSpace c || isBreak c then some ⟨[], c :: rest, false⟩
      else behind c rest
    | _, [] => some ⟨[], [], false⟩

/-- A quoted scalar behind its opening mark, and the place behind its closing one. No
document may begin or end inside of it. -/
def readQuoted (quotes : Quotes) : Nat → Cursor → Option (List Char × Cursor)
  | 0, _ => none
  | fuel + 1, cursor => do
    if cursor.atDocumentMark || cursor.rest.isEmpty then none
    else
      let run ← quotedRun quotes (cursor.rest.length + 1) cursor.rest
      let cursor := cursor.behind run.rest
      if cursor.rest.head? == some quotes.mark then pure (run.text, cursor.forward)
      else
        let gap := gapOf cursor.rest
        let between := if run.escapedBreak then gap.filter isBreak else joined gap
        let (later, cursor) ← readQuoted quotes fuel (cursor.advance gap.length)
        pure (run.text ++ between ++ later, cursor)

end Bourse.Yaml
