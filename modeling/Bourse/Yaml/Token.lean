import Bourse.Yaml.Scalar

/-!
# YAML tokens

Tokens show the structure of a document: where a mapping begins and ends, where a key
and where a value stands. A mapping in block style begins with its first key and ends
with the first token that is indented less. A key is recognised only by the colon
behind it, which has to follow on the same line within 1024 characters; the token that
announces the key is then put in front of it.

One mapping of scalars is all that a settings file needs. Sequences, mappings inside
of mappings, anchors, tags, directives and block scalars are refused where they begin.
-/

namespace Bourse.Yaml

/-- A part of the structure of a document. -/
inductive Token where
  | documentStart
  | documentEnd
  | blockStart
  | blockEnd
  | flowStart
  | flowEnd
  | separator
  | key
  | value
  | scalar (content : Scalar)
  deriving DecidableEq, Repr

/-- A place where a key may have begun. -/
structure KeyPlace where
  /-- How many tokens are in front of it. -/
  tokens : Nat
  line : Nat
  index : Nat
  column : Nat
  /-- Whether nothing but a key can stand there. -/
  required : Bool
  deriving Repr

/-- How far a document has been divided into tokens. -/
structure Scan where
  cursor : Cursor
  tokens : List Token
  /-- The column of the mapping in block style, if one is open. -/
  block : Option Nat
  /-- Whether a mapping in braces is open. -/
  inFlow : Bool
  /-- Where the last scalar began, if it may turn out to be a key. -/
  key : Option KeyPlace
  /-- Whether a key may begin at the next token. -/
  keyAllowed : Bool

namespace Scan

/-- A document before its first token. -/
def start (cs : List Char) : Scan where
  cursor := .start cs
  tokens := []
  block := none
  inFlow := false
  key := none
  keyAllowed := true

/-- The least column at which what belongs to the open mapping may stand. -/
def least (scan : Scan) : Nat := (scan.block.map (· + 1)).getD 0

/-- The scan with a further token. -/
def add (scan : Scan) (token : Token) : Scan := { scan with tokens := scan.tokens ++ [token] }

/-- The scan with a further token that takes one character. -/
def addMark (scan : Scan) (token : Token) : Scan :=
  { scan.add token with cursor := scan.cursor.forward }

/-- The scan at the next token. Space, comments and breaks are passed over. Tabs are
space in braces and behind the first token of a line; a byte-order mark may begin a
line. -/
def toToken : Nat → Scan → Scan
  | 0, scan => scan
  | fuel + 1, scan =>
    let cursor := scan.cursor
    let cursor :=
      if cursor.column == 0 && cursor.rest.head? == some '\uFEFF' then cursor.forward else cursor
    let tabs := scan.inFlow || !scan.keyAllowed
    let isPassed (c : Char) : Bool := c == ' ' || (tabs && c == '\t')
    let cursor := cursor.advance (cursor.rest.takeWhile isPassed).length
    let cursor :=
      if cursor.rest.head? == some '#' then
        cursor.advance (cursor.rest.takeWhile (!isBreak ·)).length
      else cursor
    if cursor.rest.head?.any isBreak then
      toToken fuel
        { scan with cursor := cursor.forward, keyAllowed := scan.keyAllowed || !scan.inFlow }
    else { scan with cursor }

/-- The scan without the place of a key. Where a key had to stand, none was found. -/
def dropKey (scan : Scan) : Option Scan :=
  if scan.key.any (·.required) then none else some { scan with key := none }

/-- The scan without the place of a key that is too far behind. -/
def forgetKey (scan : Scan) : Option Scan :=
  let isStale (place : KeyPlace) : Bool :=
    place.line < scan.cursor.line || place.index + 1024 < scan.cursor.index
  if scan.key.any isStale then scan.dropKey else some scan

/-- The scan with this place as one where a key may begin. In block style a key has to
begin at the column of the open mapping. -/
def markKey (scan : Scan) : Option Scan :=
  if scan.keyAllowed then do
    let scan ← scan.dropKey
    let cursor := scan.cursor
    let required := !scan.inFlow && scan.block == some cursor.column
    pure { scan with
      key := some ⟨scan.tokens.length, cursor.line, cursor.index, cursor.column, required⟩ }
  else some scan

/-- The scan with the open mapping in block style closed, if it does not reach up to a
column. -/
def closeBlock (scan : Scan) (least : Nat) : Scan :=
  if !scan.inFlow && least < scan.least then { scan.add .blockEnd with block := none } else scan

/-- The scan with a mapping in block style that begins at a column, in front of the
tokens from a place on, unless it is the one that is open. -/
def openBlock (scan : Scan) (column place : Nat) : Option Scan :=
  if scan.inFlow then some scan
  else
    match scan.block with
    | none =>
      some { scan with
        block := some column
        tokens := scan.tokens.take place ++ .blockStart :: scan.tokens.drop place }
    | some open_ => if open_ < column then none else some scan

/-- The scan behind the mark of a document. -/
def documentMark (scan : Scan) (token : Token) : Option Scan := do
  let scan ← (scan.closeBlock 0).dropKey
  pure { scan.add token with cursor := scan.cursor.advance 3, keyAllowed := false }

/-- The scan behind an opening brace. -/
def openFlow (scan : Scan) : Option Scan :=
  if scan.inFlow || scan.block.isSome then none
  else some { scan.addMark .flowStart with inFlow := true, key := none, keyAllowed := true }

/-- The scan behind a closing brace. -/
def closeFlow (scan : Scan) : Option Scan :=
  if scan.inFlow then
    some { scan.addMark .flowEnd with inFlow := false, key := none, keyAllowed := false }
  else none

/-- The scan behind a comma. -/
def separate (scan : Scan) : Option Scan :=
  if scan.inFlow then some { scan.addMark .separator with key := none, keyAllowed := true }
  else none

/-- The scan behind a question mark, which announces a key. -/
def announceKey (scan : Scan) : Option Scan :=
  if !scan.inFlow && !scan.keyAllowed then none
  else do
    let scan ← scan.openBlock scan.cursor.column scan.tokens.length
    let scan ← scan.dropKey
    pure { scan.addMark .key with keyAllowed := !scan.inFlow }

/-- The scan behind a colon, which announces a value. If a key may have begun before
it, one did. -/
def announceValue (scan : Scan) : Option Scan :=
  match scan.key with
  | some place => do
    let tokens := scan.tokens.take place.tokens ++ .key :: scan.tokens.drop place.tokens
    let scan ← { scan with tokens }.openBlock place.column place.tokens
    pure { scan.addMark .value with key := none, keyAllowed := false }
  | none =>
    if !scan.inFlow && !scan.keyAllowed then none
    else do
      let scan ← scan.openBlock scan.cursor.column scan.tokens.length
      pure { scan.addMark .value with keyAllowed := !scan.inFlow }

/-- The scan behind a quoted scalar. -/
def quoted (scan : Scan) (quotes : Quotes) : Option Scan := do
  let scan ← scan.markKey
  let (text, cursor) ← readQuoted quotes (scan.cursor.rest.length + 1) scan.cursor.forward
  pure { scan.add (.scalar (.quoted (String.ofList text))) with cursor, keyAllowed := false }

/-- The scan behind a plain scalar. -/
def plain (scan : Scan) : Option Scan := do
  let scan ← scan.markKey
  let read ← readPlain scan.inFlow scan.least (scan.cursor.rest.length + 1) [] scan.cursor
  pure { scan.add (.scalar (.plain (String.ofList read.text))) with
    cursor := read.cursor
    keyAllowed := read.broken }

/-- The characters that begin neither a plain scalar nor any token that is read. -/
def isRefused (c : Char) : Bool := "[]#&*!|>%@\t\x60".toList.contains c

/-- The scan behind the next token. -/
def step (scan : Scan) : Option Scan :=
  if scan.cursor.atMark "---" then scan.documentMark .documentStart
  else if scan.cursor.atMark "..." then scan.documentMark .documentEnd
  else
    match scan.cursor.rest with
    | [] => none
    | '{' :: _ => scan.openFlow
    | '}' :: _ => scan.closeFlow
    | ',' :: _ => scan.separate
    | '\'' :: _ => scan.quoted .single
    | '"' :: _ => scan.quoted .double
    | '-' :: rest => if wordEnds rest then none else scan.plain
    | '?' :: rest => if scan.inFlow || wordEnds rest then scan.announceKey else scan.plain
    | ':' :: rest => if scan.inFlow || wordEnds rest then scan.announceValue else scan.plain
    | c :: _ => if isRefused c then none else scan.plain

/-- The tokens of the whole document behind what was scanned. Every token takes a
character, so fuel above the length of what is left suffices. -/
def run : Nat → Scan → Option (List Token)
  | 0, _ => none
  | fuel + 1, scan => do
    let scan ← (toToken (scan.cursor.rest.length + 1) scan).forgetKey
    let scan := scan.closeBlock (scan.cursor.column + 1)
    if scan.cursor.rest.isEmpty then do
      let scan ← (scan.closeBlock 0).dropKey
      pure scan.tokens
    else run fuel (← scan.step)

end Scan

/-- The tokens of a document. A byte-order mark in front of it is no part of it. -/
def Token.ofDocument (text : String) : Option (List Token) :=
  let cs :=
    match text.toList with
    | '\uFEFF' :: rest => rest
    | cs => cs
  if cs.all isAllowed then Scan.run (cs.length + 1) (.start (normalised cs)) else none

end Bourse.Yaml
