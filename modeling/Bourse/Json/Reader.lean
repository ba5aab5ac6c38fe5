import Bourse.Json.Basic
import Bourse.Text.Hexadecimal

/-!
# Reading JSON

Reading is total: it gives a document and, if the text held a whole one, the
characters behind it. Where the text stops being JSON the document has a cut, and
everything read before stands in front of it. Space is a blank, a tab, a line feed
or a carriage return, and nothing else may stand between two tokens.
-/

namespace Bourse.Json

/-- The characters behind leading space. -/
def skipSpace (cs : List Char) : List Char :=
  cs.dropWhile fun c => c == ' ' || c == '\n' || c == '\t' || c == '\r'

/-- The code unit that four hexadecimal digits stand for. -/
def codeUnit? (a b c d : Char) : Option Nat := do
  let a ← Text.hexDigit? a
  let b ← Text.hexDigit? b
  let c ← Text.hexDigit? c
  let d ← Text.hexDigit? d
  pure (((a * 16 + b) * 16 + c) * 16 + d)

/-- The character that a one-letter escape stands for. -/
def shortEscape? : Char → Option Char
  | '"' => some '"'
  | '\\' => some '\\'
  | '/' => some '/'
  | 'b' => some '\u0008'
  | 'f' => some '\u000C'
  | 'n' => some '\n'
  | 'r' => some '\r'
  | 't' => some '\t'
  | _ => none

/-- The code points and escaped code units up to the closing quotation mark, and
the characters behind it. -/
def readUnits : List Char → Option (List Nat × List Char)
  | '"' :: rest => some ([], rest)
  | '\\' :: 'u' :: a :: b :: c :: d :: rest => do
    let unit ← codeUnit? a b c d
    let (units, rest) ← readUnits rest
    pure (unit :: units, rest)
  | '\\' :: e :: rest => do
    let c ← shortEscape? e
    let (units, rest) ← readUnits rest
    pure (c.toNat :: units, rest)
  | c :: rest =>
    if c < ' ' then none
    else do
      let (units, rest) ← readUnits rest
      pure (c.toNat :: units, rest)
  | [] => none

/-- Whether a code unit is the first half of a surrogate pair. -/
def isLeading (unit : Nat) : Bool := 0xD800 ≤ unit && unit < 0xDC00

/-- Whether a code unit is the second half of a surrogate pair. -/
def isTrailing (unit : Nat) : Bool := 0xDC00 ≤ unit && unit < 0xE000

/-- The characters that code units stand for, if no surrogate is without its
other half. -/
def joinUnits : List Nat → Option (List Char)
  | leading :: trailing :: rest =>
    if isLeading leading && isTrailing trailing then
      (joinUnits rest).map
        (Char.ofNat (0x10000 + (leading - 0xD800) * 0x400 + (trailing - 0xDC00)) :: ·)
    else if isLeading leading || isTrailing leading then none
    else (joinUnits (trailing :: rest)).map (Char.ofNat leading :: ·)
  | [unit] => if isLeading unit || isTrailing unit then none else some [Char.ofNat unit]
  | [] => some []

/-- A string literal behind its opening quotation mark. -/
def readLiteral (cs : List Char) : Option (Literal × List Char) :=
  (readUnits cs).map fun (units, rest) => ((joinUnits units).map String.ofList, rest)

/-- The leading digits and the characters behind them. -/
def spanDigits (cs : List Char) : List Char × List Char :=
  (cs.takeWhile Char.isDigit, cs.dropWhile Char.isDigit)

/-- The number that digits stand for. -/
def valueOf (digits : List Char) : Nat := Nat.ofDigitChars 10 digits 0

/-- The digits of a fraction behind its point, if a point is there. -/
def readFraction : List Char → Option (Option (List Char) × List Char)
  | '.' :: rest =>
    let (digits, rest) := spanDigits rest
    if digits.isEmpty then none else some (some digits, rest)
  | rest => some (none, rest)

/-- The exponent behind its mark, if a mark is there. -/
def readExponent : List Char → Option (Option Int × List Char)
  | c :: rest =>
    if c == 'e' || c == 'E' then
      let (negative, rest) := match rest with
        | '-' :: rest => (true, rest)
        | '+' :: rest => (false, rest)
        | rest => (false, rest)
      let (digits, rest) := spanDigits rest
      if digits.isEmpty then none
      else some (some (if negative then -(valueOf digits : Int) else valueOf digits), rest)
    else some (none, c :: rest)
  | [] => some (none, [])

/-- The digits in front of a fraction: a zero alone, or digits that begin with
another one. -/
def readWhole (cs : List Char) : Option (List Char × List Char) :=
  let (digits, rest) := spanDigits cs
  match digits with
  | [] => none
  | ['0'] => some (digits, rest)
  | '0' :: _ => none
  | _ => some (digits, rest)

/-- A number behind its sign. -/
def readNumber (negative : Bool) (cs : List Char) : Option (Number × List Char) := do
  let (whole, rest) ← readWhole cs
  let (fraction, rest) ← readFraction rest
  let (exponent, rest) ← readExponent rest
  pure (.ofDigits negative whole fraction exponent, rest)

/-- A scalar: one of the three words, a number or a string. -/
def readScalar : List Char → Option (Json × List Char)
  | 'n' :: 'u' :: 'l' :: 'l' :: rest => some (.null, rest)
  | 't' :: 'r' :: 'u' :: 'e' :: rest => some (.bool true, rest)
  | 'f' :: 'a' :: 'l' :: 's' :: 'e' :: rest => some (.bool false, rest)
  | '"' :: rest => (readLiteral rest).map fun (literal, rest) => (.string literal, rest)
  | '-' :: rest => (readNumber true rest).map fun (value, rest) => (.number value, rest)
  | rest => (readNumber false rest).map fun (value, rest) => (.number value, rest)

/-- The member that stands where the members of an object stop being JSON. -/
def cutMember : Literal × Json := (some "", .cut)

mutual

/-- A value, and the characters behind it unless it has a cut. Every value and
every separator takes a character, so fuel above the length never runs out. -/
def readValue : Nat → List Char → Json × Option (List Char)
  | 0, _ => (.cut, none)
  | fuel + 1, cs =>
    match skipSpace cs with
    | '[' :: rest =>
      match skipSpace rest with
      | ']' :: rest => (.array [], some rest)
      | rest => let (items, rest) := readItems fuel rest; (.array items, rest)
    | '{' :: rest =>
      match skipSpace rest with
      | '}' :: rest => (.object [], some rest)
      | rest => let (members, rest) := readMembers fuel rest; (.object members, rest)
    | cs =>
      match readScalar cs with
      | some (value, rest) => (value, some rest)
      | none => (.cut, none)

/-- The items of an array up to its end. -/
def readItems : Nat → List Char → List Json × Option (List Char)
  | 0, _ => ([.cut], none)
  | fuel + 1, cs =>
    match readValue fuel cs with
    | (item, none) => ([item], none)
    | (item, some rest) =>
      match skipSpace rest with
      | ',' :: rest => let (items, rest) := readItems fuel rest; (item :: items, rest)
      | ']' :: rest => ([item], some rest)
      | _ => ([item, .cut], none)

/-- The members of an object up to its end. -/
def readMembers : Nat → List Char → List (Literal × Json) × Option (List Char)
  | 0, _ => ([cutMember], none)
  | fuel + 1, cs =>
    match skipSpace cs with
    | '"' :: rest =>
      match readLiteral rest with
      | none => ([cutMember], none)
      | some (key, rest) =>
        match skipSpace rest with
        | ':' :: rest =>
          match readValue fuel rest with
          | (value, none) => ([(key, value)], none)
          | (value, some rest) =>
            match skipSpace rest with
            | ',' :: rest =>
              let (members, rest) := readMembers fuel rest
              ((key, value) :: members, rest)
            | '}' :: rest => ([(key, value)], some rest)
            | _ => ([(key, value), cutMember], none)
        | _ => ([(key, .cut)], none)
    | _ => ([cutMember], none)

end

/-- The document at the beginning of a text; what stands behind it is left. -/
def readFirst (source : String) : Json × Option (List Char) :=
  readValue (source.length + 1) source.toList

/-- The document that a text consists of, with nothing but space around it. -/
def read? (source : String) : Option Json :=
  match readFirst source with
  | (document, some rest) => if (skipSpace rest).isEmpty then some document else none
  | (_, none) => none

end Bourse.Json
