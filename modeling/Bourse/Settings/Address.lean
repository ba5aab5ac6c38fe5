import Bourse.Text.Decimal
import Bourse.Text.Hexadecimal

/-!
# Socket addresses

An address of four octets is followed by a port. An address of eight groups stands
in brackets, may leave out one run of zero groups, may end in four octets and may
name a scope. Addresses are written in one form only: without leading zeros, and with
the first of the longest runs of at least two zero groups left out.
-/

namespace Bourse

/-- An address and a port. -/
inductive SocketAddress where
  | four (a b c d : Nat) (port : Nat)
  | eight (groups : List Nat) (scope port : Nat)
  deriving DecidableEq, Repr

namespace SocketAddress

/-- The value of a digit below a radix. -/
def digit? (radix : Nat) (c : Char) : Option Nat := (Text.hexDigit? c).filter (· < radix)

/-- A number below a bound, and what stands behind it. All digits that are there are
taken. -/
def number? (radix bound : Nat) (maxDigits : Option Nat) (zeroFirst : Bool) (cs : List Char) :
    Option (Nat × List Char) :=
  let digits := cs.takeWhile fun c => (digit? radix c).isSome
  let value := digits.foldl (fun value c => value * radix + (digit? radix c).getD 0) 0
  if digits.isEmpty || maxDigits.any (· < digits.length) ||
      (!zeroFirst && digits.head? == some '0' && 1 < digits.length) || bound ≤ value then none
  else some (value, cs.dropWhile fun c => (digit? radix c).isSome)

/-- An octet: up to three decimal digits without a leading zero. -/
def octet? : List Char → Option (Nat × List Char) := number? 10 256 (some 3) false

/-- What stands behind a character that has to be there. -/
def behind? (c : Char) : List Char → Option (List Char)
  | first :: rest => if first == c then some rest else none
  | [] => none

/-- Four octets with points between them. -/
def octets? (cs : List Char) : Option ((Nat × Nat × Nat × Nat) × List Char) := do
  let (a, cs) ← octet? cs
  let (b, cs) ← octet? (← behind? '.' cs)
  let (c, cs) ← octet? (← behind? '.' cs)
  let (d, cs) ← octet? (← behind? '.' cs)
  pure ((a, b, c, d), cs)

/-- A colon and a port. -/
def port? (cs : List Char) : Option (Nat × List Char) := do
  number? 10 65536 none true (← behind? ':' cs)

/-- As many groups as there are, up to `limit`, with colons between them, and whether
they end in four octets. Octets take the place of two groups. -/
def groups? : (limit : Nat) → (first : Bool) → List Char → List Nat × Bool × List Char
  | 0, _, cs => ([], false, cs)
  | left + 1, first, cs =>
    match if first then some cs else behind? ':' cs with
    | none => ([], false, cs)
    | some rest =>
      match if 0 < left then octets? rest else none with
      | some ((a, b, c, d), rest) => ([a * 256 + b, c * 256 + d], true, rest)
      | none =>
        match number? 16 65536 (some 4) true rest with
        | none => ([], false, cs)
        | some (group, rest) =>
          let (groups, octets, rest) := groups? left false rest
          (group :: groups, octets, rest)

/-- Eight groups, of which one run may be left out. -/
def eightGroups? (cs : List Char) : Option (List Nat × List Char) :=
  let (head, octets, rest) := groups? 8 true cs
  if head.length = 8 then some (head, rest)
  else if octets then none
  else do
    let rest ← behind? ':' (← behind? ':' rest)
    let (tail, _, rest) := groups? (7 - head.length) true rest
    pure (head ++ List.replicate (8 - head.length - tail.length) 0 ++ tail, rest)

/-- A percent sign and the number of a scope; zero if none is there. -/
def scope (cs : List Char) : Nat × List Char :=
  let read := do number? 10 4294967296 none true (← behind? '%' cs)
  read.getD (0, cs)

/-- The address that a text stands for. -/
def parse? (text : String) : Option SocketAddress :=
  let cs := text.toList
  let plain : Option (SocketAddress × List Char) := do
    let ((a, b, c, d), cs) ← octets? cs
    let (port, cs) ← port? cs
    pure (.four a b c d port, cs)
  let bracketed : Option (SocketAddress × List Char) := do
    let (groups, cs) ← eightGroups? (← behind? '[' cs)
    let (scope, cs) := scope cs
    let (port, cs) ← port? (← behind? ']' cs)
    pure (.eight groups scope port, cs)
  match plain.or bracketed with
  | some (address, []) => some address
  | _ => none

/-- The text of four octets. -/
def renderOctets (a b c d : Nat) : String :=
  Text.natural a ++ "." ++ Text.natural b ++ "." ++ Text.natural c ++ "." ++ Text.natural d

/-- How many zero groups stand at the beginning. -/
def zeros (groups : List Nat) : Nat := (groups.takeWhile (· == 0)).length

/-- The place and the length of the first of the longest runs of zero groups, for
groups that begin at a place. -/
def longestRun (place : Nat) : List Nat → Nat × Nat
  | [] => (place, 0)
  | group :: rest =>
    let here := zeros (group :: rest)
    let later := longestRun (place + 1) rest
    if later.2 ≤ here then (place, here) else later

/-- Groups in hexadecimal digits with colons between them. -/
def renderGroups (groups : List Nat) : String :=
  String.intercalate ":" (groups.map fun group => String.ofList (Nat.toDigits 16 group))

/-- The text of eight groups. Octets behind the prefix that stands for them are
written as octets. -/
def renderEight (groups : List Nat) : String :=
  match groups with
  | [0, 0, 0, 0, 0, 0xFFFF, high, low] =>
    "::ffff:" ++ renderOctets (high / 256) (high % 256) (low / 256) (low % 256)
  | _ =>
    let (place, length) := longestRun 0 groups
    if length ≤ 1 then renderGroups groups
    else renderGroups (groups.take place) ++ "::" ++ renderGroups (groups.drop (place + length))

/-- The text of an address. -/
def render : SocketAddress → String
  | .four a b c d port => renderOctets a b c d ++ ":" ++ Text.natural port
  | .eight groups scope port =>
    "[" ++ renderEight groups ++ (if scope = 0 then "" else "%" ++ Text.natural scope) ++ "]:" ++
      Text.natural port

end SocketAddress

end Bourse
