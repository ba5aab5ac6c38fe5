import Bourse.Yaml.Token

/-!
# YAML mappings of scalars

A document is one mapping in block style or in braces. Nothing at all stands for the
mapping without pairs, and so does an empty scalar in quotes. A key or a value that is
left out is the empty plain scalar. Behind the mapping a document may be
ended, more than once; nothing else may follow.
-/

namespace Bourse.Yaml

/-- A name and what it stands for. -/
abbrev Pair := Scalar × Scalar

/-- The scalar that stands where none is written. -/
def Scalar.absent : Scalar := .plain ""

/-- The scalar in front of one of several tokens or left out there, and the tokens
behind it. -/
def scalarBefore (ends : List Token) : List Token → Option (Scalar × List Token)
  | .scalar content :: rest => some (content, rest)
  | token :: rest => if ends.contains token then some (.absent, token :: rest) else none
  | [] => none

/-- The value that may follow a key. -/
def valueBefore (ends : List Token) : List Token → Option (Scalar × List Token)
  | .value :: rest => scalarBefore ends rest
  | rest => some (.absent, rest)

/-- The pairs of a mapping in block style up to its end, and the tokens behind it.
Every pair takes a token, so fuel above their number suffices. -/
def blockPairs : Nat → List Token → Option (List Pair × List Token)
  | fuel + 1, .key :: rest => do
    let ends : List Token := [.key, .value, .blockEnd]
    let (name, rest) ← scalarBefore ends rest
    let (value, rest) ← valueBefore ends rest
    let (others, rest) ← blockPairs fuel rest
    pure ((name, value) :: others, rest)
  | _, .blockEnd :: rest => some ([], rest)
  | _, _ => none

/-- A pair in braces. A key that is not announced has no value. -/
def flowPair : List Token → Option (Pair × List Token)
  | .key :: rest => do
    let (name, rest) ← scalarBefore [.value, .separator, .flowEnd] rest
    let (value, rest) ← valueBefore [.separator, .flowEnd] rest
    pure ((name, value), rest)
  | .scalar name :: rest => some ((name, .absent), rest)
  | _ => none

/-- The pairs of a mapping in braces up to its end, and the tokens behind it. A comma
may follow the last pair. -/
def flowPairs : Nat → List Token → Option (List Pair × List Token)
  | _, .flowEnd :: rest => some ([], rest)
  | fuel + 1, tokens => do
    let (pair, rest) ← flowPair tokens
    match rest with
    | .separator :: rest =>
      let (others, rest) ← flowPairs fuel rest
      pure (pair :: others, rest)
    | .flowEnd :: rest => pure ([pair], rest)
    | _ => none
  | _, _ => none

/-- The pairs of the mapping that begins here, and the tokens behind it. An empty
scalar has none. -/
def pairsOf (tokens : List Token) : Option (List Pair × List Token) :=
  match tokens with
  | .blockStart :: rest => blockPairs tokens.length rest
  | .flowStart :: rest => flowPairs tokens.length rest
  | .scalar content :: rest => if content.text.isEmpty then some ([], rest) else none
  | _ => none

/-- The pairs behind the mark that begins a document. -/
def pairsBehindStart : List Token → Option (List Pair × List Token)
  | [] => some ([], [])
  | .documentEnd :: rest => some ([], rest)
  | tokens => pairsOf tokens

/-- The pairs of the mapping that a document holds. -/
def mapping (text : String) : Option (List Pair) := do
  let (pairs, rest) ←
    match ← Token.ofDocument text with
    | [] => some ([], [])
    | .documentStart :: rest => pairsBehindStart rest
    | tokens => pairsOf tokens
  if rest.all (· == .documentEnd) then pure pairs else none

end Bourse.Yaml
