import Bourse.Json.Reader
import Bourse.Json.Writer
import Bourse.Wire.Picture
import Bourse.Wire.Report

/-!
# Stream messages

What goes over a stream is an object whose member `type` tells what the others are.
A message is read through a buffer, since its type may stand behind its content:
everything in it has to denote something, nesting is bounded, and the type is given
exactly once. A message may also be an array with the type in front of the fields.

A buffer holds no number of 128 bits, which is what a timestamp is: pings and pongs
are written but cannot be read.
-/

namespace Bourse

open Json (Fields Fault Literal toText)

/-- A message of a stream. -/
inductive Message where
  | report (report : Report)
  | picture (picture : Picture)
  | error (message : String)
  | ping (timestamp : Nat)
  | pong (timestamp : Nat)
  deriving DecidableEq, Repr

namespace Message

/-- A message in a document, its type in front. -/
def toJson : Message → Json
  | .report sent => .record (("type", .text "report") :: sent.members)
  | .picture published => .record (("type", .text "picture") :: published.members)
  | .error text => .record [("type", .text "error"), ("message", .text text)]
  | .ping timestamp => .record [("type", .text "ping"), ("timestamp", .nat timestamp)]
  | .pong timestamp => .record [("type", .text "pong"), ("timestamp", .nat timestamp)]

/-- The text of a message. -/
def render (message : Message) : String := message.toJson.compact

/-- How deeply a message may be nested. -/
def maxDepth : Nat := 127

/-- The members of an object apart from those of its type, and the types. -/
def partitionType (members : List (Literal × Json)) : List Json × List (Literal × Json) :=
  let (types, content) := members.partition fun (key, _) => key == some "type"
  (types.map (·.2), content)

/-- The message of a type with its content. -/
def ofContent (type : Json) (content : Json) : Except Fault Message := do
  match ← toText type with
  | "report" => ((Report.fields .buffered).decode content).map report
  | "picture" => ((Picture.fields .buffered).decode content).map picture
  | "error" => ((Fields.required "message" toText).decode content).map error
  | _ => .error .shape

/-- The message in a document. -/
def ofJson (document : Json) : Except Fault Message :=
  if !document.isDenoting || maxDepth < document.depth then .error .text
  else
    match document with
    | .object members =>
      match partitionType members with
      | ([type], content) => ofContent type (.object content)
      | _ => .error .shape
    | .array (type :: content) => ofContent type (.array content)
    | _ => .error .shape

/-- The message that a text holds. -/
def parse? (text : String) : Option Message := do
  let document ← Json.read? text
  (ofJson document).toOption

end Message

end Bourse
