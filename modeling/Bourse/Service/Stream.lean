import Bourse.Service.Http
import Bourse.Wire.Message

/-!
# Streams

A stream forwards one of the service's channels to a client as messages, beginning
with a ping. A stream of reports may be for one sender only; the reports of others
are left out. What the channel lost is told in an error message. A client's ping is
answered with a pong, and a client that closes the connection or breaks the protocol
ends the stream.
-/

namespace Bourse

/-- What a stream forwards. -/
inductive StreamKind where
  | reports (sender : Option String)
  | pictures
  deriving DecidableEq, Repr

/-- The stream at a target, if there is one. -/
def StreamKind.ofTarget (target : String) : Option StreamKind :=
  let (path, query) := HttpRequest.splitTarget target
  match Route.ofPath path with
  | some .reportStream => (senderFilter query).toOption.map .reports
  | some .pictureStream => some .pictures
  | _ => none

/-- The notice about lost items. -/
def droppedNotice (lost : Nat) : Message :=
  .error (Text.natural lost ++ " messages dropped")

/-- The message that a received report makes for a client: none if it is for
another sender. -/
def reportMessage? (sender : Option String) : Received Report → Option Message
  | .item report =>
    if sender.all (· == report.sender) then some (.report report) else none
  | .lagged lost => some (droppedNotice lost)

/-- The message that a received picture makes. -/
def pictureMessage : Received Picture → Message
  | .item picture => .picture picture
  | .lagged lost => droppedNotice lost

/-- What a client may send on a stream. -/
inductive ClientFrame where
  | text (content : String)
  | binary (bytes : List UInt8)
  | ping (bytes : List UInt8)
  | pong (bytes : List UInt8)
  | close
  /-- Bytes that break the protocol. -/
  | invalid (bytes : List UInt8)
  deriving DecidableEq, Repr

/-- What a stream does about a frame of its client. -/
inductive StreamReply where
  | none
  | message (message : Message)
  | pong (bytes : List UInt8)
  | ended
  deriving DecidableEq, Repr

/-- The reply to a frame. -/
def ClientFrame.reply : ClientFrame → StreamReply
  | .text content =>
    match Message.parse? content with
    | some (.ping timestamp) => .message (.pong timestamp)
    | _ => .none
  | .binary _ => .none
  | .ping bytes => .pong bytes
  | .pong _ => .none
  | .close => .ended
  | .invalid _ => .ended

end Bourse
