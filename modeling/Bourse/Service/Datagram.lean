import Bourse.Json.Writer
import Bourse.Service.Basic
import Bourse.Text.Utf8
import Bourse.Wire.Picture

/-!
# Datagrams

Every picture is sent as one datagram that holds its document. What the channel lost
is lost without a word, and so is a picture that does not fit into a datagram.
-/

namespace Bourse

/-- The greatest number of bytes in a datagram. -/
def maxDatagram : Nat := 65507

/-- The bytes of a picture's datagram, if it fits. -/
def Picture.datagram? (picture : Picture) : Option (List UInt8) :=
  let bytes := Text.utf8 picture.toJson.compact
  if bytes.length ≤ maxDatagram then some bytes else none

/-- The pictures that are sent as datagrams to a subscriber that has received
everything before a place. -/
def Service.datagrams (service : Service) (place : Nat) : List Picture :=
  (service.pictures.pending place).filterMap fun received =>
    match received with
    | .item picture => picture.datagram?.map fun _ => picture
    | .lagged _ => none

end Bourse
