import Bourse.Service.Stream

/-!
# Relays

A relay is the loop that serves one stream. It takes what comes first: a frame of its client,
the next thing on its channel, or the time for a heartbeat. The channel fills at its own pace,
and the client may go away, both without the relay's doing; what it does about that it does when
its turn comes.

A message that does not reach the client ends the relay, and so does a channel without senders
that has nothing left. A reply to the client is not waited for: whether it arrives makes no
difference.
-/

namespace Bourse

/-- What happens around a relay, and what it does when its turn comes. -/
inductive RelayEvent (α : Type) where
  /-- An item is sent on the channel. -/
  | sent (item : α)
  /-- The channel loses its last sender. -/
  | abandoned
  /-- The client goes away. -/
  | lost
  /-- The relay turns to its channel. -/
  | turn
  /-- The relay takes a frame of its client. -/
  | frame (frame : ClientFrame)
  /-- It is time for a heartbeat. -/
  | beat (timestamp : Nat)
  deriving Repr

/-- A relay with its channel, and what it has written so far. -/
structure Relay (α : Type) where
  channel : Channel α
  /-- How many of the items sent on the channel are behind it. -/
  place : Nat
  /-- Whether the channel has senders. -/
  isFed : Bool
  /-- Whether what is written reaches the client. -/
  isHeard : Bool
  /-- Whether the loop goes on. -/
  isOpen : Bool
  /-- What reached the client. -/
  written : List StreamReply

namespace Relay

variable {α : Type}

/-- The relay of a client that subscribes to a channel: what was sent before is not for it. -/
def subscribed (channel : Channel α) : Relay α where
  channel := channel
  place := channel.sent
  isFed := true
  isHeard := true
  isOpen := true
  written := []

/-- The relay after it writes a message. -/
def write (relay : Relay α) (message : Message) : Relay α :=
  if relay.isHeard then { relay with written := relay.written ++ [.message message] }
  else { relay with isOpen := false }

/-- The relay after it replies to a frame of its client. -/
def answer (relay : Relay α) : StreamReply → Relay α
  | .none => relay
  | .ended => { relay with isOpen := false }
  | reply => if relay.isHeard then { relay with written := relay.written ++ [reply] } else relay

/-- The relay after it turns to its channel. What it receives is behind it from then on, whether
it makes a message or not. -/
def turn (toMessage : Received α → Option Message) (relay : Relay α) : Relay α :=
  match relay.channel.receive? relay.place with
  | none => if relay.isFed then relay else { relay with isOpen := false }
  | some (received, place) =>
    let relay := { relay with place }
    match toMessage received with
    | none => relay
    | some message => relay.write message

/-- The relay after an event. Once it has ended it does nothing. -/
def step (toMessage : Received α → Option Message) (relay : Relay α) : RelayEvent α → Relay α
  | .sent item => { relay with channel := relay.channel.send item }
  | .abandoned => { relay with isFed := false }
  | .lost => { relay with isHeard := false }
  | .turn => if relay.isOpen then relay.turn toMessage else relay
  | .frame frame => if relay.isOpen then relay.answer frame.reply else relay
  | .beat timestamp => if relay.isOpen then relay.write (.ping timestamp) else relay

/-- The relay after events. -/
def run (toMessage : Received α → Option Message) (relay : Relay α)
    (events : List (RelayEvent α)) : Relay α :=
  events.foldl (step toMessage) relay

end Relay

end Bourse
