/-!
# Channels

A channel hands what is sent to every subscriber, each at its own pace. It keeps a
fixed number of the newest items; a subscriber that comes too late for some learns
how many it lost and goes on with the oldest one that is kept.
-/

namespace Bourse

/-- The newest items that were sent, the oldest of them first. -/
structure Channel (α : Type) where
  /-- How many items are kept. -/
  capacity : Nat
  /-- How many items were sent. -/
  sent : Nat
  kept : List α

/-- What a subscriber receives: an item, or the number of items it lost. -/
inductive Received (α : Type) where
  | item (value : α)
  | lagged (lost : Nat)
  deriving DecidableEq, Repr

/-- Why there is no channel of a capacity. -/
inductive CapacityFault where
  | zero
  | tooLarge
  deriving DecidableEq, Repr

/-- The wording of a fault. -/
def CapacityFault.message : CapacityFault → String
  | .zero => "broadcast channel capacity cannot be zero"
  | .tooLarge => "broadcast channel capacity exceeded `usize::MAX / 2`"

/-- The greatest capacity that a channel may be asked to have. -/
def maxCapacity : Nat := 9223372036854775807

namespace Channel

variable {α : Type}

/-- A channel without items. Its capacity is rounded up to a power of two. -/
def ofCapacity (wanted : Nat) : Channel α where
  capacity := wanted.nextPowerOfTwo
  sent := 0
  kept := []

/-- The channel of a capacity, if there is one. -/
def make (wanted : Nat) : Except CapacityFault (Channel α) :=
  if wanted = 0 then .error .zero
  else if maxCapacity < wanted then .error .tooLarge
  else .ok (ofCapacity wanted)

/-- The channel with an item, in the place of the oldest one if it is full. -/
def send (channel : Channel α) (item : α) : Channel α :=
  let items := channel.kept ++ [item]
  { channel with
    sent := channel.sent + 1
    kept := items.drop (items.length - channel.capacity) }

/-- The channel with several items. -/
def sendAll (channel : Channel α) (items : List α) : Channel α := items.foldl send channel

/-- The place of the oldest item that is kept. -/
def oldest (channel : Channel α) : Nat := channel.sent - channel.kept.length

/-- What a subscriber receives that has received everything before a place, and the
place of what comes next. -/
def receive? (channel : Channel α) (place : Nat) : Option (Received α × Nat) :=
  if place < channel.oldest then some (.lagged (channel.oldest - place), channel.oldest)
  else (channel.kept[place - channel.oldest]?).map fun item => (.item item, place + 1)

/-- All that is left for a subscriber that has received everything before a place:
the number of items it lost, if any, and the items that are kept. -/
def pending (channel : Channel α) (place : Nat) : List (Received α) :=
  (if place < channel.oldest then [.lagged (channel.oldest - place)] else []) ++
    (channel.kept.drop (place - channel.oldest)).map .item

end Channel

end Bourse
