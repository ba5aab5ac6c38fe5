import Bourse.Queue.Basic

/-!
# Depth

The depth of a queue is what it shows to the public: the quantities pending at its
best prices, a fixed number of levels, with zeros where there is no order.
-/

namespace Bourse

/-- The number of levels that are shown. -/
def depthLevels : Nat := 5

/-- A price and the quantity shown at it. -/
structure Level where
  price : Int
  quantity : Int
  deriving DecidableEq, Repr, Inhabited

/-- A level without orders. -/
def Level.blank : Level := ⟨0, 0⟩

/-- The levels of a side, best first. -/
abbrev Depth := Vector Level depthLevels

namespace Depth

/-- Levels in front of empty ones; what is too much is left off. -/
def ofLevels (levels : List Level) : Depth := Vector.ofFn fun i => levels.getD i Level.blank

/-- The quantity shown at all levels together. -/
def total (depth : Depth) : Int :=
  depth.toList.foldr (fun level others => level.quantity + others) 0

end Depth

/-- The levels of orders in a row: neighbours at one price share a level. -/
def levelsOf : List Order → List Level
  | [] => []
  | order :: rest =>
    match levelsOf rest with
    | [] => [⟨order.price, order.pending⟩]
    | level :: levels =>
      if level.price = order.price then
        ⟨order.price, order.pending + level.quantity⟩ :: levels
      else ⟨order.price, order.pending⟩ :: level :: levels

/-- What a queue shows. -/
def Queue.depth {direction : Direction} (queue : Queue direction) : Depth :=
  Depth.ofLevels (levelsOf queue.orders)

end Bourse
