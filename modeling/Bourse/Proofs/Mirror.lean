import Bourse.Proofs.Requests
import Bourse.Proofs.Soundness

/-!
# The other side

Below a bound on all prices, a purchase can be seen as a sale at what its price leaves of the
bound. What is best for one side is then best for the other, so that everything that is done
with an order or a queue can be done with what is seen from the other side: the laws here say
of each change that it makes no difference whether it comes before or after.

A price of zero is none and stays so. For that reason a comparison of two prices is the same
from both sides only where both of them are set, or where none of them reaches the bound.

Short sales are seen as purchases and purchases as sales, so that looking twice need not lead
back to the order.
-/

namespace Bourse

/-- A price seen from the other side. One that is not set stays so. -/
def mirroredPrice (bound price : Int) : Int := if price = 0 then 0 else bound - price

/-- A price that is not set, or one below a bound. -/
def PriceWithin (bound price : Int) : Prop := price = 0 ∨ 0 < price ∧ price < bound

instance (bound price : Int) : Decidable (PriceWithin bound price) :=
  inferInstanceAs (Decidable (_ ∨ _ ∧ _))

/-- A price that is set is mirrored at the bound. -/
theorem mirrored_price_set (bound : Int) {price : Int} (set : price ≠ 0) :
    mirroredPrice bound price = bound - price := if_neg set

/-- Prices below the bound are told apart from either side. -/
theorem PriceWithin.mirrored_eq_iff {bound first second : Int} (within : PriceWithin bound first)
    (also : PriceWithin bound second) :
    mirroredPrice bound first = mirroredPrice bound second ↔ first = second := by
  unfold PriceWithin at within also
  unfold mirroredPrice
  split <;> split <;> omega

/-- Whether a price is set is seen from either side. -/
theorem PriceWithin.mirrored_nonpos_iff {bound price : Int} (within : PriceWithin bound price) :
    mirroredPrice bound price ≤ 0 ↔ price ≤ 0 := by
  unfold PriceWithin at within
  unfold mirroredPrice
  split <;> omega

/-- Buying seen as selling, and selling as buying. -/
def Side.mirrored : Side → Side
  | .buy => .sell
  | .sell => .buy
  | .sellShort => .buy

/-- The mirror of a side belongs to the other flow. -/
theorem Side.flow_mirrored (side : Side) : side.mirrored.flow = side.flow.contra := by
  cases side <;> rfl

/-- Which end is best as it is seen from the other side. -/
def Direction.reversed : Direction → Direction
  | .lowestFirst => .highestFirst
  | .highestFirst => .lowestFirst

/-- What is better for one side is better for the other. -/
theorem Direction.better_reversed (direction : Direction) (bound first second : Int) :
    direction.reversed.better (bound - first) (bound - second) =
      direction.better first second := by
  cases direction <;> simp only [reversed, better, decide_eq_decide] <;> omega

namespace Flow

/-- The other flow rests in the reversed direction. -/
theorem resting_direction_contra (flow : Flow) :
    flow.contra.restingDirection = flow.restingDirection.reversed := by
  cases flow <;> rfl

/-- It waits in the reversed direction. -/
theorem parking_direction_contra (flow : Flow) :
    flow.contra.parkingDirection = flow.parkingDirection.reversed := by
  cases flow <;> rfl

/-- A price that reaches a stop price does so from either side. -/
theorem reaches_mirrored (flow : Flow) (bound : Int) {traded stop : Int} (priced : traded ≠ 0)
    (set : stop ≠ 0) :
    flow.contra.reaches (mirroredPrice bound traded) (mirroredPrice bound stop) =
      flow.reaches traded stop := by
  rw [mirrored_price_set bound priced, mirrored_price_set bound set]
  cases flow <;> simp only [contra, reaches, decide_eq_decide] <;> omega

end Flow

namespace Order

/-- An order seen from the other side. The value of its fills is that of the same quantity at
the mirrored prices. -/
def mirrored (bound : Int) (order : Order) : Order :=
  { order with
    side := order.side.mirrored
    price := mirroredPrice bound order.price
    stopPrice := mirroredPrice bound order.stopPrice
    fillValue := bound * order.filled - order.fillValue
    lastPrice := mirroredPrice bound order.lastPrice }

/-- An order whose prices are below a bound, and set where its type uses them. -/
structure Priced (bound : Int) (order : Order) : Prop where
  price : PriceWithin bound order.price
  stopPrice : PriceWithin bound order.stopPrice
  limited : order.type.isLimited = true → order.price ≠ 0
  waits : order.type.isStop = true → order.stopPrice ≠ 0

instance (bound : Int) (order : Order) : Decidable (order.Priced bound) :=
  decidable_of_iff
    ((PriceWithin bound order.price ∧ PriceWithin bound order.stopPrice) ∧
      (order.type.isLimited = true → order.price ≠ 0) ∧
      (order.type.isStop = true → order.stopPrice ≠ 0))
    ⟨fun holds => ⟨holds.1.1, holds.1.2, holds.2.1, holds.2.2⟩,
      fun priced => ⟨⟨priced.price, priced.stopPrice⟩, priced.limited, priced.waits⟩⟩

variable (bound : Int) (order image : Order)

/-- The mirror of an order belongs to the other flow. -/
theorem flow_mirrored : (order.mirrored bound).flow = order.flow.contra :=
  order.side.flow_mirrored

/-- As much is left of the mirror as of the order. -/
@[simp] theorem unfilled_mirrored : (order.mirrored bound).unfilled = order.unfilled := rfl

/-- It shows as much. -/
@[simp] theorem pending_mirrored : (order.mirrored bound).pending = order.pending := rfl

/-- A new name is mirrored with the order. -/
theorem mirrored_renamed :
    (order.renamed image).mirrored bound =
      (order.mirrored bound).renamed (image.mirrored bound) := rfl

/-- So is a release. -/
theorem mirrored_trigger : order.trigger.mirrored bound = (order.mirrored bound).trigger := by
  unfold trigger
  cases type : order.type <;> simp only [mirrored, type]

/-- So is a limit, at the mirrored price. -/
theorem mirrored_limited (price : Int) :
    (order.limitedAt price).mirrored bound =
      (order.mirrored bound).limitedAt (mirroredPrice bound price) := rfl

/-- A replacement that gives no limit leaves the mirrored one where it is as well. -/
theorem mirrored_replaced :
    (order.replacedBy image).mirrored bound =
      (order.mirrored bound).replacedBy (image.mirrored bound) := by
  have price := apply_ite (mirroredPrice bound) (image.type = .market ∨ image.type = .stop)
    order.price image.price
  simp only [replacedBy, mirrored, renamed, price]
  rfl

/-- A fill at a price that is set. -/
theorem mirrored_fill {price : Int} (set : price ≠ 0) (quantity : Int) :
    (order.fill price quantity).mirrored bound =
      (order.mirrored bound).fill (mirroredPrice bound price) quantity := by
  have value : bound * (order.filled + min quantity order.unfilled) -
        (order.fillValue + price * min quantity order.unfilled) =
      bound * order.filled - order.fillValue +
        (bound - price) * min quantity order.unfilled := by
    rw [Int.mul_add, Int.sub_mul]
    omega
  simp only [fill, unfilled_mirrored]
  simp only [mirrored, mirrored_price_set bound set, value]

variable {bound order image}

/-- A replacement that costs the place in the queue does so on either side. -/
theorem Priced.priority_mirrored (priced : order.Priced bound) (asked : image.Priced bound) :
    (order.mirrored bound).priorityUnder (image.mirrored bound) = order.priorityUnder image := by
  have price := priced.price.mirrored_eq_iff asked.price
  have stopPrice := priced.stopPrice.mirrored_eq_iff asked.stopPrice
  simp only [priorityUnder, mirrored, ne_eq, price, stopPrice]

/-- An order that waits for no stop price accepts a trade from either side. -/
theorem Priced.accepts_mirrored (priced : order.Priced bound)
    (live : order.type.isStop = false) {price : Int} (set : price ≠ 0) :
    (order.mirrored bound).accepts (mirroredPrice bound price) = order.accepts price := by
  cases type : order.type with
  | market => simp only [accepts, mirrored, type]
  | limit =>
    have limit : order.price ≠ 0 := priced.limited (by rw [type]; rfl)
    unfold accepts
    rw [flow_mirrored]
    simp only [mirrored, type, mirrored_price_set bound set, mirrored_price_set bound limit]
    cases order.flow <;> simp only [Flow.contra, decide_eq_decide] <;> omega
  | stop => simp [type, OrderType.isStop] at live
  | stopLimit => simp [type, OrderType.isStop] at live

/-- What a replacement leaves alone was within the bound already. -/
theorem Priced.replaced (priced : order.Priced bound) (asked : image.Priced bound) :
    (order.replacedBy image).Priced bound where
  price := by
    unfold replacedBy
    split
    · exact priced.price
    · exact asked.price
  stopPrice := asked.stopPrice
  limited := by
    intro limited
    have type : ¬ (image.type = .market ∨ image.type = .stop) := by
      rintro (market | stop)
      · simp [replacedBy, market, OrderType.isLimited] at limited
      · simp [replacedBy, stop, OrderType.isLimited] at limited
    simpa only [replacedBy, if_neg type] using asked.limited limited
  waits := asked.waits

/-- What waited becomes live with the limit it has. -/
theorem Priced.trigger (priced : order.Priced bound) : order.trigger.Priced bound := by
  have live := order.trigger_not_stop
  refine ⟨?_, ?_, ?_, fun waits => absurd (live.symm.trans waits) (by decide)⟩
  · unfold Order.trigger
    split <;> exact priced.price
  · unfold Order.trigger
    split <;> exact priced.stopPrice
  · have limited := priced.limited
    cases type : order.type <;> simp_all [Order.trigger, OrderType.isLimited]

end Order

namespace Queue

variable {direction other : Direction}

/-- An entry seen from the other side. -/
def Entry.mirrored (bound : Int) (entry : Entry) : Entry where
  key := bound - entry.key
  arrival := entry.arrival
  order := entry.order.mirrored bound

/-- A queue holds the orders of another one as they are seen from the other side: the same
orders in the same order. -/
structure Mirrors (bound : Int) (queue : Queue direction) (mirror : Queue other) : Prop where
  entries : mirror.entries = queue.entries.map (Entry.mirrored bound)
  nextArrival : mirror.nextArrival = queue.nextArrival

/-- In the reversed direction, mirrored entries stand in the order of the entries. -/
theorem Entry.ahead_mirrored (bound : Int) (first second : Entry) :
    (first.mirrored bound).ahead direction.reversed (second.mirrored bound) =
      first.ahead direction second := by
  have same : (bound - first.key == bound - second.key) = (first.key == second.key) := by
    rw [Bool.eq_iff_iff]
    simp only [beq_iff_eq]
    omega
  simp only [Entry.ahead, Entry.mirrored, direction.better_reversed, same]
  rfl

/-- The place of an entry is the same from either side. -/
theorem place_mirrored (bound : Int) (entry : Entry) (entries : List Entry) :
    place direction.reversed (entry.mirrored bound) (entries.map (Entry.mirrored bound)) =
      (place direction entry entries).map (Entry.mirrored bound) :=
  place_map (Entry.mirrored bound) (Entry.ahead_mirrored bound) entry entries

/-- An order is taken out of mirrored entries as out of the entries. -/
theorem without_mirrored (bound : Int) (id : OrderId) (entries : List Entry) :
    without id (entries.map (Entry.mirrored bound)) =
      (without id entries).map (Entry.mirrored bound) :=
  without_map (Entry.mirrored bound) (fun _ => rfl) id entries

/-- An order is rewritten in mirrored entries as in the entries. -/
theorem with_order_mirrored (bound : Int) (order : Order) (entries : List Entry) :
    withOrder (order.mirrored bound) (entries.map (Entry.mirrored bound)) =
      (withOrder order entries).map (Entry.mirrored bound) :=
  with_order_map (Entry.mirrored bound) order (order.mirrored bound) (fun _ => rfl) rfl
    (fun _ => rfl) entries

/-- A fill of the first entry at a price that is set. -/
theorem filled_first_mirrored (bound : Int) (maker : Entry) (behind : List Entry) {price : Int}
    (set : price ≠ 0) (quantity : Int) :
    filledFirst (maker.mirrored bound) (behind.map (Entry.mirrored bound))
        (mirroredPrice bound price) quantity =
      (filledFirst maker behind price quantity).map (Entry.mirrored bound) := by
  have filled := maker.order.mirrored_fill bound set quantity
  simp only [filledFirst, Entry.mirrored, ← filled, Order.pending_mirrored]
  split <;> rfl

section Mirrors

variable {bound : Int} {queue : Queue direction} {mirror : Queue other}

/-- Both queues with other entries. -/
theorem Mirrors.with_entries (mirrors : queue.Mirrors bound mirror) {entries images : List Entry}
    (same : images = entries.map (Entry.mirrored bound)) :
    ({ queue with entries := entries } : Queue direction).Mirrors bound
      ({ mirror with entries := images } : Queue other) :=
  ⟨same, mirrors.nextArrival⟩

/-- Mirrored queues stay so without an order. -/
theorem Mirrors.without (mirrors : queue.Mirrors bound mirror) (id : OrderId) :
    ({ queue with entries := without id queue.entries } : Queue direction).Mirrors bound
      ({ mirror with entries := Queue.without id mirror.entries } : Queue other) := by
  apply mirrors.with_entries
  rw [mirrors.entries, without_mirrored]

/-- An order is queued behind everything at its key, on either side. -/
theorem Mirrors.insert (mirrors : queue.Mirrors bound mirror)
    (opposite : other = direction.reversed) (key : Int) (order : Order) :
    (queue.insert key order).Mirrors bound
      (mirror.insert (bound - key) (order.mirrored bound)) := by
  subst opposite
  constructor
  · simp only [Queue.insert, mirrors.entries, mirrors.nextArrival]
    rw [← place_mirrored, ← without_mirrored]
    rfl
  · simp only [Queue.insert, mirrors.nextArrival]

/-- What is first in the mirror of a queue is the mirror of what is first in the queue. -/
theorem Mirrors.first (mirrors : queue.Mirrors bound mirror) {image : Entry}
    {images : List Entry} (entries : mirror.entries = image :: images) :
    ∃ entry behind, queue.entries = entry :: behind ∧ entry.mirrored bound = image ∧
      behind.map (Entry.mirrored bound) = images := by
  rw [mirrors.entries] at entries
  exact List.map_eq_cons_iff.mp entries

/-- The same identifiers are found. -/
theorem Mirrors.get (mirrors : queue.Mirrors bound mirror) (id : OrderId) :
    mirror.get? id = (queue.get? id).map (Order.mirrored bound) := by
  simp only [get?, orders, mirrors.entries, List.map_map, List.find?_map, Option.map_map]
  rfl

end Mirrors

end Queue

namespace Report

/-- A report shows an order as it is seen from the other side. The mean price, which is
truncated, is left open. -/
def Mirrors (bound : Int) (report mirror : Report) : Prop :=
  mirror =
    { report with
      side := report.side.mirrored
      price := mirroredPrice bound report.price
      lastPrice := mirroredPrice bound report.lastPrice
      averagePrice := mirror.averagePrice }

/-- The report on the mirror of an order mirrors the report on the order. -/
theorem mirrors_of (bound : Int) (kind : ReportKind) (order : Order) (reason : String) :
    (of kind order reason).Mirrors bound (of kind (order.mirrored bound) reason) := rfl

/-- So does the report on its fill. -/
theorem mirrors_of_fill (bound : Int) (order : Order) :
    (ofFill order).Mirrors bound (ofFill (order.mirrored bound)) := rfl

end Report

end Bourse
