import Bourse.Order.Request

/-!
# The amounts of an order

What an order shows is never more than what is left of it, and it shows something
exactly as long as something is left. A fill of no more than that lowers what is
left by as much, and no other change of an order touches what is filled.

`Order.Sound` collects what holds of every order that a book has accepted, whether
it rests, waits for its stop price or is being traded. Each way in which a book
changes an order keeps it.
-/

namespace Bourse

/-- A price that a request may ask for. -/
structure PriceAllowed (price : Int) : Prop where
  positive : 1 ≤ price
  bounded : price ≤ maxPrice

namespace OrderType

/-- The types whose orders have a limit of their own. -/
def isLimited : OrderType → Bool
  | .market => false
  | .limit => true
  | .stop => false
  | .stopLimit => true

end OrderType

namespace Order

/-- Something is shown exactly as long as something is left. -/
theorem pending_pos_iff (order : Order) : 0 < order.pending ↔ 0 < order.unfilled := by
  unfold pending
  split <;> omega

/-- Nothing is shown exactly when nothing is left. -/
theorem pending_eq_zero_iff (order : Order) : order.pending = 0 ↔ order.unfilled = 0 := by
  unfold pending
  split <;> omega

/-- No more is shown than is left. -/
theorem pending_le_unfilled (order : Order) : order.pending ≤ order.unfilled := by
  unfold pending
  split <;> omega

/-- A fill of no more than is left is a fill of all that it asks for. -/
theorem fill_eq (order : Order) (price quantity : Int) (left : quantity ≤ order.unfilled) :
    order.fill price quantity =
      { order with
        fillValue := order.fillValue + price * quantity
        lastPrice := price
        lastQuantity := quantity
        filled := order.filled + quantity } := by
  simp only [fill, Int.min_eq_left left]

/-- A fill lowers what is left by the quantity filled. -/
theorem unfilled_fill (order : Order) (price quantity : Int)
    (left : quantity ≤ order.unfilled) :
    (order.fill price quantity).unfilled = order.unfilled - quantity := by
  rw [fill_eq order price quantity left]
  simp only [unfilled]
  omega

/-- What is left of an order is the same once it is released. -/
@[simp] theorem unfilled_trigger (order : Order) : order.trigger.unfilled = order.unfilled := by
  unfold trigger
  split <;> rfl

/-- An order that its stop price was reached for waits no longer. -/
theorem trigger_not_stop (order : Order) : order.trigger.type.isStop = false := by
  cases type : order.type <;> simp [trigger, type, OrderType.isStop]

/-- What holds of every order that a book has accepted. A limit and a stop price are
in range wherever the type of the order uses them; what the type does not use may be
left over from an earlier type. -/
structure Sound (order : Order) : Prop where
  filled_nonneg : 0 ≤ order.filled
  filled_le : order.filled ≤ order.quantity
  quantity_le : order.quantity ≤ maxQuantity
  value_nonneg : 0 ≤ order.fillValue
  value_le : order.fillValue ≤ maxPrice * order.filled
  price : order.type.isLimited = true → PriceAllowed order.price
  stopPrice : order.type.isStop = true → PriceAllowed order.stopPrice

/-- A fill at an allowed price of no more than is left. -/
theorem Sound.fill {order : Order} (sound : order.Sound) {price quantity : Int}
    (allowed : PriceAllowed price) (positive : 0 < quantity) (left : quantity ≤ order.unfilled) :
    (order.fill price quantity).Sound := by
  have lower : 0 ≤ price * quantity :=
    Int.mul_nonneg (by have := allowed.positive; omega) (by omega)
  have upper : price * quantity ≤ maxPrice * quantity :=
    Int.mul_le_mul_of_nonneg_right allowed.bounded (by omega)
  rw [fill_eq order price quantity left]
  unfold unfilled at left
  refine ⟨?_, ?_, sound.quantity_le, ?_, ?_, sound.price, sound.stopPrice⟩
  · have := sound.filled_nonneg
    show 0 ≤ order.filled + quantity
    omega
  · show order.filled + quantity ≤ order.quantity
    omega
  · have := sound.value_nonneg
    show 0 ≤ order.fillValue + price * quantity
    omega
  · have := sound.value_le
    show order.fillValue + price * quantity ≤ maxPrice * (order.filled + quantity)
    rw [Int.mul_add]
    omega

/-- What waited becomes live with the limit it has. -/
theorem Sound.trigger {order : Order} (sound : order.Sound) : order.trigger.Sound := by
  unfold Order.trigger
  split
  case h_1 type =>
    exact { sound with
      price := fun _ => sound.price (by rw [type]; rfl)
      stopPrice := fun stop => by simp [OrderType.isStop] at stop }
  case h_2 =>
    exact { sound with
      price := fun limited => by simp [OrderType.isLimited] at limited
      stopPrice := fun stop => by simp [OrderType.isStop] at stop }
  case h_3 => exact sound

/-- What is left of a market order, as a limit order at an allowed price. -/
theorem Sound.limited {order : Order} (sound : order.Sound) {price : Int}
    (allowed : PriceAllowed price) : (order.limitedAt price).Sound :=
  { sound with
    price := fun _ => allowed
    stopPrice := fun stop => by simp [limitedAt, OrderType.isStop] at stop }

/-- What a request for a replacement makes sure of. -/
structure Image (image : Order) : Prop where
  quantity_le : image.quantity ≤ maxQuantity
  price : image.type.isLimited = true → PriceAllowed image.price
  stopPrice : image.type.isStop = true → PriceAllowed image.stopPrice

/-- A replacement that asks for more than is filled. The limit it leaves alone is
one that its type does not use. -/
theorem Sound.replaced {order : Order} (sound : order.Sound) {image : Order}
    (asked : image.Image) (above : order.filled < image.quantity) :
    (order.replacedBy image).Sound where
  filled_nonneg := sound.filled_nonneg
  filled_le := Int.le_of_lt above
  quantity_le := asked.quantity_le
  value_nonneg := sound.value_nonneg
  value_le := sound.value_le
  price := by
    intro limited
    have type : ¬ (image.type = .market ∨ image.type = .stop) := by
      rintro (market | stop)
      · simp [replacedBy, market, OrderType.isLimited] at limited
      · simp [replacedBy, stop, OrderType.isLimited] at limited
    simpa only [replacedBy, if_neg type] using asked.price limited
  stopPrice := asked.stopPrice

end Order

/-- A price that a request has to name is in range, or the request is refused. -/
theorem required_price_allowed {field : PriceField} {asked : Option Int} {price : Int}
    (named : requiredPrice field asked = .ok price) : PriceAllowed price := by
  unfold requiredPrice at named
  split at named
  · simp at named
  · split at named
    case isTrue range =>
      obtain rfl := Except.ok.inj named
      exact ⟨range.1, range.2⟩
    case isFalse => simp at named

/-- A type that uses a limit or a stop price has one in range. -/
theorem required_prices_allowed {type : OrderType} {limit stop : Option Int}
    {price stopPrice : Int} (named : requiredPrices type limit stop = .ok (price, stopPrice)) :
    (type.isLimited = true → PriceAllowed price) ∧
      (type.isStop = true → PriceAllowed stopPrice) := by
  cases type with
  | market => simp [OrderType.isLimited, OrderType.isStop]
  | limit =>
    cases first : requiredPrice .price limit with
    | error error => simp [requiredPrices, first, bind, Except.bind] at named
    | ok found =>
      have same : found = price ∧ 0 = stopPrice := by
        simpa [requiredPrices, first, bind, Except.bind, pure, Except.pure] using named
      exact ⟨fun _ => same.1 ▸ required_price_allowed first, by simp [OrderType.isStop]⟩
  | stop =>
    cases second : requiredPrice .stopPrice stop with
    | error error => simp [requiredPrices, second, bind, Except.bind] at named
    | ok found =>
      have same : 0 = price ∧ found = stopPrice := by
        simpa [requiredPrices, second, bind, Except.bind, pure, Except.pure] using named
      exact ⟨by simp [OrderType.isLimited], fun _ => same.2 ▸ required_price_allowed second⟩
  | stopLimit =>
    cases first : requiredPrice .price limit with
    | error error => simp [requiredPrices, first, bind, Except.bind] at named
    | ok found =>
      cases second : requiredPrice .stopPrice stop with
      | error error => simp [requiredPrices, first, second, bind, Except.bind] at named
      | ok waited =>
        have same : found = price ∧ waited = stopPrice := by
          simpa [requiredPrices, first, second, bind, Except.bind, pure, Except.pure] using named
        exact ⟨fun _ => same.1 ▸ required_price_allowed first,
          fun _ => same.2 ▸ required_price_allowed second⟩

/-- A type that uses no limit has none. -/
theorem required_price_unused {type : OrderType} {limit stop : Option Int}
    {price stopPrice : Int} (unlimited : type.isLimited = false)
    (named : requiredPrices type limit stop = .ok (price, stopPrice)) : price = 0 := by
  cases type with
  | market =>
    obtain ⟨rfl, -⟩ : 0 = price ∧ 0 = stopPrice := by simpa [requiredPrices] using named
    rfl
  | limit => contradiction
  | stop =>
    cases second : requiredPrice .stopPrice stop with
    | error error => simp [requiredPrices, second, bind, Except.bind] at named
    | ok found =>
      obtain ⟨rfl, -⟩ : 0 = price ∧ found = stopPrice := by
        simpa [requiredPrices, second, bind, Except.bind, pure, Except.pure] using named
      rfl
  | stopLimit => contradiction

/-- A quantity that is not refused as too large is bounded. -/
theorem bounded_quantity_ok {asked quantity : Int}
    (bounded : boundedQuantity asked = .ok quantity) :
    quantity = asked ∧ quantity ≤ maxQuantity := by
  unfold boundedQuantity at bounded
  split at bounded
  · simp at bounded
  · obtain rfl := Except.ok.inj bounded
    exact ⟨rfl, by omega⟩

/-- The total of a replacement is bounded as the quantity of a new order is. -/
theorem total_ok {request : Replacement} {quantity : Int} (total : request.total = .ok quantity) :
    quantity = request.quantity + request.seenFilled ∧ quantity ≤ maxQuantity ∧
      0 ≤ request.seenFilled := by
  unfold Replacement.total at total
  split at total
  · simp at total
  case isFalse seen =>
    split at total
    · simp at total
    · obtain ⟨same, bounded⟩ := bounded_quantity_ok total
      exact ⟨same, bounded, by omega⟩

namespace Order

/-- A fresh order has the prices and the quantity of its request, and no fills. -/
theorem new_ok {id : OrderId} {request : NewOrder} {order : Order}
    (built : ofNew id request = .ok order) :
    requiredPrices request.type request.price request.stopPrice =
        .ok (order.price, order.stopPrice) ∧
      boundedQuantity request.quantity = .ok order.quantity ∧
      order.id = id ∧ order.type = request.type ∧ order.filled = 0 ∧ order.fillValue = 0 := by
  unfold ofNew at built
  cases prices : requiredPrices request.type request.price request.stopPrice with
  | error error => simp [prices, bind, Except.bind] at built
  | ok found =>
    cases bounded : boundedQuantity request.quantity with
    | error error => simp [prices, bounded, bind, Except.bind] at built
    | ok quantity =>
      simp only [prices, bounded, bind, Except.bind, pure, Except.pure, Except.ok.injEq] at built
      subst built
      exact ⟨rfl, rfl, rfl, rfl, rfl, rfl⟩

/-- A fresh order is sound unless its quantity is negative, and has no fills. -/
theorem sound_of_new {id : OrderId} {request : NewOrder} {order : Order}
    (built : ofNew id request = .ok order) (positive : 0 < order.quantity) :
    order.Sound ∧ order.filled = 0 := by
  obtain ⟨prices, bounded, -, type, filled, value⟩ := new_ok built
  have allowed := required_prices_allowed prices
  rw [← type] at allowed
  exact ⟨⟨Int.le_of_eq filled.symm, by omega, (bounded_quantity_ok bounded).2,
    Int.le_of_eq value.symm, by rw [filled, value]; decide, allowed.1, allowed.2⟩, filled⟩

/-- A fresh order has a price in range or none. -/
theorem price_of_new {id : OrderId} {request : NewOrder} {order : Order}
    (built : ofNew id request = .ok order) : 0 ≤ order.price ∧ order.price ≤ maxPrice := by
  obtain ⟨prices, -⟩ := new_ok built
  cases limited : request.type.isLimited with
  | true =>
    have allowed := (required_prices_allowed prices).1 limited
    exact ⟨Int.le_trans (by decide) allowed.positive, allowed.bounded⟩
  | false =>
    rw [required_price_unused limited prices]
    decide

/-- The image of a replacement has the prices of its request, the whole quantity and the
identifier of the order that it names, and no fills. -/
theorem replacement_ok {request : Replacement} {image : Order}
    (built : ofReplacement request = .ok image) :
    requiredPrices request.type request.price request.stopPrice =
        .ok (image.price, image.stopPrice) ∧
      request.total = .ok image.quantity ∧ image.id = request.order ∧ image.type = request.type ∧
      image.filled = 0 := by
  unfold ofReplacement at built
  cases prices : requiredPrices request.type request.price request.stopPrice with
  | error error => simp [prices, bind, Except.bind] at built
  | ok found =>
    cases total : request.total with
    | error error => simp [prices, total, bind, Except.bind] at built
    | ok quantity =>
      simp only [prices, total, bind, Except.bind, pure, Except.pure, Except.ok.injEq] at built
      subst built
      exact ⟨rfl, rfl, rfl, rfl, rfl⟩

/-- A replacement that is not refused asks for allowed prices and quantities. -/
theorem image_of_replacement {request : Replacement} {image : Order}
    (built : ofReplacement request = .ok image) : image.Image := by
  obtain ⟨prices, total, -, type, -⟩ := replacement_ok built
  have allowed := required_prices_allowed prices
  rw [← type] at allowed
  exact ⟨(total_ok total).2.1, allowed.1, allowed.2⟩

end Order

end Bourse
