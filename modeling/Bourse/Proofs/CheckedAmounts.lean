import Bourse.Proofs.CheckedArithmetic
import Bourse.Proofs.DayRecord

/-!
# Amounts within words

The bounds on the prices and quantities of requests keep all that is computed with an order
within signed words: a quantity times a price is at most 10¹⁸, and so is the value of all
fills of an order together, since no more is filled than its quantity. The totals of a day
stop at the greatest word by themselves.

Each law says of one computation with words that it comes to what it comes to with whole
numbers. A fill does so beyond these bounds as well, wherever its own numbers fit: `FillFits`.
-/

namespace Bourse

namespace Word

/-- A number that a word holds passes the check. -/
theorem checked_of_fits {value : Int} (fits : Fits value) : checked value = pure value :=
  if_pos fits

/-- A quotient that a word holds passes the check. -/
theorem quotient_of_fits {value divisor : Int} (some : divisor ≠ 0)
    (fits : Fits (value.tdiv divisor)) : quotient value divisor = pure (value.tdiv divisor) := by
  rw [quotient, if_neg some, checked_of_fits fits]

/-- What lies between zero and the greatest word fits. -/
theorem fits_of_nonneg {value : Int} (nonneg : 0 ≤ value) (bounded : value ≤ greatest) :
    Fits value := by
  unfold Fits least
  omega

/-- What has been cut to a word is no greater than the greatest word. -/
theorem saturated_le (value : Int) : saturated value ≤ greatest := by
  unfold saturated least greatest
  omega

/-- A quotient of no negative numbers lies between zero and the dividend. -/
theorem tdiv_fits {value divisor : Int} (nonneg : 0 ≤ value) (bounded : value ≤ greatest)
    (positive : 0 ≤ divisor) : Fits (value.tdiv divisor) := by
  apply fits_of_nonneg
  · exact Int.tdiv_nonneg nonneg positive
  · exact Int.le_trans (Int.tdiv_le_self divisor nonneg) bounded

/-- The bounds of requests keep the product of a price and a quantity inside a word. -/
theorem fits_of_bounded {value : Int} (nonneg : 0 ≤ value)
    (bounded : value ≤ maxPrice * maxQuantity) : Fits value := by
  apply fits_of_nonneg nonneg
  exact Int.le_trans bounded (by decide)

end Word

/-- The value of a trade fits into a word. -/
theorem PriceAllowed.value_fits {price quantity : Int} (allowed : PriceAllowed price)
    (nonneg : 0 ≤ quantity) (bounded : quantity ≤ maxQuantity) : Word.Fits (price * quantity) := by
  have price_nonneg : 0 ≤ price := Int.le_trans (by decide) allowed.positive
  apply Word.fits_of_bounded
  · exact Int.mul_nonneg price_nonneg nonneg
  · exact Int.mul_le_mul allowed.bounded bounded nonneg (by decide)

namespace Order

/-- No more is left of an order than a request may ask for. -/
theorem Sound.unfilled_le {order : Order} (sound : order.Sound) : order.unfilled ≤ maxQuantity := by
  have nonneg := sound.filled_nonneg
  have quantity := sound.quantity_le
  unfold unfilled
  omega

/-- The value of all fills of an order is at most that of the largest trade. -/
theorem Sound.value_bounded {order : Order} (sound : order.Sound) :
    order.fillValue ≤ maxPrice * maxQuantity := by
  apply Int.le_trans sound.value_le
  apply Int.mul_le_mul_of_nonneg_left
  · exact Int.le_trans sound.filled_le sound.quantity_le
  · decide

/-- What a report on an order computes fits into words. -/
structure Reportable (order : Order) : Prop where
  unfilled : Word.Fits order.unfilled
  average : Word.Fits order.averagePrice

/-- Nothing is computed of an order without fills but its own quantity. -/
theorem reportable_of_untouched {order : Order} (untouched : order.filled = 0)
    (fits : Word.Fits order.quantity) : order.Reportable := by
  constructor
  · rw [unfilled, untouched, Int.sub_zero]
    exact fits
  · rw [averagePrice, if_pos untouched]
    decide

/-- A sound order can be reported on. -/
theorem Sound.reportable {order : Order} (sound : order.Sound) : order.Reportable := by
  constructor
  · apply Word.fits_of_bounded
    · exact Int.sub_nonneg.mpr sound.filled_le
    · exact Int.le_trans sound.unfilled_le (by decide)
  · by_cases untouched : order.filled = 0
    · rw [averagePrice, if_pos untouched]
      decide
    · rw [averagePrice, if_neg untouched]
      apply Word.tdiv_fits sound.value_nonneg _ sound.filled_nonneg
      exact Int.le_trans sound.value_bounded (by decide)

/-- What is left of it passes the check. -/
theorem Reportable.checked_unfilled {order : Order} (reportable : order.Reportable) :
    order.checkedUnfilled = pure order.unfilled :=
  Word.checked_of_fits reportable.unfilled

/-- So does what it shows. -/
theorem Reportable.checked_pending {order : Order} (reportable : order.Reportable) :
    order.checkedPending = pure order.pending := by
  rw [checkedPending, reportable.checked_unfilled, pure_bind]
  rfl

/-- So does its mean price. -/
theorem Reportable.checked_average {order : Order} (reportable : order.Reportable) :
    order.checkedAveragePrice = pure order.averagePrice := by
  have fits := reportable.average
  by_cases untouched : order.filled = 0
  · rw [checkedAveragePrice, averagePrice, if_pos untouched, if_pos untouched]
  · rw [averagePrice, if_neg untouched] at fits ⊢
    rw [checkedAveragePrice, if_neg untouched]
    exact Word.quotient_of_fits untouched fits

/-- What a fill computes fits into words. -/
structure FillFits (order : Order) (price quantity : Int) : Prop where
  unfilled : Word.Fits order.unfilled
  value : Word.Fits (price * quantity)
  total : Word.Fits (order.fillValue + price * quantity)
  filled : Word.Fits (order.filled + quantity)

/-- A fill of no more than is left passes all checks if it fits into words. -/
theorem FillFits.checked_fill {order : Order} {price quantity : Int}
    (fits : order.FillFits price quantity) (positive : 0 < quantity)
    (left : quantity ≤ order.unfilled) :
    order.checkedFill price quantity = pure (order.fill price quantity) := by
  rw [fill_eq order price quantity left]
  rw [checkedFill, checkedUnfilled]
  rw [show order.quantity - order.filled = order.unfilled from rfl]
  rw [Word.checked_of_fits fits.unfilled, pure_bind, if_pos ⟨positive, left⟩, Int.min_eq_left left]
  simp only [Word.checked_of_fits, fits.value, fits.total, fits.filled, pure_bind]

/-- A fill at an allowed price of no more than is left fits into words. The order after it is
sound, which bounds the sums. -/
theorem Sound.fill_fits {order : Order} (sound : order.Sound) {price quantity : Int}
    (allowed : PriceAllowed price) (positive : 0 < quantity) (left : quantity ≤ order.unfilled) :
    order.FillFits price quantity := by
  have after := sound.fill allowed positive left
  rw [fill_eq order price quantity left] at after
  constructor
  · exact sound.reportable.unfilled
  · exact allowed.value_fits (Int.le_of_lt positive) (Int.le_trans left sound.unfilled_le)
  · exact Word.fits_of_bounded after.value_nonneg after.value_bounded
  · apply Word.fits_of_bounded after.filled_nonneg
    exact Int.le_trans (Int.le_trans after.filled_le after.quantity_le) (by decide)

/-- So it passes all checks. -/
theorem Sound.checked_fill {order : Order} (sound : order.Sound) {price quantity : Int}
    (allowed : PriceAllowed price) (positive : 0 < quantity) (left : quantity ≤ order.unfilled) :
    order.checkedFill price quantity = pure (order.fill price quantity) :=
  (sound.fill_fits allowed positive left).checked_fill positive left

end Order

namespace Report

/-- A report on an order within words passes the check. -/
theorem checked_of {order : Order} (reportable : order.Reportable) (kind : ReportKind)
    (reason : String) : checkedOf kind order reason = pure (of kind order reason) := by
  simp only [checkedOf, reportable.checked_unfilled, reportable.checked_average, pure_bind]
  rfl

/-- So does a report on its fill. -/
theorem checked_of_fill {order : Order} (reportable : order.Reportable) :
    checkedOfFill order = pure (ofFill order) := by
  rw [checkedOfFill, reportable.checked_pending, pure_bind, checked_of reportable]
  rfl

end Report

namespace Record

/-- Reference prices within the bounds of requests have limits. -/
theorem checked_seeded (security : String) {price : Int} (nonneg : 0 ≤ price)
    (bounded : price ≤ maxPrice) : checkedSeeded security price = pure (seeded security price) := by
  unfold maxPrice at bounded
  have below : price * 9 ≤ Word.greatest := by
    unfold Word.greatest
    omega
  have above : price * 11 ≤ Word.greatest := by
    unfold Word.greatest
    omega
  unfold checkedSeeded
  rw [Word.checked_of_fits (Word.fits_of_nonneg (by omega) below), pure_bind,
    Word.quotient_of_fits (by decide) (Word.tdiv_fits (by omega) below (by decide)), pure_bind,
    Word.checked_of_fits (Word.fits_of_nonneg (by omega) above), pure_bind,
    Word.quotient_of_fits (by decide) (Word.tdiv_fits (by omega) above (by decide)), pure_bind]
  rfl

/-- A trade that is not one too many for its number fits into words. The volume after it is
positive, so there is an average price. -/
theorem Sound.checked_trade {record : Record} (sound : record.Sound) {price quantity : Int}
    (counted : 0 ≤ record.trades) (few : record.trades < Word.greatest)
    (allowed : PriceAllowed price) (positive : 0 < quantity) (bounded : quantity ≤ maxQuantity) :
    record.checkedTrade price quantity = pure (record.trade price quantity) := by
  have after := sound.trade (Int.lt_of_lt_of_le (by decide) allowed.positive) positive
  have number : Word.Fits (record.trades + 1) := Word.fits_of_nonneg (by omega) (by omega)
  have amount : Word.Fits (quantity * price) := by
    rw [Int.mul_comm]
    exact allowed.value_fits (Int.le_of_lt positive) bounded
  have divisible := saturated_pos sound.volume_nonneg positive
  have average : Word.quotient (Word.saturated (record.value + quantity * price))
      (Word.saturated (record.volume + quantity)) =
        pure (record.trade price quantity).weightedAverage :=
    Word.quotient_of_fits (Int.ne_of_gt divisible)
      (Word.tdiv_fits after.value_nonneg (Word.saturated_le _) after.volume_nonneg)
  simp only [checkedTrade, Word.checked_of_fits, number, amount, average, pure_bind]
  rfl

end Record

end Bourse
