import Bourse.Proofs.CheckedAmounts
import Mathlib.Algebra.Order.BigOperators.Group.List
import Mathlib.Algebra.Order.Group.Int
import Mathlib.Algebra.Ring.Int.Defs

/-!
# Depth within words

The depth of a queue adds up what its orders show, level by level, from the best order on,
and stops at the order that would open a level too many. Each order shows at most 10⁹, so
fewer than 9 · 10⁹ orders show at most 9 · 10¹⁸ together, which a signed word holds; and no
sum on the way is larger than that, as no order shows a negative quantity.

The levels that are counted on the way are the first ones of those that the orders have
altogether.
-/

namespace Bourse

/-- What orders show together. -/
def shownTotal (orders : List Order) : Int := (orders.map (·.pending)).sum

/-- What levels show together. -/
def levelTotal (levels : List Level) : Int := (levels.map (·.quantity)).sum

/-- Levels with another one on top, which the first of them is merged into where it has its
price. -/
def Level.onTop (level : Level) : List Level → List Level
  | [] => [level]
  | first :: levels =>
    if first.price = level.price then ⟨level.price, level.quantity + first.quantity⟩ :: levels
    else level :: first :: levels

/-- Every order puts a level of its own on top. -/
theorem levels_of_cons (order : Order) (rest : List Order) :
    levelsOf (order :: rest) = (Level.mk order.price order.pending).onTop (levelsOf rest) := by
  rw [levelsOf]
  cases levelsOf rest <;> rfl

/-- Two levels of one price on top are one level. -/
theorem Level.on_top_twice (level : Level) (quantity : Int) (levels : List Level) :
    level.onTop ((Level.mk level.price quantity).onTop levels) =
      (Level.mk level.price (level.quantity + quantity)).onTop levels := by
  cases levels with
  | nil => simp [onTop]
  | cons first levels =>
    by_cases same : first.price = level.price
    · simp [onTop, same, Int.add_assoc]
    · simp [onTop, same]

/-- A level on top of one of another price stays apart. -/
theorem Level.on_top_other {level other : Level} (different : level.price ≠ other.price)
    (levels : List Level) : level.onTop (other.onTop levels) = level :: other.onTop levels := by
  cases levels with
  | nil => simp [onTop, Ne.symm different]
  | cons first levels =>
    by_cases same : first.price = other.price
    · simp [onTop, same, Ne.symm different]
    · simp [onTop, same, Ne.symm different]

/-- A level on top of others adds its quantity to theirs. -/
theorem Level.level_total_on_top (level : Level) (levels : List Level) :
    levelTotal (level.onTop levels) = level.quantity + levelTotal levels := by
  cases levels with
  | nil => rfl
  | cons first levels =>
    by_cases same : first.price = level.price
    · simp [levelTotal, onTop, same, Int.add_assoc]
    · simp [levelTotal, onTop, same]

/-- No quantity is negative once a level that is not has been put on top of levels that are not. -/
theorem Level.on_top_nonneg {level : Level} (nonneg : 0 ≤ level.quantity) {levels : List Level}
    (others : ∀ other ∈ levels, 0 ≤ other.quantity) :
    ∀ other ∈ level.onTop levels, 0 ≤ other.quantity := by
  cases levels with
  | nil => simpa [onTop] using nonneg
  | cons first levels =>
    obtain ⟨top, behind⟩ := List.forall_mem_cons.mp others
    by_cases same : first.price = level.price
    · rw [onTop, if_pos same]
      exact List.forall_mem_cons.mpr ⟨Int.add_nonneg nonneg top, behind⟩
    · rw [onTop, if_neg same]
      exact List.forall_mem_cons.mpr ⟨nonneg, others⟩

/-- Orders that words hold and that show no negative quantity. -/
structure Countable (orders : List Order) : Prop where
  reportable : ∀ order ∈ orders, order.Reportable
  shown : ∀ order ∈ orders, 0 ≤ order.pending

/-- What countable orders show together is not negative. -/
theorem Countable.total_nonneg {orders : List Order} (countable : Countable orders) :
    0 ≤ shownTotal orders := by
  apply List.sum_nonneg
  exact List.forall_mem_map.mpr countable.shown

/-- What the first order shows comes on top of what the others show. -/
theorem shown_total_cons (order : Order) (rest : List Order) :
    shownTotal (order :: rest) = order.pending + shownTotal rest := by
  simp [shownTotal]

/-- The levels that are counted are the first ones of all. -/
theorem checked_levels {orders : List Order} (countable : Countable orders) (level : Level)
    (further : Nat) (nonneg : 0 ≤ level.quantity)
    (bounded : level.quantity + shownTotal orders ≤ Word.greatest) :
    checkedLevels level further orders =
      pure ((level.onTop (levelsOf orders)).take (further + 1)) := by
  induction orders generalizing level further with
  | nil => simp [checkedLevels, levelsOf, Level.onTop]
  | cons order rest induction =>
    obtain ⟨own, others⟩ := List.forall_mem_cons.mp countable.reportable
    obtain ⟨pending, behind⟩ := List.forall_mem_cons.mp countable.shown
    have rest_countable : Countable rest := ⟨others, behind⟩
    have more := rest_countable.total_nonneg
    rw [shown_total_cons] at bounded
    rw [checkedLevels.eq_def, levels_of_cons]
    simp only
    by_cases same : level.price = order.price
    · have sum : Word.Fits (level.quantity + order.pending) :=
        Word.fits_of_nonneg (by omega) (by omega)
      rw [if_pos same, own.checked_pending, pure_bind, Word.checked_of_fits sum, pure_bind,
        induction rest_countable _ _ (by exact Int.add_nonneg nonneg pending) (by simp only; omega),
        ← same, Level.on_top_twice]
    · rw [if_neg same, Level.on_top_other same]
      cases further with
      | zero => rfl
      | succ further =>
        simp only
        rw [own.checked_pending, pure_bind,
          induction rest_countable _ _ (by exact pending) (by simp only; omega), pure_bind]
        rfl

/-- The levels of orders show what the orders show. -/
theorem level_total_levels_of (orders : List Order) :
    levelTotal (levelsOf orders) = shownTotal orders := by
  induction orders with
  | nil => rfl
  | cons order rest induction =>
    rw [levels_of_cons, Level.level_total_on_top, induction, shown_total_cons]

/-- No level of orders shows a negative quantity. -/
theorem Countable.levels_nonneg {orders : List Order} (countable : Countable orders) :
    ∀ level ∈ levelsOf orders, 0 ≤ level.quantity := by
  induction orders with
  | nil => simp [levelsOf]
  | cons order rest induction =>
    obtain ⟨-, others⟩ := List.forall_mem_cons.mp countable.reportable
    obtain ⟨pending, behind⟩ := List.forall_mem_cons.mp countable.shown
    rw [levels_of_cons]
    exact Level.on_top_nonneg pending (induction ⟨others, behind⟩)

namespace Depth

/-- Levels that are left off anyway may be left off before. -/
theorem of_levels_take (levels : List Level) :
    ofLevels (levels.take depthLevels) = ofLevels levels := by
  unfold ofLevels
  congr 1
  funext place
  simp [List.getD_eq_getElem?_getD, place.isLt]

/-- A depth is the first levels, followed by empty ones. -/
theorem of_levels_to_list (levels : List Level) :
    (ofLevels levels).toList =
      (levels ++ List.replicate depthLevels Level.blank).take depthLevels := by
  apply List.ext_getElem
  · simp
  · intro place inside _
    have bound : place < depthLevels := by simpa using inside
    by_cases some : place < levels.length
    · simp [ofLevels, List.getElem_append_left, some]
    · simp [ofLevels, List.getElem_append_right, Nat.not_lt.mp some]

/-- The total of a depth is that of its levels. -/
theorem total_eq (depth : Depth) : depth.total = levelTotal depth.toList := by
  rw [total, levelTotal, List.sum_eq_foldr, List.foldr_map]

/-- A depth shows no more than the levels it is made of. -/
theorem total_of_levels {levels : List Level} (nonneg : ∀ level ∈ levels, 0 ≤ level.quantity) :
    (∀ level ∈ (ofLevels levels).toList, 0 ≤ level.quantity) ∧
      (ofLevels levels).total ≤ levelTotal levels := by
  have padded : ∀ level ∈ levels ++ List.replicate depthLevels Level.blank,
      0 ≤ level.quantity := by
    intro level member
    rcases List.mem_append.mp member with own | empty
    · exact nonneg level own
    · rw [List.eq_of_mem_replicate empty]
      decide
  constructor
  · rw [of_levels_to_list]
    intro level member
    exact padded level (List.mem_of_mem_take member)
  · rw [total_eq, of_levels_to_list]
    have fewer := (List.take_sublist depthLevels
      (levels ++ List.replicate depthLevels Level.blank)).map (·.quantity)
    have bounded := fewer.sum_le_sum (List.forall_mem_map.mpr padded)
    simpa [levelTotal, Level.blank] using bounded

/-- Quantities that add up to a number that fits do so on the way as well. -/
theorem checked_sum {quantities : List Int} (nonneg : ∀ quantity ∈ quantities, 0 ≤ quantity)
    {total : Int} (start : 0 ≤ total) (bounded : total + quantities.sum ≤ Word.greatest) :
    quantities.foldlM (fun total quantity => Word.checked (total + quantity)) total =
      pure (total + quantities.sum) := by
  induction quantities generalizing total with
  | nil => simp
  | cons quantity rest induction =>
    obtain ⟨first, others⟩ := List.forall_mem_cons.mp nonneg
    have later := List.sum_nonneg others
    rw [List.sum_cons, ← Int.add_assoc] at bounded ⊢
    rw [List.foldlM_cons, Word.checked_of_fits (Word.fits_of_nonneg (by omega) (by omega)),
      pure_bind, induction others (by omega) bounded]

/-- The total of a depth passes the check if a word holds it. -/
theorem checked_total {depth : Depth} (nonneg : ∀ level ∈ depth.toList, 0 ≤ level.quantity)
    (bounded : depth.total ≤ Word.greatest) : depth.checkedTotal = pure depth.total := by
  rw [total_eq, levelTotal] at bounded ⊢
  rw [checkedTotal,
    checked_sum (List.forall_mem_map.mpr nonneg) (Int.le_refl 0) (by simpa using bounded),
    Int.zero_add]

end Depth

/-- What a queue shows fits into words as long as it holds fewer than 9 · 10⁹ orders. -/
theorem Queue.checked_depth {direction : Direction} {queue : Queue direction} {flow : Flow}
    (keeps : queue.Keeps Order.price (Order.Rests flow))
    (few : queue.size < 9000000000) :
    queue.checkedDepth = pure queue.depth ∧
      queue.depth.checkedTotal = pure queue.depth.total := by
  have rests := keeps.lawful_orders
  have countable : Countable queue.orders := by
    constructor
    · intro order member
      exact (rests order member).sound.reportable
    · intro order member
      exact Int.le_of_lt (order.pending_pos_iff.mpr (rests order member).left)
  have bounded : shownTotal queue.orders ≤ Word.greatest := by
    have each : ∀ quantity ∈ queue.orders.map (·.pending), quantity ≤ maxQuantity := by
      refine List.forall_mem_map.mpr ?_
      intro order member
      exact Int.le_trans order.pending_le_unfilled (rests order member).sound.unfilled_le
    have sum := List.sum_le_card_nsmul _ _ each
    have size : queue.orders.length = queue.size := List.length_map ..
    simp only [List.length_map, size, Int.nsmul_eq_mul, maxQuantity] at sum
    unfold shownTotal Word.greatest
    omega
  constructor
  · unfold checkedDepth depth
    cases orders : queue.orders with
    | nil => rfl
    | cons order rest =>
      rw [orders] at countable bounded
      obtain ⟨own, others⟩ := List.forall_mem_cons.mp countable.reportable
      obtain ⟨pending, behind⟩ := List.forall_mem_cons.mp countable.shown
      rw [shown_total_cons] at bounded
      simp only
      rw [own.checked_pending, pure_bind, checked_levels ⟨others, behind⟩ _ _ pending bounded,
        pure_bind, ← levels_of_cons]
      exact congrArg pure (Depth.of_levels_take _)
  · obtain ⟨nonneg, most⟩ := Depth.total_of_levels countable.levels_nonneg
    rw [level_total_levels_of] at most
    exact Depth.checked_total nonneg (Int.le_trans most bounded)

end Bourse
