import Bourse.Proofs.Prices

/-!
# Books are never crossed

In no book that a run reaches does a purchase rest at or above the price of a sale that
rests. An order comes to rest only right after it found nothing to trade with, and what
stopped it then stops it from crossing: the best order of the other flow is beyond its
limit, and so is every other one, or there is none at all. Everything else that happens
brings no price into a queue of resting orders that was not in it before.
-/

namespace Bourse

/-- Whether an order of a flow at a price stays clear of one of the contra flow. -/
def Flow.Clear : Flow → (own other : Int) → Prop
  | .buying, own, other => own < other
  | .selling, own, other => other < own

namespace Book

/-- Every purchase that rests stays clear of every sale that rests. -/
def Apart (book : Book) : Prop :=
  ∀ purchase ∈ (book.resting .buying).entries, ∀ sale ∈ (book.resting .selling).entries,
    purchase.order.price < sale.order.price

/-- The best purchase is below the best sale, if there are both. -/
def Uncrossed (book : Book) : Prop :=
  ∀ bid ∈ book.best? .buying, ∀ ask ∈ book.best? .selling, bid < ask

/-- The two sides are apart if that is so seen from either. -/
theorem apart_iff (book : Book) (flow : Flow) :
    book.Apart ↔ ∀ own ∈ (book.resting flow).entries,
      ∀ other ∈ (book.resting flow.contra).entries,
        flow.Clear own.order.price other.order.price := by
  cases flow with
  | buying => rfl
  | selling =>
    constructor
    · intro apart own member other present
      exact apart other present own member
    · intro clear own member other present
      exact clear other present own member

/-- The best prices are those of orders that rest. -/
theorem Apart.uncrossed {book : Book} (apart : book.Apart) : book.Uncrossed := by
  intro bid bidBest ask askBest
  obtain ⟨purchase, first, rfl⟩ := Option.map_eq_some_iff.mp bidBest
  obtain ⟨sale, second, rfl⟩ := Option.map_eq_some_iff.mp askBest
  obtain ⟨entry, member, rfl⟩ := List.mem_map.mp (List.mem_of_head? first)
  obtain ⟨other, present, rfl⟩ := List.mem_map.mp (List.mem_of_head? second)
  exact apart entry member other present

/-- They stay apart if neither has a new price. -/
theorem Apart.no_new_price {book next : Book} (apart : book.Apart)
    (prices : ∀ flow, Queue.NoNewKey Order.price (book.resting flow) (next.resting flow)) :
    next.Apart := by
  intro purchase member sale present
  obtain ⟨first, firstThere, firstPrice⟩ := prices .buying purchase member
  obtain ⟨second, secondThere, secondPrice⟩ := prices .selling sale present
  rw [← firstPrice, ← secondPrice]
  exact apart first firstThere second secondThere

/-- An operation brings no new price into a queue of resting orders at once. -/
theorem Leaves.apart {book next : Book} {tasks : List Task} (leaves : book.Leaves next tasks)
    (apart : book.Apart) : next.Apart := by
  cases leaves with
  | settled prices => exact apart.no_new_price prices.resting
  | live prices => exact apart.no_new_price prices.resting
  | parked prices unreached =>
    refine apart.no_new_price fun flow => ?_
    rw [resting_with_parked]
    exact prices.resting flow

/-- An order that finds nothing to trade with accepts the price of no order of the other
flow: not of the best one, and so of none behind it. -/
theorem stuck_refuses {book : Book} (sound : book.Sound) {order : Order}
    (stuck : book.tradeOnce order = none) (left : 0 < order.unfilled) :
    ∀ other ∈ (book.resting order.flow.contra).entries,
      order.accepts other.order.price = false := by
  have keeps := sound.resting order.flow.contra
  cases entries : (book.resting order.flow.contra).entries with
  | nil => simp
  | cons maker behind =>
    have rests := keeps.lawful maker (entries ▸ List.mem_cons_self)
    have refused : order.accepts maker.order.price = false := by
      by_contra accepted
      have shown : 0 < min order.pending maker.order.pending := by
        have := order.pending_pos_iff.mpr left
        have := maker.order.pending_pos_iff.mpr rests.left
        omega
      have meets : book.Meets order maker behind :=
        ⟨entries, shown, by simpa using accepted⟩
      have trade := (trade_once_iff ..).mpr ⟨maker, behind, meets, rfl, rfl, rfl⟩
      simp [stuck] at trade
    intro other member
    have best := keeps.first_best entries other (entries ▸ member)
    rcases best with rfl | worse | ⟨same, -⟩
    · exact refused
    · cases flow : order.flow <;> cases type : order.type <;>
        simp_all [Order.accepts, Flow.contra, Flow.restingDirection, Direction.better] <;> omega
    · exact same ▸ refused

/-- The orders that accept no trade at a price are those with a limit that stay clear of it. -/
theorem refuses_iff_clear (order : Order) (price : Int) :
    order.accepts price = false ↔
      order.type ≠ .market ∧ order.flow.Clear order.price price := by
  cases flow : order.flow <;> cases type : order.type <;>
    simp_all [Order.accepts, Flow.Clear]

/-- An order comes to rest clear of the other flow. -/
theorem rest_apart {book : Book} (apart : book.Apart) {order : Order}
    (clear : ∀ other ∈ (book.resting order.flow.contra).entries,
      order.flow.Clear order.price other.order.price) : (book.rest order).Apart := by
  refine (apart_iff _ order.flow).mpr ?_
  intro own member other present
  simp only [rest, resting_with_resting] at member
  simp only [rest, contra_with_resting] at present
  rcases (Queue.mem_insert ..).mp member with rfl | ⟨before, -⟩
  · exact clear other present
  · exact (apart_iff book order.flow).mp apart own before other present

/-- What is left of an order leaves the flows apart. Without a limit of its own it comes
to rest only where the other flow is empty. -/
theorem settled_apart {book : Book} (sound : book.Sound) (apart : book.Apart) {order : Order}
    (stuck : book.tradeOnce order = none) (left : 0 < order.unfilled) :
    (book.restRemainder order).1.Apart := by
  have refused := stuck_refuses sound stuck left
  have settles := book.settles order
  generalize book.restRemainder order = settled at settles ⊢
  cases settles with
  | expired immediate => exact apart
  | unpriced day market untraded => exact apart
  | restated day market priced =>
    refine rest_apart apart fun other present => ?_
    exact absurd market ((refuses_iff_clear ..).mp (refused other present)).1
  | rested day limited =>
    exact rest_apart apart fun other present =>
      ((refuses_iff_clear ..).mp (refused other present)).2

/-- Every move keeps the flows apart. -/
theorem Move.apart {book next : Book} {tasks later : List Task} {reports : List Report}
    (move : book.Move tasks next later reports) (sound : book.Sound) (apart : book.Apart) :
    next.Apart := by
  cases move with
  | trade traded =>
    obtain ⟨maker, behind, meets, rfl, rfl, rfl⟩ := (trade_once_iff ..).mp traded
    exact apart.no_new_price meets.no_new_price
  | settle stuck left => exact settled_apart sound apart stuck left
  | finish stuck spent => exact apart
  | release released =>
    obtain ⟨entry, behind, releases, rfl, rfl⟩ := releases_of_release released
    exact apart.no_new_price releases.prices.resting
  | pass unreached => exact apart

/-- In every book that a run reaches the flows are apart. -/
theorem run_apart (first : Order) (operations : List Operation) :
    ((ofFirst first).performAll operations).1.Apart := by
  have kept := sound_run_keeps (P := fun book _ _ => book.Apart)
    (fun opens sound apart => (opens.leaves sound).apart apart)
    (fun move sound _ apart => move.apart sound apart)
    (fun changes apart => apart.no_new_price (NoNewPrice.marked _ changes).resting)
    first operations (by simp [Apart, ofFirst, resting, Queue.empty])
  exact kept.2

/-- No run of operations reaches a crossed book, whatever they are and whatever order the
book began with. -/
theorem never_crossed (first : Order) (operations : List Operation) :
    ((ofFirst first).performAll operations).1.Uncrossed :=
  (run_apart first operations).uncrossed

end Book

end Bourse
