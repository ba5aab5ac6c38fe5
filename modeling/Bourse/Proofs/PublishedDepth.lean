import Bourse.Proofs.CheckedDepth
import Bourse.Proofs.Uncrossed

/-!
# The published depth

The levels of a queue are made by merging neighbours, so that they tell the truth only where all
orders at one price stand next to each other. They do, since every order of a sound book stands
under its own price: `levels_of_aggregate`.

`ShowsBest` says what a side of the published depth is to show, without a word on how it is found:
the best prices of the orders, as many as there is room for, and at each of them what all its
orders show. The depth of every book that a run reaches is of this kind, and the two sides of
it are those of an uncrossed book.
-/

namespace Bourse

/-- What the orders at a price show together. -/
def shownAt (orders : List Order) (price : Int) : Int :=
  shownTotal (orders.filter (·.price = price))

/-- An order adds what it shows to its own price and to no other. -/
theorem shown_at_cons (order : Order) (rest : List Order) (price : Int) :
    shownAt (order :: rest) price =
      (if order.price = price then order.pending else 0) + shownAt rest price := by
  by_cases own : order.price = price
  · simp [shownAt, shownTotal, own]
  · simp [shownAt, own]

/-- Nothing is shown at a price without orders. -/
theorem shown_at_unused {orders : List Order} {price : Int}
    (unused : ∀ order ∈ orders, order.price ≠ price) : shownAt orders price = 0 := by
  have none : orders.filter (·.price = price) = [] :=
    List.filter_eq_nil_iff.mpr fun order member => by simpa using unused order member
  rw [shownAt, none]
  rfl

/-- Orders stand by price, the best price first. -/
def InPriceOrder (direction : Direction) (orders : List Order) : Prop :=
  orders.Pairwise fun order later =>
    direction.better order.price later.price = true ∨ order.price = later.price

/-- A queue whose orders stand under their own prices holds them by price. -/
theorem Queue.Keeps.in_price_order {direction : Direction} {queue : Queue direction}
    {law : Order → Prop} (keeps : queue.Keeps Order.price law) :
    InPriceOrder direction queue.orders := by
  refine List.pairwise_map.mpr (keeps.ordered.sorted.imp_of_mem ?_)
  intro entry later member present ahead
  rw [Entry.ahead_iff, keeps.keyed entry member, keeps.keyed later present] at ahead
  exact ahead.imp_right And.left

/-- Levels that leave out no price of the orders and no order at a price. -/
structure Aggregate (direction : Direction) (orders : List Order) (levels : List Level) :
    Prop where
  worsening : levels.Pairwise fun level later => direction.better level.price later.price = true
  prices : ∀ price, (∃ level ∈ levels, level.price = price) ↔ ∃ order ∈ orders, order.price = price
  quantities : ∀ level ∈ levels, level.quantity = shownAt orders level.price
  first : levels.head?.map (·.price) = orders.head?.map (·.price)

namespace Aggregate

variable {direction : Direction} {order : Order} {rest : List Order} {level : Level}
  {levels : List Level}

/-- An order at a price that no other order has opens a level. -/
theorem opened (aggregate : Aggregate direction rest levels)
    (better : ∀ other ∈ rest, direction.better order.price other.price = true) :
    Aggregate direction (order :: rest) (⟨order.price, order.pending⟩ :: levels) where
  worsening := by
    refine List.pairwise_cons.mpr ⟨fun later member => ?_, aggregate.worsening⟩
    obtain ⟨other, present, same⟩ := (aggregate.prices later.price).mp ⟨later, member, rfl⟩
    exact same ▸ better other present
  prices := by
    intro price
    simp only [List.mem_cons, exists_eq_or_imp, aggregate.prices]
  quantities := by
    have other : ∀ later ∈ rest, later.price ≠ order.price := by
      intro later member same
      have worse := better later member
      rw [same] at worse
      cases direction <;> simp [Direction.better] at worse
    refine List.forall_mem_cons.mpr ⟨?_, fun later member => ?_⟩
    · rw [shown_at_cons, if_pos rfl, shown_at_unused other, Int.add_zero]
    · obtain ⟨present, member', same⟩ := (aggregate.prices later.price).mp ⟨later, member, rfl⟩
      have different : order.price ≠ later.price := fun equal =>
        other present member' (same.trans equal.symm)
      rw [shown_at_cons, if_neg different, Int.zero_add, aggregate.quantities later member]
  first := rfl

/-- An order at the best price adds to its level. -/
theorem merged (aggregate : Aggregate direction rest (level :: levels))
    (same : level.price = order.price) :
    Aggregate direction (order :: rest)
      (⟨order.price, order.pending + level.quantity⟩ :: levels) where
  worsening := by
    obtain ⟨worse, others⟩ := List.pairwise_cons.mp aggregate.worsening
    exact List.pairwise_cons.mpr ⟨fun later member => same ▸ worse later member, others⟩
  prices := by
    intro price
    have prices := aggregate.prices price
    simp only [List.mem_cons, exists_eq_or_imp, same] at prices ⊢
    rw [← prices]
    tauto
  quantities := by
    have worse := (List.pairwise_cons.mp aggregate.worsening).1
    obtain ⟨own, others⟩ := List.forall_mem_cons.mp aggregate.quantities
    refine List.forall_mem_cons.mpr ⟨?_, fun later member => ?_⟩
    · rw [shown_at_cons, if_pos rfl, own, same]
    · have different : order.price ≠ later.price := by
        intro equal
        have better := worse later member
        rw [same, equal] at better
        cases direction <;> simp [Direction.better] at better
      rw [shown_at_cons, if_neg different, Int.zero_add, others later member]
  first := rfl

end Aggregate

/-- The levels of orders that stand by price leave out nothing. -/
theorem levels_of_aggregate {direction : Direction} {orders : List Order}
    (sorted : InPriceOrder direction orders) : Aggregate direction orders (levelsOf orders) := by
  induction orders with
  | nil => exact ⟨.nil, by simp [levelsOf], by simp [levelsOf], rfl⟩
  | cons order rest induction =>
    obtain ⟨behind, sorted⟩ := List.pairwise_cons.mp sorted
    have aggregate := induction sorted
    rw [levels_of_cons]
    cases levels : levelsOf rest with
    | nil =>
      rw [levels] at aggregate
      refine aggregate.opened fun other member => ?_
      obtain ⟨level, impossible, -⟩ := (aggregate.prices other.price).mpr ⟨other, member, rfl⟩
      simp at impossible
    | cons level levels =>
      rw [levels] at aggregate
      by_cases same : level.price = order.price
      · rw [Level.onTop, if_pos same]
        exact aggregate.merged same
      · rw [Level.onTop, if_neg same]
        refine aggregate.opened fun other member => ?_
        -- the best of the others is worse than the order, and so are those behind it
        obtain ⟨first, present, price⟩ :=
          (aggregate.prices level.price).mp ⟨level, List.mem_cons_self, rfl⟩
        have worse : direction.better order.price level.price = true := by
          rw [← price] at same ⊢
          exact (behind first present).resolve_right fun equal => same equal.symm
        obtain ⟨later, there, equal⟩ := (aggregate.prices other.price).mpr ⟨other, member, rfl⟩
        rcases List.mem_cons.mp there with rfl | there
        · exact equal ▸ worse
        · exact equal ▸ direction.better_trans worse
            ((List.pairwise_cons.mp aggregate.worsening).1 later there)

/-- Levels that show the best prices of orders. -/
structure ShowsBest (direction : Direction) (orders : List Order) (levels : List Level) :
    Prop where
  /-- There is room for so many levels. -/
  room : levels.length ≤ depthLevels
  /-- Each level is worse than those before it, so that no price is shown twice. -/
  worsening : levels.Pairwise fun level later => direction.better level.price later.price = true
  /-- Each level is at the price of an order. -/
  used : ∀ level ∈ levels, ∃ order ∈ orders, order.price = level.price
  /-- Each level shows all that is shown at its price. -/
  quantities : ∀ level ∈ levels, level.quantity = shownAt orders level.price
  /-- A price is left off only behind as many better ones as there is room for. -/
  complete : ∀ order ∈ orders, (∃ level ∈ levels, level.price = order.price) ∨
    levels.length = depthLevels ∧
      ∀ level ∈ levels, direction.better level.price order.price = true

/-- The first levels of all show the best prices. -/
theorem Aggregate.shows_best {direction : Direction} {orders : List Order} {levels : List Level}
    (aggregate : Aggregate direction orders levels) :
    ShowsBest direction orders (levels.take depthLevels) where
  room := List.length_take_le ..
  worsening := aggregate.worsening.sublist (List.take_sublist ..)
  used := fun level member =>
    (aggregate.prices level.price).mp ⟨level, List.mem_of_mem_take member, rfl⟩
  quantities := fun level member => aggregate.quantities level (List.mem_of_mem_take member)
  complete := by
    intro order member
    obtain ⟨level, present, same⟩ := (aggregate.prices order.price).mpr ⟨order, member, rfl⟩
    have worsening := aggregate.worsening
    rw [← List.take_append_drop depthLevels levels] at present worsening
    rcases List.mem_append.mp present with shown | left
    · exact .inl ⟨level, shown, same⟩
    · refine .inr ⟨?_, fun better shown => ?_⟩
      · have more := List.length_pos_of_mem left
        rw [List.length_drop] at more
        rw [List.length_take]
        omega
      · exact same ▸ (List.pairwise_append.mp worsening).2.2 better shown level left

/-- The level that a row of the depth has for a flow. -/
def DepthRow.level (row : DepthRow) : Flow → Level
  | .buying => row.buy
  | .selling => row.sell

/-- What a record publishes as the total of a flow. -/
def Record.total (record : Record) : Flow → Int
  | .buying => record.totalBuy
  | .selling => record.totalSell

/-- What a record publishes of a flow: the best prices of the orders that rest, with nothing
in the levels that are left, and the sum of what it shows. -/
structure Record.Publishes (record : Record) (book : Book) (flow : Flow) (levels : List Level) :
    Prop where
  best : ShowsBest flow.restingDirection (book.resting flow).orders levels
  starts : levels.head?.map (·.price) = book.best? flow
  rows : record.depth.toList.map (·.level flow) =
    levels ++ List.replicate (depthLevels - levels.length) Level.blank
  total : record.total flow = levelTotal levels

namespace Depth

/-- A depth is the first levels, and nothing in the place of those that are missing. -/
theorem of_levels_padded (levels : List Level) :
    (ofLevels levels).toList = levels.take depthLevels ++
      List.replicate (depthLevels - (levels.take depthLevels).length) Level.blank := by
  rw [of_levels_to_list, List.take_append, List.take_replicate]
  congr 2
  rw [List.length_take]
  omega

/-- Nothing is shown in the place of the levels that are missing. -/
theorem total_of_levels_eq (levels : List Level) :
    (ofLevels levels).total = levelTotal (levels.take depthLevels) := by
  rw [total_eq, of_levels_padded]
  simp [levelTotal, Level.blank]

/-- Both columns of a depth are those that it was put together from. -/
theorem zip_columns (buys sells : Depth) :
    (Vector.zipWith DepthRow.mk buys sells).toList.map (·.level .buying) = buys.toList ∧
      (Vector.zipWith DepthRow.mk buys sells).toList.map (·.level .selling) = sells.toList := by
  constructor <;>
    exact List.ext_getElem (by simp) fun place _ _ => by simp [DepthRow.level]

end Depth

/-- The first row shows the best price of a flow. -/
theorem Record.Publishes.first_row {record : Record} {book : Book} {flow : Flow}
    {levels : List Level} (publishes : record.Publishes book flow levels) {price : Int}
    (best : book.best? flow = some price) : (record.depth[0].level flow).price = price := by
  obtain ⟨level, head, rfl⟩ := Option.map_eq_some_iff.mp (publishes.starts.trans best)
  obtain ⟨others, rfl⟩ := List.head?_eq_some_iff.mp head
  have first : (record.depth.toList.map (·.level flow)).head? =
      some (record.depth[0].level flow) := by
    have some : 0 < record.depth.toList.length := by
      rw [Vector.length_toList]
      decide
    rw [List.head?_map, List.head?_eq_getElem?, List.getElem?_eq_getElem some]
    rfl
  rw [publishes.rows, List.cons_append, List.head?_cons, Option.some.injEq] at first
  rw [first]

/-- What a record publishes of a book: the best levels of both sides, and the best purchase
below the best sale if there are both. -/
structure Record.Shows (record : Record) (book : Book) : Prop where
  sides : ∀ flow, ∃ levels, record.Publishes book flow levels
  apart : book.buys.isEmpty = false → book.sells.isEmpty = false →
    record.depth[0].buy.price < record.depth[0].sell.price

namespace Book

/-- A queue with an order has a best price. -/
theorem best_of_not_empty {book : Book} (flow : Flow)
    (held : (book.resting flow).isEmpty = false) : ∃ price, book.best? flow = some price := by
  cases entries : (book.resting flow).entries with
  | nil => simp [Queue.isEmpty, entries] at held
  | cons entry behind =>
    exact ⟨entry.order.price, by simp [best?, Queue.first?, Queue.orders, entries]⟩

/-- The picture of a sound book publishes its best levels. -/
theorem Sound.publishes {book : Book} (sound : book.Sound) (flow : Flow) :
    book.picture.Publishes book flow ((levelsOf (book.resting flow).orders).take depthLevels) := by
  have aggregate := levels_of_aggregate (sound.resting flow).in_price_order
  have columns := Depth.zip_columns book.buys.depth book.sells.depth
  refine ⟨aggregate.shows_best, ?starts, ?rows, ?total⟩
  case starts =>
    rw [List.head?_take, if_neg (by decide)]
    exact aggregate.first
  case rows =>
    rw [← Depth.of_levels_padded]
    cases flow
    · exact columns.1
    · exact columns.2
  case total =>
    rw [← Depth.total_of_levels_eq]
    cases flow <;> rfl

/-- The picture of a sound book that is not crossed shows the book. -/
theorem Sound.shows {book : Book} (sound : book.Sound) (apart : book.Apart) :
    book.picture.Shows book where
  sides := fun flow => ⟨_, sound.publishes flow⟩
  apart := by
    intro buys sells
    obtain ⟨bid, bidBest⟩ := best_of_not_empty .buying buys
    obtain ⟨ask, askBest⟩ := best_of_not_empty .selling sells
    have below : bid < ask := apart.uncrossed bid bidBest ask askBest
    rw [← (sound.publishes .buying).first_row bidBest,
      ← (sound.publishes .selling).first_row askBest] at below
    exact below

/-- Whatever book a run reaches, its picture shows on each side the best prices of the orders
that rest, from the best of all on and each worse than the one before, with what all orders at
the price show, and nothing where there is no further price; the totals are the sums of what
is shown; and the best purchase is below the best sale. The record that the book hands out when
it is published is the same picture, and so is the one that the book keeps then. -/
theorem picture_shows_best_levels (first : Order) (operations : List Operation) :
    let book := ((ofFirst first).performAll operations).1
    book.picture.Shows book ∧ book.publish.1.Shows book ∧ book.publish.2.record.Shows book := by
  intro book
  have shows : book.picture.Shows book :=
    (run_sound first operations).shows (run_apart first operations)
  exact ⟨shows, shows, shows⟩

end Book

end Bourse
