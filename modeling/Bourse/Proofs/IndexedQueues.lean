import Bourse.Proofs.QueueIndices

/-!
# Two indices hold a queue

`Store.Holds` says that both indices of a store are those of an ordered queue. Orders are taken
out, put in and rewritten in one way each, and all operations are made of these, so that three
laws are enough to see that the store simulates the queue: `dropped`, `placed` and `rewritten`.
A new position is behind all arrivals, and an order that is queued again leaves its old one, so
that the index by price never loses or repeats an order.
-/

namespace Bourse

namespace Store

variable {direction : Direction}

/-- Both indices of a store are those of an ordered queue. -/
structure Holds (store : Store direction) (queue : Queue direction) : Prop where
  ordered : queue.Ordered
  positions : ∀ position id, store.byPrice[position]? = some id ↔
    ∃ entry ∈ queue.entries, entry.position = position ∧ entry.order.id = id
  slots : ∀ id slot, store.byId[id]? = some slot ↔
    ∃ entry ∈ queue.entries, entry.order.id = id ∧ entry.indexed = slot
  size : store.byId.size = queue.entries.length
  arrival : store.nextArrival = queue.nextArrival

/-- Empty indices hold the empty queue. -/
theorem holds_empty : (empty : Store direction).Holds .empty where
  ordered := Queue.ordered_empty
  positions := by simp [empty, Queue.empty]
  slots := by simp [empty, Queue.empty]
  size := by simp [empty, Queue.empty]
  arrival := rfl

namespace Holds

variable {store : Store direction} {queue : Queue direction} {entry : Queue.Entry}

/-- The index by price lists the entries in their order. -/
theorem listed (holds : store.Holds queue) :
    store.byPrice.toList = queue.entries.map fun entry => (entry.position, entry.order.id) := by
  let before (first second : (Int × Nat) × OrderId) : Prop :=
    comparePositions direction first.1 second.1 = .lt
  have distinct {list : List ((Int × Nat) × OrderId)} (sorted : list.Pairwise before) :
      list.Nodup := by
    refine List.Pairwise.imp (fun {first second} less => ?_) sorted
    rintro rfl
    exact Queue.position_irrefl _ less
  have indexed : store.byPrice.toList.Pairwise before := Std.TreeMap.ordered_keys_toList
  have queued : (queue.entries.map fun entry => (entry.position, entry.order.id)).Pairwise before :=
    List.pairwise_map.mpr (holds.ordered.sorted.imp (Queue.position_lt_iff ..).mpr)
  refine List.Perm.eq_of_pairwise ?_ indexed queued ?_
  · intro first second _ _ less greater
    exact absurd (Std.TransCmp.lt_trans less greater) (Queue.position_irrefl _)
  · refine (List.perm_ext_iff_of_nodup (distinct indexed) (distinct queued)).mpr ?_
    rintro ⟨position, id⟩
    rw [Std.TreeMap.mem_toList_iff_getElem?_eq_some, holds.positions]
    simp

/-- The index by identifier finds what the queue finds. -/
theorem get (holds : store.Holds queue) : store.get? = queue.get? := by
  funext id
  refine Option.ext fun order => ?_
  rw [get?, Option.map_eq_some_iff, holds.ordered.get_iff]
  constructor
  · rintro ⟨slot, found, rfl⟩
    obtain ⟨entry, member, named, rfl⟩ := (holds.slots id slot).mp found
    exact ⟨entry, member, named, rfl⟩
  · rintro ⟨entry, member, named, rfl⟩
    exact ⟨entry.indexed, (holds.slots ..).mpr ⟨entry, member, named, rfl⟩, rfl⟩

/-- The slot of an entry. -/
theorem slot (holds : store.Holds queue) (member : entry ∈ queue.entries) :
    store.byId[entry.order.id]? = some entry.indexed :=
  (holds.slots ..).mpr ⟨entry, member, rfl, rfl⟩

/-- An identifier without a slot is in no entry. -/
theorem absent (holds : store.Holds queue) {id : OrderId} (none : store.byId[id]? = none) :
    ∀ entry ∈ queue.entries, entry.order.id ≠ id := by
  rintro entry member rfl
  rw [holds.slot member] at none
  contradiction

/-- An identifier is in the index exactly if an entry holds its order. -/
theorem mem_iff (holds : store.Holds queue) (id : OrderId) :
    id ∈ store.byId ↔ ∃ entry ∈ queue.entries, entry.order.id = id := by
  rw [Std.HashMap.mem_iff_isSome_getElem?, Option.isSome_iff_exists]
  constructor
  · rintro ⟨slot, found⟩
    obtain ⟨entry, member, named, -⟩ := (holds.slots ..).mp found
    exact ⟨entry, member, named⟩
  · rintro ⟨entry, member, rfl⟩
    exact ⟨_, holds.slot member⟩

/-- What can be seen of a store is what can be seen of its queue. -/
theorem contents (holds : store.Holds queue) :
    (realization direction).contents store = (Queue.realization direction).contents queue := by
  have each : ∀ entry ∈ queue.entries, store.get? entry.order.id = some entry.order := by
    intro entry member
    rw [get?, holds.slot member]
    rfl
  have first : store.first? = queue.first? := by
    rw [first?, head?, holds.listed, Queue.first?, Queue.orders]
    cases entries : queue.entries with
    | nil => rfl
    | cons entry behind => exact each entry (entries ▸ List.mem_cons_self)
  have orders : store.orders = queue.orders := by
    rw [Store.orders, holds.listed, List.filterMap_map, Queue.orders, ← List.filterMap_eq_map]
    exact List.filterMap_congr each
  have empty : store.byId.isEmpty = queue.isEmpty := by
    rw [Std.HashMap.isEmpty_eq_size_eq_zero, holds.size, Queue.isEmpty]
    cases queue.entries <;> rfl
  simp only [realization, Queue.realization, holds.get, first, orders, holds.size, empty]
  rfl

/-- An order is taken out of both indices. -/
theorem dropped (holds : store.Holds queue) (member : entry ∈ queue.entries) :
    (store.dropped entry.order.id entry.indexed).Holds
      { queue with entries := Queue.without entry.order.id queue.entries } where
  ordered := holds.ordered.of_slots (List.filter_sublist.map _)
  positions := by
    intro position id
    simp only [Store.dropped, Std.TreeMap.getElem?_erase, Std.LawfulEqCmp.compare_eq_iff_eq]
    constructor
    · intro found
      split at found
      · contradiction
      case isFalse elsewhere =>
        obtain ⟨other, present, rfl, rfl⟩ := (holds.positions ..).mp found
        refine ⟨other, List.mem_filter.mpr ⟨present, ?_⟩, rfl, rfl⟩
        simp only [bne_iff_ne, ne_eq]
        intro same
        exact elsewhere (holds.ordered.same_entry present member same ▸ rfl)
    · rintro ⟨other, kept, rfl, rfl⟩
      obtain ⟨present, different⟩ := List.mem_filter.mp kept
      rw [if_neg, (holds.positions ..).mpr ⟨other, present, rfl, rfl⟩]
      intro same
      obtain rfl := holds.ordered.same_position member present same
      simp at different
  slots := by
    intro id slot
    simp only [Store.dropped, Std.HashMap.getElem?_erase, beq_iff_eq]
    constructor
    · intro found
      split at found
      · contradiction
      case isFalse different =>
        obtain ⟨other, present, rfl, rfl⟩ := (holds.slots ..).mp found
        exact ⟨other, List.mem_filter.mpr ⟨present, by simpa using Ne.symm different⟩, rfl, rfl⟩
    · rintro ⟨other, kept, rfl, rfl⟩
      obtain ⟨present, different⟩ := List.mem_filter.mp kept
      rw [if_neg (by simpa using Ne.symm (by simpa using different)), holds.slot present]
  size := by
    have found := (holds.ordered.get_iff ..).mpr ⟨entry, member, rfl, rfl⟩
    have perm := (holds.ordered.orders_perm found).length_eq
    simp only [Queue.orders, List.length_map, List.length_cons] at perm
    rw [Store.dropped, Std.HashMap.size_erase, if_pos ((holds.mem_iff _).mpr ⟨entry, member, rfl⟩),
      holds.size, perm, Nat.add_sub_cancel]
  arrival := holds.arrival

/-- An order that is new to both indices is put into them. -/
theorem placed (holds : store.Holds queue) (key : Int) {order : Order}
    (fresh : ∀ entry ∈ queue.entries, entry.order.id ≠ order.id) :
    (store.placed key order).Holds (queue.insert key order) where
  ordered := holds.ordered.insert key order
  positions := by
    intro position id
    simp only [Store.placed, Std.TreeMap.getElem?_insert, Std.LawfulEqCmp.compare_eq_iff_eq]
    constructor
    · intro found
      split at found
      case isTrue here =>
        obtain rfl := Option.some.inj found
        refine ⟨_, (Queue.mem_insert ..).mpr (.inl rfl), ?_, rfl⟩
        rw [← here, holds.arrival]
        rfl
      case isFalse =>
        obtain ⟨other, present, rfl, rfl⟩ := (holds.positions ..).mp found
        exact ⟨other, (Queue.mem_insert ..).mpr (.inr ⟨present, fresh other present⟩), rfl, rfl⟩
    · rintro ⟨other, present, rfl, rfl⟩
      rcases (Queue.mem_insert ..).mp present with rfl | ⟨before, -⟩
      · rw [if_pos]
        rw [holds.arrival]
        rfl
      · rw [if_neg, (holds.positions ..).mpr ⟨other, before, rfl, rfl⟩]
        intro same
        have early := holds.ordered.arrived other before
        have late : store.nextArrival = other.arrival := congrArg Prod.snd same
        have arrival := holds.arrival
        omega
  slots := by
    intro id slot
    simp only [Store.placed, Std.HashMap.getElem?_insert, beq_iff_eq]
    constructor
    · intro found
      split at found
      case isTrue here =>
        obtain rfl := Option.some.inj found
        refine ⟨_, (Queue.mem_insert ..).mpr (.inl rfl), here, ?_⟩
        rw [holds.arrival]
        rfl
      case isFalse =>
        obtain ⟨other, present, rfl, rfl⟩ := (holds.slots ..).mp found
        exact ⟨other, (Queue.mem_insert ..).mpr (.inr ⟨present, fresh other present⟩), rfl, rfl⟩
    · rintro ⟨other, present, rfl, rfl⟩
      rcases (Queue.mem_insert ..).mp present with rfl | ⟨before, -⟩
      · rw [if_pos rfl, holds.arrival]
        rfl
      · rw [if_neg (Ne.symm (fresh other before)), holds.slot before]
  size := by
    have unknown : ¬ order.id ∈ store.byId := by
      rintro known
      obtain ⟨other, present, same⟩ := (holds.mem_iff _).mp known
      exact fresh other present same
    have absent : order.id ∉ queue.orders.map (·.id) := by
      rw [Queue.orders, List.map_map]
      rintro member
      obtain ⟨other, present, same⟩ := List.mem_map.mp member
      exact fresh other present same
    have perm := (queue.orders_insert_perm key absent).length_eq
    simp only [Queue.orders, List.length_map, List.length_cons] at perm
    simp only [Store.placed, Std.HashMap.size_insert, if_neg unknown, holds.size, perm]
  arrival := by
    simp only [Store.placed, Queue.insert, holds.arrival]

/-- An order is rewritten in its slot. -/
theorem rewritten (holds : store.Holds queue) (order : Order) :
    (store.rewritten order.id order).Holds
      { queue with entries := Queue.withOrder order queue.entries } := by
  -- an entry after the change is one from before, with the order if it has its identifier
  let changed (entry : Queue.Entry) : Queue.Entry :=
    if entry.order.id == order.id then { entry with order } else entry
  have id (entry : Queue.Entry) : (changed entry).order.id = entry.order.id := by
    by_cases same : (entry.order.id == order.id) = true
    · simp only [changed, if_pos same]
      exact (eq_of_beq same).symm
    · simp only [changed, if_neg same]
  have position (entry : Queue.Entry) : (changed entry).position = entry.position := by
    by_cases same : (entry.order.id == order.id) = true
    · simp only [changed, if_pos same]
      rfl
    · simp only [changed, if_neg same]
  have mem (entry : Queue.Entry) : entry ∈ Queue.withOrder order queue.entries ↔
      ∃ old ∈ queue.entries, changed old = entry := List.mem_map
  refine ⟨holds.ordered.amended order, ?_, ?_, ?_, holds.arrival⟩
  · intro position' id'
    simp only [Store.rewritten, holds.positions, mem, exists_exists_and_eq_and, id, position]
  · intro id' slot
    simp only [Store.rewritten, Std.HashMap.getElem?_modify, mem, exists_exists_and_eq_and, id]
    by_cases own : order.id = id'
    · subst own
      have here {old : Queue.Entry} (named : old.order.id = order.id) :
          (changed old).indexed = { old.indexed with order } := by
        simp only [changed, named, beq_self_eq_true, if_true]
        rfl
      rw [if_pos (beq_self_eq_true _), Option.map_eq_some_iff]
      constructor
      · rintro ⟨before, found, rfl⟩
        obtain ⟨old, member, named, rfl⟩ := (holds.slots ..).mp found
        exact ⟨old, member, named, here named⟩
      · rintro ⟨old, member, named, rfl⟩
        exact ⟨old.indexed, named ▸ holds.slot member, (here named).symm⟩
    · have elsewhere {old : Queue.Entry} (named : old.order.id = id') : changed old = old := by
        simp only [changed, named, beq_iff_eq, if_neg (Ne.symm own)]
      rw [if_neg (by simpa using own), holds.slots]
      constructor
      · rintro ⟨old, member, named, rfl⟩
        exact ⟨old, member, named, congrArg Queue.Entry.indexed (elsewhere named)⟩
      · rintro ⟨old, member, named, rfl⟩
        exact ⟨old, member, named, congrArg Queue.Entry.indexed (elsewhere named).symm⟩
  · rw [Store.rewritten, Std.HashMap.size_modify, holds.size, Queue.withOrder, List.length_map]

/-- An order is queued in both indices. -/
theorem insert (holds : store.Holds queue) (key : Int) (order : Order) :
    (store.insert key order).Holds (queue.insert key order) := by
  unfold Store.insert
  cases found : store.byId[order.id]? with
  | none => exact holds.placed key (holds.absent found)
  | some slot =>
    obtain ⟨entry, member, named, rfl⟩ := (holds.slots ..).mp found
    have others := holds.dropped member
    rw [named] at others
    have placed := others.placed key fun other kept => by
      simpa using (List.mem_filter.mp kept).2
    rwa [Queue.insert_after_without] at placed

/-- An order is taken out of both, or is in neither of them. -/
theorem erase (holds : store.Holds queue) (id : OrderId) :
    store.erase id = (.error (.unknownOrder id)) ∧ queue.get? id = none ∨
      ∃ entry ∈ queue.entries, entry.order.id = id ∧ queue.get? id = some entry.order ∧
        store.erase id = .ok (entry.order, store.dropped id entry.indexed) := by
  unfold Store.erase
  rw [← holds.get, get?]
  cases found : store.byId[id]? with
  | none => exact .inl ⟨rfl, rfl⟩
  | some slot =>
    obtain ⟨entry, member, named, rfl⟩ := (holds.slots ..).mp found
    exact .inr ⟨entry, member, named, rfl, rfl⟩

/-- The first entry of the index by price is that of the first order. -/
theorem first_entry (holds : store.Holds queue) :
    store.head? =
      queue.entries.head?.map fun entry => (entry.position, entry.order.id) := by
  rw [head?, holds.listed, List.head?_map]

/-- The first order is taken out of both indices. -/
theorem pop_first (holds : store.Holds queue) {behind : List Queue.Entry}
    (first : queue.entries = entry :: behind) :
    store.popFirst = (some entry.order, store.dropped entry.order.id entry.indexed) ∧
      (store.dropped entry.order.id entry.indexed).Holds { queue with entries := behind } := by
  have member : entry ∈ queue.entries := first ▸ List.mem_cons_self
  have dropped := holds.dropped member
  rw [holds.ordered.without_first first] at dropped
  refine ⟨?_, dropped⟩
  simp only [popFirst, holds.first_entry, first, List.head?_cons, Option.map_some, get?,
    holds.slot member]
  rfl

/-- The first order is filled in its slot, and leaves both indices once it shows nothing more. -/
theorem fill_first (holds : store.Holds queue) {behind : List Queue.Entry}
    (first : queue.entries = entry :: behind) (price quantity : Int) :
    (store.fillFirst price quantity).1 = some (entry.order.fill price quantity) ∧
      (store.fillFirst price quantity).2.Holds
        { queue with entries := Queue.filledFirst entry behind price quantity } := by
  have member : entry ∈ queue.entries := first ▸ List.mem_cons_self
  let filled := entry.order.fill price quantity
  let next := store.rewritten entry.order.id filled
  let after : Queue.Entry := { entry with order := filled }
  have changed : next.Holds { queue with entries := after :: behind } := by
    have rewritten := holds.rewritten filled
    have front := holds.ordered.with_order_first first (rfl : filled.id = entry.order.id)
    rwa [front] at rewritten
  have found : next.byId[entry.order.id]? = some after.indexed := changed.slot List.mem_cons_self
  have erased : (store.rewritten entry.order.id (entry.indexed.order.fill price quantity)).erase
      entry.order.id = .ok (filled, next.dropped entry.order.id after.indexed) := by
    change next.erase entry.order.id = _
    rw [Store.erase, found]
    rfl
  have filledOnce : store.fillFirst price quantity =
      if filled.pending = 0 then (some filled, next.dropped entry.order.id after.indexed)
      else (some filled, next) := by
    simp only [fillFirst, holds.first_entry, first, List.head?_cons, Option.map_some,
      holds.slot member]
    by_cases gone : filled.pending = 0
    · rw [if_pos gone]
      refine (if_pos gone).trans ?_
      rw [erased]
    · rw [if_neg gone]
      exact if_neg gone
  rw [filledOnce, Queue.filledFirst]
  by_cases gone : filled.pending = 0
  · have dropped := changed.dropped (List.mem_cons_self : after ∈ after :: behind)
    rw [changed.ordered.without_first rfl] at dropped
    rw [if_pos gone, if_pos gone]
    exact ⟨rfl, dropped⟩
  · rw [if_neg gone, if_neg gone]
    exact ⟨rfl, changed⟩

/-- Whatever is done to a queue is done to both indices, with the same answer. -/
theorem act (holds : store.Holds queue) (action : Queue.Action) :
    (store.act action).2 = (queue.act action).2 ∧
      (store.act action).1.Holds (queue.act action).1 := by
  cases action with
  | insert key order => exact ⟨rfl, holds.insert key order⟩
  | cancel image =>
    simp only [Store.act, Queue.act, Store.cancel, Queue.cancel, Queue.erase]
    rcases holds.erase image.id with ⟨unknown, absent⟩ | ⟨entry, member, named, found, erased⟩
    · rw [unknown, absent]
      exact ⟨rfl, holds⟩
    · rw [erased, found, ← named]
      exact ⟨rfl, holds.dropped member⟩
  | erase id =>
    simp only [Store.act, Queue.act, Queue.erase]
    rcases holds.erase id with ⟨unknown, absent⟩ | ⟨entry, member, named, found, erased⟩
    · rw [unknown, absent]
      exact ⟨rfl, holds⟩
    · rw [erased, found, ← named]
      exact ⟨rfl, holds.dropped member⟩
  | replace image =>
    simp only [Store.act, Queue.act, Store.replace, Queue.replace]
    rw [← holds.get, get?]
    cases found : store.byId[image.id]? with
    | none => exact ⟨rfl, holds⟩
    | some slot =>
      dsimp only [Option.map_some]
      cases replaced : slot.order.replace image with
      | none => exact ⟨rfl, holds⟩
      | some result =>
        obtain ⟨entry, member, named, rfl⟩ := (holds.slots ..).mp found
        have same : result.1.id = image.id := by
          rw [← named]
          unfold Order.replace at replaced
          split at replaced
          · contradiction
          · obtain rfl := Option.some.inj replaced
            rfl
        exact ⟨rfl, same ▸ holds.rewritten result.1⟩
  | fill price quantity =>
    simp only [Store.act, Queue.act]
    cases entries : queue.entries with
    | nil =>
      have none : store.head? = none := by rw [holds.first_entry, entries]; rfl
      rw [Store.fillFirst, none, Queue.fillFirst?, entries]
      exact ⟨rfl, holds⟩
    | cons entry behind =>
      obtain ⟨answer, next⟩ := holds.fill_first entries price quantity
      rw [Queue.fill_first_eq queue entries]
      exact ⟨congrArg _ answer, next⟩
  | popFirst =>
    simp only [Store.act, Queue.act, Queue.popFirst?]
    cases entries : queue.entries with
    | nil =>
      have none : store.head? = none := by rw [holds.first_entry, entries]; rfl
      rw [Store.popFirst, none]
      exact ⟨rfl, holds⟩
    | cons entry behind =>
      obtain ⟨popped, rest⟩ := holds.pop_first entries
      rw [popped]
      exact ⟨rfl, rest⟩

end Holds

/-- The two indices of a store agree: they have the same identifiers, and each of them stands in
one position, which is the one that its slot has. -/
structure Agree (store : Store direction) : Prop where
  identifiers : ∀ id, id ∈ store.byId ↔ id ∈ store.byPrice.toList.map (·.2)
  once : (store.byPrice.toList.map (·.2)).Nodup
  positions : ∀ position id, store.byPrice[position]? = some id ↔
    ∃ slot : Slot, store.byId[id]? = some slot ∧ slot.position = position

/-- Indices of one ordered queue agree. -/
theorem Holds.agree {store : Store direction} {queue : Queue direction}
    (holds : store.Holds queue) : store.Agree := by
  have ids : store.byPrice.toList.map (·.2) = queue.entries.map (·.order.id) := by
    rw [holds.listed, List.map_map]
    rfl
  refine ⟨fun id => ?_, ids ▸ holds.ordered.distinct, fun position id => ?_⟩
  · rw [ids, holds.mem_iff, List.mem_map]
  · rw [holds.positions]
    constructor
    · rintro ⟨entry, member, rfl, rfl⟩
      exact ⟨_, holds.slot member, rfl⟩
    · rintro ⟨slot, found, rfl⟩
      obtain ⟨entry, member, named, rfl⟩ := (holds.slots ..).mp found
      exact ⟨entry, member, rfl, named⟩

/-- A queue in two indices is a queue. -/
theorem store_simulates (direction : Direction) :
    Queue.Realization.Simulates (realization direction) (Queue.realization direction) Holds where
  start := holds_empty
  contents := Holds.contents
  answers := fun holds action => (holds.act action).1
  kept := fun holds action => (holds.act action).2

/-- Whatever is done to a queue, in whatever order and under whatever prices, the queue in two
indices, the queue of a book and the plain line give the same answers and show the same orders
after each step. The line stands by price, and the two indices agree on identifiers and
positions. -/
theorem indices_refine_lines (direction : Direction) (actions : List Queue.Action) :
    (realization direction).observed actions = (Line.realization direction).observed actions ∧
      (Queue.realization direction).observed actions =
        (Line.realization direction).observed actions ∧
      ((Line.realization direction).after actions).Pairwise
        (fun first later => ¬ direction.better later.1 first.1 = true) ∧
      ((realization direction).after actions).Agree := by
  have stored := store_simulates direction
  have lined := Queue.simulates_line direction
  refine ⟨(stored.observed actions).trans (lined.observed actions), lined.observed actions, ?_,
    (stored.after actions).agree⟩
  obtain ⟨ordered, same⟩ := lined.after actions
  rw [same]
  refine List.pairwise_map.mpr (ordered.sorted.imp fun {first later} ahead worse => ?_)
  change direction.better later.key first.key = true at worse
  rcases (Queue.Entry.ahead_iff ..).mp ahead with better | ⟨equal, -⟩
  · exact direction.better_asymm better worse
  · rw [equal] at worse
    exact direction.better_asymm worse worse

end Store

end Bourse
