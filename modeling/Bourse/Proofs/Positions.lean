import Bourse.Queue.Basic
import Mathlib.Data.List.Nodup

/-!
# Positions in a queue

A queue that is only changed by its operations holds its entries in the order of their
positions, and no identifier twice. Most changes keep some of the positions and change
only what stands in them, so they are judged by their slots: the position and the
identifier of every entry, in their order. A queue whose slots are some of those of an
ordered queue is ordered.

`Queue.Keeps` adds what a book makes of its queues: every order is queued under the key
that it has itself, and satisfies a law.
-/

namespace Bourse

namespace Direction

/-- Of two different prices one is better. -/
theorem better_total (direction : Direction) (first second : Int) :
    direction.better first second = true ∨ first = second ∨
      direction.better second first = true := by
  cases direction <;> simp only [better, decide_eq_true_eq] <;> omega

/-- What is better than the better is better. -/
theorem better_trans (direction : Direction) {first second third : Int}
    (left : direction.better first second = true) (right : direction.better second third = true) :
    direction.better first third = true := by
  cases direction <;> simp only [better, decide_eq_true_eq] at left right ⊢ <;> omega

end Direction

namespace Queue

variable {direction : Direction}

namespace Entry

/-- An entry is ahead of another at a better price, or at the same price if it arrived
earlier. -/
theorem ahead_iff (first second : Entry) :
    first.ahead direction second = true ↔
      direction.better first.key second.key = true ∨
        first.key = second.key ∧ first.arrival < second.arrival := by
  simp [ahead]

/-- Of two entries that arrived at different times one is ahead. -/
theorem ahead_total (first second : Entry) (apart : first.arrival ≠ second.arrival)
    (behind : ¬ first.ahead direction second = true) : second.ahead direction first = true := by
  rw [ahead_iff] at behind ⊢
  rcases direction.better_total first.key second.key with better | same | better
  · exact absurd (Or.inl better) behind
  · refine .inr ⟨same.symm, ?_⟩
    by_contra later
    exact behind (.inr ⟨same, by omega⟩)
  · exact .inl better

/-- What is ahead of what is ahead is ahead. -/
theorem ahead_trans {first second third : Entry} (left : first.ahead direction second = true)
    (right : second.ahead direction third = true) : first.ahead direction third = true := by
  rw [ahead_iff] at *
  rcases left with left | ⟨same, earlier⟩
  · rcases right with right | ⟨same, -⟩
    · exact .inl (direction.better_trans left right)
    · exact .inl (same ▸ left)
  · rcases right with right | ⟨same', later⟩
    · exact .inl (same ▸ right)
    · exact .inr ⟨same.trans same', Nat.lt_trans earlier later⟩

/-- Where an entry stands, and whose order it holds. -/
def slot (entry : Entry) : Int × Nat × OrderId := (entry.key, entry.arrival, entry.order.id)

end Entry

/-- An entry is placed among the others and changes none of them. -/
theorem place_perm (entry : Entry) (entries : List Entry) :
    (place direction entry entries).Perm (entry :: entries) := by
  induction entries with
  | nil => exact .refl _
  | cons other rest induction =>
    unfold place
    split
    · exact .refl _
    · exact (induction.cons other).trans (.swap entry other rest)

/-- An entry that arrives after all others is placed in order. -/
theorem place_sorted (entry : Entry) (entries : List Entry)
    (sorted : entries.Pairwise fun first second => first.ahead direction second = true)
    (last : ∀ other ∈ entries, other.arrival < entry.arrival) :
    (place direction entry entries).Pairwise
      fun first second => first.ahead direction second = true := by
  induction entries with
  | nil => exact List.pairwise_singleton _ _
  | cons other rest induction =>
    have ⟨others, restSorted⟩ := List.pairwise_cons.mp sorted
    unfold place
    split
    case isTrue ahead =>
      refine List.pairwise_cons.mpr ⟨?_, sorted⟩
      intro later member
      rcases List.mem_cons.mp member with rfl | member
      · exact ahead
      · exact Entry.ahead_trans ahead (others later member)
    case isFalse behind =>
      have earlier := last other List.mem_cons_self
      refine List.pairwise_cons.mpr ⟨?_, induction restSorted fun later member =>
        last later (List.mem_cons_of_mem _ member)⟩
      intro later member
      rcases List.mem_cons.mp ((place_perm entry rest).mem_iff.mp member) with rfl | member
      · exact Entry.ahead_total _ _ (by omega) behind
      · exact others later member

/-- The entries with another one behind all those that are no worse. -/
def joined (direction : Direction) (entry : Entry) (entries : List Entry) : List Entry :=
  entries.filter (fun other => !direction.better entry.key other.key) ++
    entry :: entries.filter (fun other => direction.better entry.key other.key)

/-- An entry that arrives after all others is placed behind all those that are no worse. -/
theorem place_eq_joined (entry : Entry) (entries : List Entry)
    (sorted : entries.Pairwise fun first second => first.ahead direction second = true)
    (last : ∀ other ∈ entries, other.arrival < entry.arrival) :
    place direction entry entries = joined direction entry entries := by
  induction entries with
  | nil => rfl
  | cons other rest induction =>
    obtain ⟨others, restSorted⟩ := List.pairwise_cons.mp sorted
    have earlier := last other List.mem_cons_self
    unfold place
    split
    case isTrue ahead =>
      have better : direction.better entry.key other.key = true :=
        ((Entry.ahead_iff ..).mp ahead).resolve_right (by omega)
      have worse : ∀ later ∈ other :: rest, direction.better entry.key later.key = true := by
        refine List.forall_mem_cons.mpr ⟨better, fun later member => ?_⟩
        rcases (Entry.ahead_iff ..).mp (others later member) with behind | ⟨same, -⟩
        · exact direction.better_trans better behind
        · exact same ▸ better
      rw [joined, List.filter_eq_self.mpr worse, List.filter_eq_nil_iff.mpr, List.nil_append]
      intro later member
      simp [worse later member]
    case isFalse behind =>
      have unbeaten : ¬ direction.better entry.key other.key = true := fun better =>
        behind ((Entry.ahead_iff ..).mpr (.inl better))
      rw [induction restSorted fun later member => last later (List.mem_cons_of_mem _ member),
        joined, joined, List.filter_cons_of_pos (by simpa using unbeaten),
        List.filter_cons_of_neg (by simpa using unbeaten), List.cons_append]

/-- The entries of a queue stand in the order of their positions, arrived before the
next arrival, and hold no identifier twice. -/
structure Ordered (queue : Queue direction) : Prop where
  sorted : queue.entries.Pairwise fun first second => first.ahead direction second = true
  arrived : ∀ entry ∈ queue.entries, entry.arrival < queue.nextArrival
  distinct : (queue.entries.map (·.order.id)).Nodup

/-- The empty queue is in order. -/
theorem ordered_empty : (empty : Queue direction).Ordered where
  sorted := List.Pairwise.nil
  arrived := by simp [empty]
  distinct := List.nodup_nil

/-- A queue with some of the slots of an ordered queue, in their order, is ordered. -/
theorem Ordered.of_slots {queue : Queue direction} (ordered : queue.Ordered)
    {entries : List Entry}
    (kept : (entries.map Entry.slot).Sublist (queue.entries.map Entry.slot)) :
    ({ queue with entries := entries } : Queue direction).Ordered where
  sorted := by
    have slots : (queue.entries.map Entry.slot).Pairwise fun first second =>
        (direction.better first.1 second.1 ||
          (first.1 == second.1 && decide (first.2.1 < second.2.1))) = true :=
      List.pairwise_map.mpr ordered.sorted
    exact List.pairwise_map.mp (slots.sublist kept)
  arrived := by
    intro entry member
    have slot := kept.subset (List.mem_map_of_mem member)
    obtain ⟨old, present, same⟩ := List.mem_map.mp slot
    have arrival : old.arrival = entry.arrival := congrArg (·.2.1) same
    exact arrival ▸ ordered.arrived old present
  distinct := by
    have ids (entries : List Entry) :
        entries.map (·.order.id) = (entries.map Entry.slot).map (·.2.2) := by
      rw [List.map_map]
      rfl
    have distinct := ordered.distinct
    rw [ids] at distinct
    simpa only [ids] using distinct.sublist (kept.map _)

/-- The entry of an order that is queued, and every entry of another order. -/
theorem mem_insert (queue : Queue direction) (key : Int) (order : Order) (entry : Entry) :
    entry ∈ (queue.insert key order).entries ↔
      entry = ⟨key, queue.nextArrival, order⟩ ∨
        entry ∈ queue.entries ∧ entry.order.id ≠ order.id := by
  simp [insert, (place_perm _ _).mem_iff, without]

/-- It makes no difference whether an order was taken out before it is queued again. -/
theorem insert_after_without (queue : Queue direction) (key : Int) (order : Order) :
    ({ queue with entries := without order.id queue.entries } : Queue direction).insert key order =
      queue.insert key order := by
  simp only [insert, without, List.filter_filter, Bool.and_self]

/-- An order is queued behind everything at its price, and in the place of an order with
its identifier. -/
theorem Ordered.insert {queue : Queue direction} (ordered : queue.Ordered) (key : Int)
    (order : Order) : (queue.insert key order).Ordered where
  sorted := by
    refine place_sorted _ _ (ordered.sorted.sublist List.filter_sublist) ?_
    intro other member
    exact ordered.arrived other (List.mem_of_mem_filter member)
  arrived := by
    intro entry member
    rcases (mem_insert queue key order entry).mp member with rfl | ⟨present, -⟩
    · exact Nat.lt_succ_self _
    · exact Nat.lt_succ_of_lt (ordered.arrived entry present)
  distinct := by
    refine (((place_perm _ _).map _).nodup_iff).mpr (List.nodup_cons.mpr ⟨?_, ?_⟩)
    · intro member
      obtain ⟨other, kept, same⟩ := List.mem_map.mp member
      simp [without, same] at kept
    · exact ordered.distinct.sublist (List.filter_sublist.map _)

/-- In an ordered queue, an order is queued behind all others that are no worse. -/
theorem Ordered.insert_entries {queue : Queue direction} (ordered : queue.Ordered) (key : Int)
    (order : Order) : (queue.insert key order).entries =
      joined direction ⟨key, queue.nextArrival, order⟩ (without order.id queue.entries) :=
  place_eq_joined _ _ (ordered.sorted.sublist List.filter_sublist) fun other member =>
    ordered.arrived other (List.mem_of_mem_filter member)

/-- In an ordered queue the entry of an identifier is found by it. -/
theorem Ordered.get {queue : Queue direction} (ordered : queue.Ordered) {id : OrderId}
    {order : Order} (found : queue.get? id = some order) :
    order.id = id ∧ (∃ entry ∈ queue.entries, entry.order = order) ∧
      ∀ entry ∈ queue.entries, entry.order.id = id → entry.order = order := by
  have named : order.id = id := by simpa using List.find?_some found
  obtain ⟨entry, present, rfl⟩ := List.mem_map.mp (List.mem_of_find?_eq_some found)
  refine ⟨named, ⟨entry, present, rfl⟩, ?_⟩
  intro other member same
  have unique := List.inj_on_of_nodup_map ordered.distinct member present (same.trans named.symm)
  rw [unique]

/-- An order that takes the place of the one with its identifier changes no slot. -/
theorem slots_with_order (order : Order) (entries : List Entry) :
    (withOrder order entries).map Entry.slot = entries.map Entry.slot := by
  rw [withOrder, List.map_map]
  apply List.map_congr_left
  intro entry _
  by_cases same : (entry.order.id == order.id) = true
  · have named : entry.order.id = order.id := eq_of_beq same
    simp only [Function.comp_apply, if_pos same]
    simp only [Entry.slot, named]
  · simp only [Function.comp_apply, if_neg same]

section Changed

variable {other : Direction} (change : Entry → Entry)

/-- An entry takes the same place among changed entries if the change tells no two of them
apart differently. -/
theorem place_map
    (ahead : ∀ first second : Entry,
      (change first).ahead other (change second) = first.ahead direction second)
    (entry : Entry) (entries : List Entry) :
    place other (change entry) (entries.map change) =
      (place direction entry entries).map change := by
  induction entries with
  | nil => rfl
  | cons first rest induction =>
    simp only [List.map_cons, place, ahead, induction]
    split <;> rfl

/-- The same order is taken out of changed entries if the change keeps the identifiers. -/
theorem without_map (ids : ∀ entry, (change entry).order.id = entry.order.id) (id : OrderId)
    (entries : List Entry) :
    without id (entries.map change) = (without id entries).map change := by
  have same : (fun entry : Entry => entry.order.id != id) ∘ change =
      fun entry : Entry => entry.order.id != id := by
    funext entry
    simp only [Function.comp_apply, ids]
  rw [without, List.filter_map, same, without]

/-- A changed order takes the place of the same one. -/
theorem with_order_map (order image : Order)
    (ids : ∀ entry, (change entry).order.id = entry.order.id) (named : image.id = order.id)
    (placed : ∀ entry, change { entry with order } = { change entry with order := image })
    (entries : List Entry) :
    withOrder image (entries.map change) = (withOrder order entries).map change := by
  rw [withOrder, withOrder, List.map_map, List.map_map]
  apply List.map_congr_left
  intro entry _
  by_cases same : (entry.order.id == order.id) = true
  · have there : ((change entry).order.id == image.id) = true := by rwa [ids, named]
    simp only [Function.comp_apply, if_pos same, if_pos there, placed]
  · have elsewhere : ¬ ((change entry).order.id == image.id) = true := by rwa [ids, named]
    simp only [Function.comp_apply, if_neg same, if_neg elsewhere]

end Changed

/-- What is left of the entries of a queue when the first of them is filled: it leaves
once it has nothing more to show. -/
def filledFirst (maker : Entry) (behind : List Entry) (price quantity : Int) : List Entry :=
  if (maker.order.fill price quantity).pending = 0 then behind
  else { maker with order := maker.order.fill price quantity } :: behind

/-- The first order is filled where it stands. -/
theorem fill_first_eq (queue : Queue direction) {maker : Entry} {behind : List Entry}
    (first : queue.entries = maker :: behind) (price quantity : Int) :
    queue.fillFirst? price quantity =
      some (maker.order.fill price quantity,
        { queue with entries := filledFirst maker behind price quantity }) := by
  simp only [fillFirst?, first, filledFirst]

/-- Every order is queued under its own key and satisfies a law. -/
structure Keeps (key : Order → Int) (law : Order → Prop) (queue : Queue direction) : Prop where
  ordered : queue.Ordered
  keyed : ∀ entry ∈ queue.entries, entry.key = key entry.order
  lawful : ∀ entry ∈ queue.entries, law entry.order

section Keeps

variable {key : Order → Int} {law : Order → Prop} {queue : Queue direction}

/-- Every order in the queue satisfies the law. -/
theorem Keeps.lawful_orders (keeps : queue.Keeps key law) : ∀ order ∈ queue.orders, law order := by
  rintro _ member
  obtain ⟨entry, present, rfl⟩ := List.mem_map.mp member
  exact keeps.lawful entry present

/-- The empty queue keeps any law. -/
theorem keeps_empty : (empty : Queue direction).Keeps key law where
  ordered := ordered_empty
  keyed := by simp [empty]
  lawful := by simp [empty]

/-- A queue keeps a law with an order that obeys it. -/
theorem Keeps.insert (keeps : queue.Keeps key law) {order : Order} (lawful : law order) :
    (queue.insert (key order) order).Keeps key law where
  ordered := keeps.ordered.insert (key order) order
  keyed := by
    intro entry member
    rcases (mem_insert queue (key order) order entry).mp member with rfl | ⟨present, -⟩
    · rfl
    · exact keeps.keyed entry present
  lawful := by
    intro entry member
    rcases (mem_insert queue (key order) order entry).mp member with rfl | ⟨present, -⟩
    · exact lawful
    · exact keeps.lawful entry present

/-- Some of the entries, in their order. -/
theorem Keeps.sublist (keeps : queue.Keeps key law) {entries : List Entry}
    (kept : entries.Sublist queue.entries) :
    ({ queue with entries := entries } : Queue direction).Keeps key law where
  ordered := keeps.ordered.of_slots (kept.map _)
  keyed := fun entry member => keeps.keyed entry (kept.subset member)
  lawful := fun entry member => keeps.lawful entry (kept.subset member)

/-- Another order in the place of the one with its identifier. -/
theorem Keeps.with_order (keeps : queue.Keeps key law) {old order : Order}
    (found : queue.get? order.id = some old) (sameKey : key order = key old)
    (lawful : law order) :
    ({ queue with entries := withOrder order queue.entries } : Queue direction).Keeps key law := by
  obtain ⟨-, -, only⟩ := keeps.ordered.get found
  have each : ∀ entry ∈ withOrder order queue.entries,
      entry.key = key entry.order ∧ law entry.order := by
    intro entry member
    obtain ⟨before, present, rfl⟩ := List.mem_map.mp member
    by_cases same : (before.order.id == order.id) = true
    · have key := keeps.keyed before present
      rw [only before present (eq_of_beq same)] at key
      simp only [if_pos same]
      exact ⟨key.trans sameKey.symm, lawful⟩
    · simp only [if_neg same]
      exact ⟨keeps.keyed before present, keeps.lawful before present⟩
  have slots : ((withOrder order queue.entries).map Entry.slot).Sublist
      (queue.entries.map Entry.slot) := slots_with_order order queue.entries ▸ .refl _
  exact ⟨keeps.ordered.of_slots slots, fun entry member => (each entry member).1,
    fun entry member => (each entry member).2⟩

/-- The first order after a fill, unless it has nothing more to show. -/
theorem Keeps.filled_first (keeps : queue.Keeps key law) {maker : Entry} {behind : List Entry}
    (first : queue.entries = maker :: behind) {price quantity : Int}
    (sameKey : key (maker.order.fill price quantity) = key maker.order)
    (lawful : 0 < (maker.order.fill price quantity).pending →
      law (maker.order.fill price quantity))
    (shown : 0 ≤ (maker.order.fill price quantity).pending) :
    ({ queue with entries := filledFirst maker behind price quantity } :
      Queue direction).Keeps key law := by
  have others : ({ queue with entries := behind } : Queue direction).Keeps key law :=
    keeps.sublist (first ▸ List.sublist_cons_self maker behind)
  unfold filledFirst
  split
  case isTrue => exact others
  case isFalse left =>
    refine ⟨keeps.ordered.of_slots (by rw [first]; exact .refl _), ?_, ?_⟩
    · intro entry member
      rcases List.mem_cons.mp member with rfl | member
      · exact (keeps.keyed maker (first ▸ List.mem_cons_self)).trans sameKey.symm
      · exact others.keyed entry member
    · intro entry member
      rcases List.mem_cons.mp member with rfl | member
      · exact lawful (by omega)
      · exact others.lawful entry member

/-- The first entry has the best key of all, and arrived first among the entries with
that key. -/
theorem Keeps.first_best (keeps : queue.Keeps key law) {first : Entry} {behind : List Entry}
    (entries : queue.entries = first :: behind) (other : Entry) (member : other ∈ queue.entries) :
    other = first ∨ direction.better (key first.order) (key other.order) = true ∨
      key first.order = key other.order ∧ first.arrival < other.arrival := by
  have sorted := keeps.ordered.sorted
  have firstKey := keeps.keyed first (by simp [entries])
  have otherKey := keeps.keyed other member
  rw [entries] at sorted member
  rcases List.mem_cons.mp member with same | later
  · exact .inl same
  · have ahead := (List.pairwise_cons.mp sorted).1 other later
    rw [Entry.ahead_iff, firstKey, otherKey] at ahead
    exact .inr ahead

end Keeps

end Queue

end Bourse
