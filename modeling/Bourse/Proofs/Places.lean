import Bourse.Proofs.StopReleases

/-!
# Places in a queue

An order keeps its place in a queue as long as it keeps its slot: its key and its arrival. A
queue that goes on from another one gives no old arrival to anything new, since the number of
the next arrival only grows. From that alone it follows, for ordered queues, that orders which
keep their places keep their order as well, and that whatever is new stands behind everything
that stays at its price: `keeps_order`.

`Continues` is the relation between the two queues, and every change that a book makes of a
queue is an instance of it. `KeepsPlaces` says which orders keep their places; what excuses the
others is left open.
-/

namespace Bourse

/-- Of two prices only one is better. -/
theorem Direction.better_asymm (direction : Direction) {first second : Int}
    (better : direction.better first second = true) :
    ¬ direction.better second first = true := by
  cases direction <;> simp only [Direction.better, decide_eq_true_eq] at better ⊢ <;> omega

/-- Where one member of a list stands ahead of another by the relation that sorts the list, it
comes first in the list. -/
theorem pair_sublist_of_sorted {α : Type} {ahead : α → α → Prop} {list : List α}
    (sorted : list.Pairwise ahead)
    (asymm : ∀ {first second}, ahead first second → ¬ ahead second first) {first second : α}
    (member : first ∈ list) (present : second ∈ list) (before : ahead first second) :
    [first, second].Sublist list := by
  induction list with
  | nil => simp at member
  | cons head rest induction =>
    obtain ⟨others, restSorted⟩ := List.pairwise_cons.mp sorted
    rcases List.mem_cons.mp member with rfl | inside
    · rcases List.mem_cons.mp present with rfl | behind
      · exact absurd before (asymm before)
      · exact (List.singleton_sublist.mpr behind).cons_cons first
    · rcases List.mem_cons.mp present with rfl | behind
      · exact absurd (others first inside) (asymm before)
      · exact (induction restSorted inside behind).cons head

namespace Queue

variable {direction : Direction}

namespace Entry

/-- Of two entries only one is ahead. -/
theorem ahead_asymm {first second : Entry} (ahead : first.ahead direction second = true) :
    ¬ second.ahead direction first = true := by
  rw [ahead_iff] at ahead ⊢
  rcases ahead with better | ⟨same, earlier⟩
  · rintro (worse | ⟨same, -⟩)
    · exact direction.better_asymm better worse
    · exact direction.better_asymm better (same ▸ better)
  · rintro (better | ⟨-, later⟩)
    · exact direction.better_asymm better (same ▸ better)
    · omega

/-- Which of two entries is ahead is a matter of their slots. -/
theorem ahead_of_slots {first second other another : Entry} (same : first.slot = other.slot)
    (also : second.slot = another.slot) :
    first.ahead direction second = other.ahead direction another := by
  obtain ⟨key, arrival, -⟩ : _ ∧ _ ∧ _ := by simpa [slot] using same
  obtain ⟨key', arrival', -⟩ : _ ∧ _ ∧ _ := by simpa [slot] using also
  rw [ahead, ahead, key, arrival, key', arrival']

end Entry

/-- The slots of a queue, in the order of its entries. -/
def slots (queue : Queue direction) : List (Int × Nat × OrderId) := queue.entries.map Entry.slot

/-- Somewhere in a queue, an order stands ahead of another one. -/
def Precedes (queue : Queue direction) (first second : OrderId) : Prop :=
  [first, second].Sublist queue.ids

instance (queue : Queue direction) (first second : OrderId) :
    Decidable (queue.Precedes first second) :=
  inferInstanceAs (Decidable ([first, second].Sublist queue.ids))

/-- An order still stands where it stood in an earlier queue. -/
def Stays (queue next : Queue direction) (id : OrderId) : Prop :=
  ∃ slot ∈ queue.slots, slot ∈ next.slots ∧ slot.2.2 = id

section Order

variable {queue next last : Queue direction} {first second : OrderId} {key : Order → Int}

/-- The identifiers in a queue are those of its slots, in their order. -/
theorem ids_eq_slots (queue : Queue direction) : queue.ids = queue.slots.map (·.2.2) := by
  rw [slots, List.map_map]
  rfl

/-- The slot of an entry is in the queue with it. -/
theorem mem_slots {entry : Entry} (member : entry ∈ queue.entries) : entry.slot ∈ queue.slots :=
  List.mem_map_of_mem member

/-- In an ordered queue the first of two orders is ahead, by its key or else by its arrival. -/
theorem Ordered.precedes_iff (ordered : queue.Ordered) :
    queue.Precedes first second ↔
      ∃ earlier ∈ queue.entries, ∃ later ∈ queue.entries,
        earlier.ahead direction later = true ∧ earlier.order.id = first ∧
          later.order.id = second := by
  constructor
  · intro precedes
    obtain ⟨pair, inside, named⟩ := List.sublist_map_iff.mp precedes
    have two : pair.length = 2 := by simpa using (congrArg List.length named).symm
    obtain ⟨earlier, later, rfl⟩ := List.length_eq_two.mp two
    obtain ⟨rfl, rfl⟩ : first = earlier.order.id ∧ second = later.order.id := by
      simpa using named
    have ahead := List.pairwise_iff_forall_sublist.mp ordered.sorted inside
    exact ⟨earlier, inside.subset (by simp), later, inside.subset (by simp), ahead, rfl, rfl⟩
  · rintro ⟨earlier, member, later, present, ahead, rfl, rfl⟩
    have inside := pair_sublist_of_sorted ordered.sorted Entry.ahead_asymm member present ahead
    exact inside.map (·.order.id)

/-- In an ordered queue an order has one entry. -/
theorem Ordered.same_entry (ordered : queue.Ordered) {entry other : Entry}
    (member : entry ∈ queue.entries) (present : other ∈ queue.entries)
    (same : entry.order.id = other.order.id) : entry = other :=
  List.inj_on_of_nodup_map ordered.distinct member present same

/-- The entry that a staying order has in the later queue. -/
theorem Ordered.entry_of_stays (ordered : queue.Ordered) {entry : Entry}
    (member : entry ∈ queue.entries) (stays : Stays queue next entry.order.id) :
    ∃ still ∈ next.entries, still.slot = entry.slot := by
  obtain ⟨slot, before, after, named⟩ := stays
  obtain ⟨other, present, rfl⟩ := List.mem_map.mp before
  obtain ⟨still, there, same⟩ := List.mem_map.mp after
  obtain rfl := ordered.same_entry present member named
  exact ⟨still, there, same⟩

/-- A queue goes on from an earlier one: only what stood there has an arrival from before. -/
structure Continues (queue next : Queue direction) : Prop where
  later : queue.nextArrival ≤ next.nextArrival
  stood : ∀ entry ∈ next.entries, entry.arrival < queue.nextArrival → entry.slot ∈ queue.slots

namespace Continues

/-- A queue goes on from itself. -/
theorem refl (queue : Queue direction) : Continues queue queue where
  later := Nat.le_refl _
  stood := fun _ member _ => mem_slots member

/-- What goes on from a queue that goes on goes on from the first. -/
theorem trans (before : Continues queue next) (after : Continues next last) :
    Continues queue last where
  later := Nat.le_trans before.later after.later
  stood := by
    intro entry member early
    obtain ⟨between, present, same⟩ :=
      List.mem_map.mp (after.stood entry member (Nat.lt_of_lt_of_le early before.later))
    have arrival : between.arrival = entry.arrival := congrArg (·.2.1) same
    exact same ▸ before.stood between present (arrival ▸ early)

/-- No slot is added. -/
theorem of_slots {entries : List Entry}
    (kept : (entries.map Entry.slot).Sublist queue.slots) :
    Continues queue { queue with entries := entries } where
  later := Nat.le_refl _
  stood := fun _ member _ => kept.subset (List.mem_map_of_mem member)

/-- Some of the entries are left. -/
theorem of_sublist {entries : List Entry} (kept : entries.Sublist queue.entries) :
    Continues queue { queue with entries := entries } :=
  of_slots (kept.map _)

/-- What is queued has a new arrival. -/
theorem insert (queue : Queue direction) (price : Int) (order : Order) :
    Continues queue (queue.insert price order) where
  later := Nat.le_succ _
  stood := by
    intro entry member early
    rcases (mem_insert queue price order entry).mp member with rfl | ⟨present, -⟩
    · exact absurd early (Nat.lt_irrefl _)
    · exact mem_slots present

end Continues

/-- What a change of a queue makes of the order in it. -/
structure KeepsOrder (key : Order → Int) (queue next : Queue direction) : Prop where
  /-- Orders that keep their places keep their order. -/
  kept : ∀ {first second}, queue.Precedes first second →
    Stays queue next first → Stays queue next second → next.Precedes first second
  /-- What has a new place stands behind everything that stays at its price. -/
  behind : ∀ old ∈ queue.entries, ∀ new ∈ next.entries, key old.order = key new.order →
    Stays queue next old.order.id → ¬ Stays queue next new.order.id →
      next.Precedes old.order.id new.order.id

/-- Two ordered queues, the second of which goes on from the first. -/
theorem Continues.keeps_order {law : Order → Prop} (continues : Continues queue next)
    (before : queue.Keeps key law) (after : next.Keeps key law) : KeepsOrder key queue next where
  kept := by
    intro first second precedes stays also
    obtain ⟨earlier, member, later, present, ahead, rfl, rfl⟩ :=
      before.ordered.precedes_iff.mp precedes
    obtain ⟨still, there, same⟩ := before.ordered.entry_of_stays member stays
    obtain ⟨another, elsewhere, same'⟩ := before.ordered.entry_of_stays present also
    refine after.ordered.precedes_iff.mpr ⟨still, there, another, elsewhere, ?_, ?_, ?_⟩
    · rwa [Entry.ahead_of_slots same same']
    · exact congrArg (·.2.2) same
    · exact congrArg (·.2.2) same'
  behind := by
    intro old member new present sameKey stays moved
    obtain ⟨still, there, same⟩ := before.ordered.entry_of_stays member stays
    obtain ⟨key', arrival, id⟩ : still.key = old.key ∧ still.arrival = old.arrival ∧
        still.order.id = old.order.id := by simpa [Entry.slot] using same
    have early := before.ordered.arrived old member
    have late : queue.nextArrival ≤ new.arrival := by
      by_contra early
      exact moved ⟨new.slot, continues.stood new present (Nat.lt_of_not_le early),
        mem_slots present, rfl⟩
    refine after.ordered.precedes_iff.mpr ⟨still, there, new, present, ?_, id, rfl⟩
    refine (Entry.ahead_iff ..).mpr (.inr ⟨?_, by omega⟩)
    rw [key', before.keyed old member, after.keyed new present, sameKey]

end Order

/-- Every order of a queue stands in a later one where it stood, unless it is excused. -/
def KeepsPlaces (excused : OrderId → Prop) (queue next : Queue direction) : Prop :=
  ∀ entry ∈ queue.entries, entry.slot ∈ next.slots ∨ excused entry.order.id

namespace KeepsPlaces

variable {queue next last : Queue direction} {excused further : OrderId → Prop}

/-- A queue keeps its places. -/
theorem refl (queue : Queue direction) : KeepsPlaces excused queue queue :=
  fun _ member => .inl (mem_slots member)

/-- Places that are kept twice are kept. -/
theorem trans (before : KeepsPlaces excused queue next) (after : KeepsPlaces excused next last) :
    KeepsPlaces excused queue last := by
  intro entry member
  rcases before entry member with there | gone
  · obtain ⟨between, present, same⟩ := List.mem_map.mp there
    have id : between.order.id = entry.order.id := congrArg (·.2.2) same
    rw [← same, ← id]
    exact after between present
  · exact .inr gone

/-- More orders may be excused. -/
theorem mono (places : KeepsPlaces excused queue next) (more : ∀ id, excused id → further id) :
    KeepsPlaces further queue next :=
  fun entry member => (places entry member).imp_right (more _)

/-- Every slot is there as before. -/
theorem of_slots (same : next.slots = queue.slots) : KeepsPlaces excused queue next :=
  fun _ member => .inl (same ▸ mem_slots member)

/-- Only an excused order is taken out. -/
theorem without {id : OrderId} (gone : excused id) :
    KeepsPlaces excused queue { queue with entries := Queue.without id queue.entries } := by
  intro entry member
  by_cases named : entry.order.id = id
  · exact .inr (named ▸ gone)
  · have kept : entry ∈ Queue.without id queue.entries :=
      List.mem_filter.mpr ⟨member, by simpa using named⟩
    exact .inl (List.mem_map_of_mem kept)

/-- An order that was not there takes no place from another one. -/
theorem insert (key : Int) {order : Order} (absent : order.id ∉ queue.ids) :
    KeepsPlaces excused queue (queue.insert key order) := by
  intro entry member
  have other : entry.order.id ≠ order.id := by
    rintro same
    exact absent (same ▸ mem_ids member)
  exact .inl (mem_slots ((mem_insert queue key order entry).mpr (.inr ⟨member, other⟩)))

/-- An order that stands where it stood stays. -/
theorem stays (places : KeepsPlaces excused queue next) {id : OrderId} (member : id ∈ queue.ids)
    (bound : ¬ excused id) : Stays queue next id := by
  obtain ⟨entry, present, rfl⟩ := List.mem_map.mp member
  exact ⟨entry.slot, mem_slots present, (places entry present).resolve_right bound, rfl⟩

end KeepsPlaces

end Queue

end Bourse
