import Bourse.Proofs.TimePriority

/-!
# Queues as lines

What a queue does can be told without positions and arrivals. It is a line of orders, each with
the price that it is queued under. A new order joins the line behind all that are no worse, and
an order that is in the line already leaves its place for that; a replaced order is rewritten
where it stands; the first order is filled, and leaves as soon as it shows nothing more.

A realization of queues says what its states are, what it does and what can be seen of it. One
realization simulates another if a relation between their states holds at first, is kept by
every action, and lets neither the answers nor the contents tell the states apart; then whatever
is done, the same is observed of both: `Simulates.observed`. A queue simulates a line because it
is ordered, so that the place by arrival is the place behind all that are no worse.
-/

namespace Bourse

namespace Queue

/-- What may be done to a queue. -/
inductive Action where
  | insert (key : Int) (order : Order)
  | cancel (image : Order)
  | erase (id : OrderId)
  | replace (image : Order)
  | fill (price quantity : Int)
  | popFirst
  deriving DecidableEq, Repr

/-- What is answered to an action. -/
inductive Answer where
  /-- An order was queued. -/
  | queued
  /-- An order was taken out by its identifier, or there is none. -/
  | taken (result : Except Refusal Order)
  /-- An order was replaced, or is not replaced. -/
  | replaced (result : Except Refusal Order.Priority)
  /-- The first order was filled or taken out, if there is one. -/
  | first (result : Option Order)
  deriving DecidableEq, Repr

/-- What can be seen of the orders in a queue. -/
structure Contents where
  get : OrderId → Option Order
  first : Option Order
  orders : List Order
  size : Nat
  isEmpty : Bool

/-- A way to hold queued orders. -/
structure Realization where
  State : Type
  start : State
  act : State → Action → State × Answer
  contents : State → Contents

namespace Realization

/-- What is answered to actions in a row, and what is seen after each of them. -/
def observedFrom (realization : Realization) (state : realization.State) :
    List Action → List (Answer × Contents)
  | [] => []
  | action :: later =>
    let (next, answer) := realization.act state action
    (answer, realization.contents next) :: realization.observedFrom next later

/-- What is observed of actions in a row, from the beginning. -/
def observed (realization : Realization) (actions : List Action) : List (Answer × Contents) :=
  realization.observedFrom realization.start actions

/-- The state after actions in a row, from the beginning. -/
def after (realization : Realization) (actions : List Action) : realization.State :=
  actions.foldl (fun state action => (realization.act state action).1) realization.start

/-- Related states of two realizations look the same, and stay so whatever is done. -/
structure Simulates (first second : Realization) (related : first.State → second.State → Prop) :
    Prop where
  start : related first.start second.start
  contents : ∀ {state other}, related state other → first.contents state = second.contents other
  answers : ∀ {state other}, related state other →
    ∀ action, (first.act state action).2 = (second.act other action).2
  kept : ∀ {state other}, related state other →
    ∀ action, related (first.act state action).1 (second.act other action).1

namespace Simulates

variable {first second : Realization} {related : first.State → second.State → Prop}

/-- Two realizations that simulate each other cannot be told apart. -/
theorem observed (simulates : Simulates first second related) (actions : List Action) :
    first.observed actions = second.observed actions := by
  have each {state : first.State} {other : second.State} (same : related state other) :
      first.observedFrom state actions = second.observedFrom other actions := by
    induction actions generalizing state other with
    | nil => rfl
    | cons action later induction =>
      have next := simulates.kept same action
      simp only [observedFrom, simulates.answers same action, simulates.contents next,
        induction next]
  exact each simulates.start

/-- After the same actions two realizations are in related states. -/
theorem after (simulates : Simulates first second related) (actions : List Action) :
    related (first.after actions) (second.after actions) := by
  have each {state : first.State} {other : second.State} (same : related state other) :
      related (actions.foldl (fun state action => (first.act state action).1) state)
        (actions.foldl (fun other action => (second.act other action).1) other) := by
    induction actions generalizing state other with
    | nil => exact same
    | cons action later induction => exact induction (simulates.kept same action)
  exact each simulates.start

end Simulates

end Realization

/-- What is done to a queue, and its answer. -/
def act {direction : Direction} (queue : Queue direction) : Action → Queue direction × Answer
  | .insert key order => (queue.insert key order, .queued)
  | .cancel image =>
    match queue.cancel image with
    | .ok (order, rest) => (rest, .taken (.ok order))
    | .error refusal => (queue, .taken (.error refusal))
  | .erase id =>
    match queue.erase id with
    | .ok (order, rest) => (rest, .taken (.ok order))
    | .error refusal => (queue, .taken (.error refusal))
  | .replace image =>
    match queue.replace image with
    | .ok (_, next, priority) => (next, .replaced (.ok priority))
    | .error refusal => (queue, .replaced (.error refusal))
  | .fill price quantity =>
    match queue.fillFirst? price quantity with
    | some (order, next) => (next, .first (some order))
    | none => (queue, .first none)
  | .popFirst =>
    match queue.popFirst? with
    | some (order, rest) => (rest, .first (some order))
    | none => (queue, .first none)

/-- The queues of a book. -/
def realization (direction : Direction) : Realization where
  State := Queue direction
  start := empty
  act := act
  contents := fun queue => ⟨queue.get?, queue.first?, queue.orders, queue.size, queue.isEmpty⟩

end Queue

/-! Lines of orders, each with the price that it is queued under. -/

namespace Line

/-- The order with an identifier. -/
def get? (id : OrderId) (line : List (Int × Order)) : Option Order :=
  (line.map (·.2)).find? (·.id == id)

/-- The line without the order with an identifier. -/
def without (id : OrderId) (line : List (Int × Order)) : List (Int × Order) :=
  line.filter (·.2.id != id)

/-- The line with another order in the place of the one with its identifier. -/
def withOrder (order : Order) (line : List (Int × Order)) : List (Int × Order) :=
  line.map fun other => if other.2.id == order.id then (other.1, order) else other

/-- The line with another order behind all that are no worse. -/
def joined (direction : Direction) (key : Int) (order : Order) (line : List (Int × Order)) :
    List (Int × Order) :=
  line.filter (fun other => !direction.better key other.1) ++
    (key, order) :: line.filter (fun other => direction.better key other.1)

/-- What is done to a line, and its answer. -/
def act (direction : Direction) (line : List (Int × Order)) :
    Queue.Action → List (Int × Order) × Queue.Answer
  | .insert key order => (joined direction key order (without order.id line), .queued)
  | .cancel image =>
    match get? image.id line with
    | some order => (without image.id line, .taken (.ok (order.renamed image)))
    | none => (line, .taken (.error (.unknownOrder image.id)))
  | .erase id =>
    match get? id line with
    | some order => (without id line, .taken (.ok order))
    | none => (line, .taken (.error (.unknownOrder id)))
  | .replace image =>
    match get? image.id line with
    | none => (line, .replaced (.error (.unknownOrder image.id)))
    | some order =>
      match order.replace image with
      | none => (line, .replaced (.error .notAboveFilled))
      | some (replaced, priority) => (withOrder replaced line, .replaced (.ok priority))
  | .fill price quantity =>
    match line with
    | [] => ([], .first none)
    | (key, order) :: behind =>
      let filled := order.fill price quantity
      (if filled.pending = 0 then behind else (key, filled) :: behind, .first (some filled))
  | .popFirst =>
    match line with
    | [] => ([], .first none)
    | (_, order) :: behind => (behind, .first (some order))

/-- Lines as queues. -/
def realization (direction : Direction) : Queue.Realization where
  State := List (Int × Order)
  start := []
  act := act direction
  contents := fun line =>
    ⟨(get? · line), (line.map (·.2)).head?, line.map (·.2), line.length, line.isEmpty⟩

end Line

namespace Queue

variable {direction : Direction} {queue : Queue direction}

/-- Every action leaves an ordered queue. -/
theorem Ordered.act (ordered : queue.Ordered) (action : Action) : (queue.act action).1.Ordered := by
  have without (id : OrderId) :
      ({ queue with entries := without id queue.entries } : Queue direction).Ordered :=
    ordered.of_slots (List.filter_sublist.map _)
  cases action with
  | insert key order => exact ordered.insert key order
  | cancel image =>
    simp only [Queue.act, cancel, erase]
    cases queue.get? image.id with
    | none => exact ordered
    | some order => exact without image.id
  | erase id =>
    simp only [Queue.act, erase]
    cases queue.get? id with
    | none => exact ordered
    | some order => exact without id
  | replace image =>
    simp only [Queue.act, replace]
    cases queue.get? image.id with
    | none => exact ordered
    | some order =>
      dsimp only
      cases order.replace image with
      | none => exact ordered
      | some result => exact ordered.amended result.1
  | fill price quantity =>
    simp only [Queue.act]
    cases entries : queue.entries with
    | nil => simpa only [fillFirst?, entries] using ordered
    | cons maker behind =>
      rw [fill_first_eq queue entries]
      exact ordered.of_slots (entries ▸ slots_filled_first maker behind price quantity)
  | popFirst =>
    simp only [Queue.act, popFirst?]
    cases entries : queue.entries with
    | nil => exact ordered
    | cons entry behind =>
      exact ordered.of_slots (entries ▸ (List.sublist_cons_self entry behind).map _)

/-- An entry in a line. -/
def Entry.inLine (entry : Entry) : Int × Order := (entry.key, entry.order)

/-- The line of a queue. -/
def line (queue : Queue direction) : List (Int × Order) := queue.entries.map Entry.inLine

/-- The orders of a line are those of its entries. -/
theorem orders_of_line (entries : List Entry) :
    (entries.map Entry.inLine).map (·.2) = entries.map (·.order) := by
  rw [List.map_map]
  rfl

/-- An order is found in the line of a queue exactly as in the queue. -/
theorem line_get (queue : Queue direction) (id : OrderId) :
    Line.get? id queue.line = queue.get? id := by
  rw [Line.get?, line, orders_of_line, get?, orders]

/-- An order is taken out of a line as out of its entries. -/
theorem line_without (id : OrderId) (entries : List Entry) :
    Line.without id (entries.map Entry.inLine) = (without id entries).map Entry.inLine := by
  rw [Line.without, List.filter_map]
  rfl

/-- An order is rewritten in a line as in its entries. -/
theorem line_with_order (order : Order) (entries : List Entry) :
    Line.withOrder order (entries.map Entry.inLine) =
      (withOrder order entries).map Entry.inLine := by
  rw [Line.withOrder, withOrder, List.map_map, List.map_map]
  apply List.map_congr_left
  intro entry _
  rw [Function.comp_apply, Function.comp_apply]
  by_cases same : (entry.order.id == order.id) = true
  · rw [if_pos same]
    exact if_pos same
  · rw [if_neg same]
    exact if_neg same

/-- An order joins a line where it joins the entries. -/
theorem line_joined (entry : Entry) (entries : List Entry) :
    Line.joined direction entry.key entry.order (entries.map Entry.inLine) =
      (joined direction entry entries).map Entry.inLine := by
  rw [Line.joined, List.filter_map, List.filter_map, joined, List.map_append, List.map_cons]
  rfl

/-- What is done to an ordered queue is done to its line. -/
theorem Ordered.line_act (ordered : queue.Ordered) (action : Action) :
    Line.act direction queue.line action = ((queue.act action).1.line, (queue.act action).2) := by
  cases action with
  | insert key order =>
    have placed := ordered.insert_entries key order
    have others := line_without order.id queue.entries
    simp only [Line.act, Queue.act, line, placed, others, ← line_joined]
  | cancel image =>
    simp only [Line.act, Queue.act, line_get, cancel, erase]
    cases queue.get? image.id with
    | none => rfl
    | some order => exact congrArg (·, _) (line_without image.id queue.entries)
  | erase id =>
    simp only [Line.act, Queue.act, line_get, erase]
    cases queue.get? id with
    | none => rfl
    | some order => exact congrArg (·, _) (line_without id queue.entries)
  | replace image =>
    simp only [Line.act, Queue.act, line_get, replace]
    cases queue.get? image.id with
    | none => rfl
    | some order =>
      dsimp only
      cases order.replace image with
      | none => rfl
      | some result => exact congrArg (·, _) (line_with_order result.1 queue.entries)
  | fill price quantity =>
    cases entries : queue.entries with
    | nil => simp [Line.act, Queue.act, line, fillFirst?, entries]
    | cons maker behind =>
      simp only [Line.act, Queue.act, line, fill_first_eq queue entries, entries, List.map_cons,
        Entry.inLine, filledFirst]
      split <;> rfl
  | popFirst =>
    cases entries : queue.entries with
    | nil => simp [Line.act, Queue.act, line, popFirst?, entries]
    | cons entry behind => simp [Line.act, Queue.act, line, popFirst?, entries, Entry.inLine]

/-- A queue is a line, as long as it is ordered. -/
theorem simulates_line (direction : Direction) :
    Realization.Simulates (realization direction) (Line.realization direction)
      (fun queue line => queue.Ordered ∧ line = queue.line) where
  start := ⟨ordered_empty, rfl⟩
  contents := by
    rintro queue _ ⟨-, rfl⟩
    have found : (Line.get? · queue.line) = queue.get? := funext queue.line_get
    have orders : queue.line.map (·.2) = queue.orders := orders_of_line queue.entries
    simp only [realization, Line.realization, found, orders]
    simp [first?, size, isEmpty, line]
  answers := by
    rintro queue _ ⟨ordered, rfl⟩ action
    exact (congrArg Prod.snd (ordered.line_act action)).symm
  kept := by
    rintro queue _ ⟨ordered, rfl⟩ action
    exact ⟨ordered.act action, congrArg Prod.fst (ordered.line_act action)⟩

end Queue

end Bourse
