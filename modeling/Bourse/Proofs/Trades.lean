import Bourse.Proofs.Prices

/-!
# The trades of a run

A run of operations is taken apart into moments: the outset of each operation, each move
of the tasks that it leaves, and its mark. Joined again, the moments lead from the first
book to the last one and send every report of the run, in its order.

A moment is either tradeless, with no report on a fill, or it is one legal trade, with the
report on the maker's fill before that on the taker's and no other. The reports on fills
therefore stand in pairs wherever a trade happens, in the middle of an execution as well,
and what is said of the maker is said of the book at that moment.
-/

namespace Bourse

/-- Whether a report of a kind is on a fill. -/
def ReportKind.isFill : ReportKind → Bool
  | .partialFill => true
  | .fill => true
  | _ => false

namespace Report

/-- The last price of a report is no worse for its sender than the limit. -/
def WithinLimit (report : Report) : Prop :=
  match report.side.flow with
  | .buying => report.lastPrice ≤ report.price
  | .selling => report.price ≤ report.lastPrice

/-- A report is of the kind that it is made with. -/
@[simp] theorem kind_of (kind : ReportKind) (order : Order) (reason : String) :
    (of kind order reason).kind = kind := rfl

/-- A report on a fill is of one of the kinds of fills. -/
theorem is_fill_of_fill (order : Order) : (ofFill order).kind.isFill = true := by
  unfold ofFill
  split <;> rfl

end Report

/-- What a book was before and after something that happened to it, and the reports that
this sent. -/
structure Moment where
  before : Book
  after : Book
  reports : List Report
  deriving DecidableEq, Repr

namespace Moment

/-- Nothing is filled. -/
structure Tradeless (moment : Moment) : Prop where
  reports : ∀ report ∈ moment.reports, report.kind.isFill = false
  trades : moment.after.record.trades = moment.before.record.trades

/-- One trade between an order and an entry of a queue: the order is the one that the
book trades, and the entry is ahead of everything in its queue by price and then by
arrival. The trade is at the price of the entry's order, within the limits of both, and it
is the one trade that the record counts. -/
structure Trade (moment : Moment) (maker : Queue.Entry) (taker : Order)
    (ofMaker ofTaker : Report) : Prop where
  reports : moment.reports = [ofMaker, ofTaker]
  fills : ofMaker.kind.isFill = true ∧ ofTaker.kind.isFill = true
  opposite : ofTaker.side.flow = ofMaker.side.flow.contra
  samePrice : ofTaker.lastPrice = ofMaker.lastPrice
  sameQuantity : ofTaker.lastQuantity = ofMaker.lastQuantity
  positive : 0 < ofMaker.lastQuantity
  traded : moment.before.tradeOnce taker =
    some (taker.fill ofMaker.lastPrice ofMaker.lastQuantity, moment.after, moment.reports)
  filled : ofMaker = Report.ofFill (maker.order.fill ofMaker.lastPrice ofMaker.lastQuantity) ∧
    ofTaker = Report.ofFill (taker.fill ofMaker.lastPrice ofMaker.lastQuantity)
  present : maker ∈ (moment.before.resting ofMaker.side.flow).entries
  best : ∀ other ∈ (moment.before.resting ofMaker.side.flow).entries, other = maker ∨
    ofMaker.side.flow.restingDirection.better maker.order.price other.order.price = true ∨
    maker.order.price = other.order.price ∧ maker.arrival < other.arrival
  price : ofMaker.lastPrice = maker.order.price
  limits : ∀ report ∈ moment.reports, report.type.isLimited = true → report.WithinLimit
  recorded : moment.after.record =
    moment.before.record.trade ofMaker.lastPrice ofMaker.lastQuantity

/-- Either nothing is filled, or there is one trade. -/
def Legal (moment : Moment) : Prop :=
  moment.Tradeless ∨ ∃ maker taker ofMaker ofTaker, moment.Trade maker taker ofMaker ofTaker

/-- Moments in a row, each from the book that the one before it left, from a first book to a
last one. -/
def Joined : Book → List Moment → Book → Prop
  | first, [], last => last = first
  | first, moment :: later, last => moment.before = first ∧ Joined moment.after later last

/-- The reports of moments in a row. -/
def sent (moments : List Moment) : List Report := moments.flatMap (·.reports)

/-- Joined moments go on with joined moments. -/
theorem Joined.append {first next last : Book} {moments later : List Moment}
    (joined : Joined first moments next) (rest : Joined next later last) :
    Joined first (moments ++ later) last := by
  induction moments generalizing first with
  | nil => exact joined ▸ rest
  | cons moment moments induction => exact ⟨joined.1, induction joined.2⟩

/-- The reports of later moments stand behind those of the first. -/
theorem sent_append (moments later : List Moment) :
    sent (moments ++ later) = sent moments ++ sent later :=
  List.flatMap_append

/-- The reports of the first moment come before those of the later ones. -/
theorem sent_cons (moment : Moment) (later : List Moment) :
    sent (moment :: later) = moment.reports ++ sent later :=
  List.flatMap_cons

end Moment

namespace Book

/-- The moments of a run of tasks, with at most `fuel` steps. -/
def runMoments : (fuel : Nat) → Book → List Task → List Moment
  | 0, _, _ => []
  | fuel + 1, book, tasks =>
    match book.step tasks with
    | none => []
    | some (next, later, reports) => ⟨book, next, reports⟩ :: runMoments fuel next later

/-- The moments of an operation. -/
def momentsOf (book : Book) (operation : Operation) : List Moment :=
  let outset := book.outset operation
  ⟨book, outset.book, outset.reports⟩ ::
    (runMoments (outset.book.potential outset.tasks) outset.book outset.tasks ++
      [⟨(outset.book.work outset.tasks).1, outset.finish.1, []⟩])

/-- The moments of operations in a row. -/
def moments (book : Book) : List Operation → List Moment
  | [] => []
  | operation :: operations =>
    book.momentsOf operation ++ (book.perform operation).1.moments operations

/-- The moments of a run of tasks leave out nothing. -/
theorem run_moments_joined (fuel : Nat) (book : Book) (tasks : List Task) :
    Moment.Joined book (runMoments fuel book tasks) (run fuel book tasks).1 ∧
      Moment.sent (runMoments fuel book tasks) = (run fuel book tasks).2 := by
  induction fuel generalizing book tasks with
  | zero => exact ⟨rfl, rfl⟩
  | succ fuel induction =>
    cases stepped : book.step tasks with
    | none =>
      simp only [runMoments, run, stepped]
      exact ⟨rfl, rfl⟩
    | some result =>
      obtain ⟨next, later, reports⟩ := result
      obtain ⟨joined, sent⟩ := induction next later
      simp only [runMoments, run, stepped]
      exact ⟨⟨rfl, joined⟩, by rw [Moment.sent_cons, sent]⟩

/-- The moments of an operation leave out nothing. -/
theorem moments_of_joined (book : Book) (operation : Operation) :
    Moment.Joined book (book.momentsOf operation) (book.perform operation).1 ∧
      Moment.sent (book.momentsOf operation) = (book.perform operation).2 := by
  rw [perform_eq]
  have worked := run_moments_joined
    ((book.outset operation).book.potential (book.outset operation).tasks)
    (book.outset operation).book (book.outset operation).tasks
  constructor
  · exact ⟨rfl, worked.1.append ⟨rfl, rfl⟩⟩
  · rw [momentsOf, Moment.sent_cons, Moment.sent_append, worked.2]
    exact congrArg _ (List.append_nil _)

/-- The moments of operations in a row leave out nothing. -/
theorem moments_joined (book : Book) (operations : List Operation) :
    Moment.Joined book (book.moments operations) (book.performAll operations).1 ∧
      Moment.sent (book.moments operations) = (book.performAll operations).2 := by
  induction operations generalizing book with
  | nil => exact ⟨rfl, rfl⟩
  | cons operation operations induction =>
    obtain ⟨joined, sent⟩ := book.moments_of_joined operation
    obtain ⟨others, later⟩ := induction (book.perform operation).1
    exact ⟨joined.append others, by rw [moments, Moment.sent_append, sent, later]; rfl⟩

/-- What an order accepts is within its limit. -/
theorem within_limit_of_accepts {order : Order} {price quantity : Int}
    (accepted : order.accepts price = true) (limited : order.type.isLimited = true) :
    (Report.ofFill (order.fill price quantity)).WithinLimit := by
  change match order.flow with
    | .buying => price ≤ order.price
    | .selling => order.price ≤ price
  cases flow : order.flow <;> cases type : order.type <;>
    simp_all [Order.accepts, OrderType.isLimited]

/-- An order that trades at its own price is within its limit. -/
theorem within_limit_of_own (order : Order) (quantity : Int) :
    (Report.ofFill (order.fill order.price quantity)).WithinLimit := by
  change match order.flow with
    | .buying => order.price ≤ order.price
    | .selling => order.price ≤ order.price
  cases order.flow <;> exact Int.le_refl _

/-- Orders that meet in a sound book make a legal trade. -/
theorem Meets.trade {book : Book} (sound : book.Sound) {taker : Order} {maker : Queue.Entry}
    {behind : List Queue.Entry} (meets : book.Meets taker maker behind) :
    (⟨book, book.traded taker maker behind, fills taker maker.order⟩ : Moment).Trade maker taker
      (Report.ofFill (maker.order.fill maker.order.price (tradedQuantity taker maker.order)))
      (Report.ofFill (taker.fill maker.order.price (tradedQuantity taker maker.order))) := by
  obtain ⟨positive, ofTaker, ofMaker⟩ := meets.bounded
  have keeps := sound.resting taker.flow.contra
  have present : maker ∈ (book.resting taker.flow.contra).entries :=
    meets.first ▸ List.mem_cons_self
  have side : maker.order.flow = taker.flow.contra := (keeps.lawful maker present).side
  have quantity : (Report.ofFill (maker.order.fill maker.order.price
      (tradedQuantity taker maker.order))).lastQuantity = tradedQuantity taker maker.order :=
    Int.min_eq_left ofMaker
  have quantity' : (Report.ofFill (taker.fill maker.order.price
      (tradedQuantity taker maker.order))).lastQuantity = tradedQuantity taker maker.order :=
    Int.min_eq_left ofTaker
  refine ⟨rfl, ⟨Report.is_fill_of_fill _, Report.is_fill_of_fill _⟩, ?_, rfl,
    quantity'.trans quantity.symm, ?_, ?_, ?_, ?_, ?_, rfl, ?_, ?_⟩
  · change taker.flow = maker.order.flow.contra
    rw [side, Flow.contra_contra]
  · rw [quantity]
    exact positive
  · rw [quantity]
    exact (trade_once_iff ..).mpr ⟨maker, behind, meets, rfl, rfl, rfl⟩
  · rw [quantity]
    exact ⟨rfl, rfl⟩
  · change maker ∈ (book.resting maker.order.flow).entries
    rw [side]
    exact present
  · change ∀ other ∈ (book.resting maker.order.flow).entries, other = maker ∨
      maker.order.flow.restingDirection.better maker.order.price other.order.price = true ∨
      maker.order.price = other.order.price ∧ maker.arrival < other.arrival
    rw [side]
    exact keeps.first_best meets.first
  · intro report member limited
    rcases List.mem_cons.mp member with rfl | member
    · exact within_limit_of_own maker.order _
    · obtain rfl := List.mem_singleton.mp member
      exact within_limit_of_accepts meets.accepted limited
  · rw [quantity]
    rfl

/-- What is left of an order is not filled. -/
theorem rest_remainder_tradeless (book : Book) (order : Order) :
    (⟨book, (book.restRemainder order).1, (book.restRemainder order).2⟩ : Moment).Tradeless where
  reports := by
    have settles := book.settles order
    generalize book.restRemainder order = settled at settles ⊢
    cases settles <;> simp [ReportKind.isFill]
  trades := (book.rest_remainder_parked order).trades

/-- Every move of a sound book is a legal trade, or nothing is filled. -/
theorem Move.legal {book next : Book} {tasks later : List Task} {reports : List Report}
    (move : book.Move tasks next later reports) (sound : book.Sound) :
    (⟨book, next, reports⟩ : Moment).Legal := by
  cases move with
  | trade traded =>
    obtain ⟨maker, behind, meets, rfl, rfl, rfl⟩ := (trade_once_iff ..).mp traded
    exact .inr ⟨maker, _, _, _, meets.trade sound⟩
  | settle stuck left => exact .inl (book.rest_remainder_tradeless _)
  | finish stuck spent => exact .inl ⟨by simp, rfl⟩
  | release released =>
    obtain ⟨entry, behind, releases, rfl, rfl⟩ := releases_of_release released
    exact .inl ⟨by simp [ReportKind.isFill], releases.prices.trades⟩
  | pass unreached => exact .inl ⟨by simp, rfl⟩

/-- Nothing that an operation does at once fills an order. -/
theorem Opens.tradeless {book : Book} {operation : Operation} {outset : Outset}
    (opens : book.Opens operation outset) (sound : book.Sound) :
    (⟨book, outset.book, outset.reports⟩ : Moment).Tradeless where
  reports := by
    have routed {start : Book} {order : Order} {outset : Outset}
        (routes : start.Routes order outset) :
        ∀ report ∈ outset.reports, report.kind.isFill = false := by
      cases routes <;> simp [ReportKind.isFill, Outset.settled]
    cases opens with
    | absent => simp [Outset.unchanged]
    | refused kind image reason rejects =>
      rcases rejects with rfl | rfl | rfl <;>
        simp [Outset.unchanged, ReportKind.isFill]
    | insert built active positive routes =>
      exact List.forall_mem_cons.mpr ⟨rfl, routed routes⟩
    | requeue built active amended routes =>
      exact List.forall_mem_cons.mpr ⟨rfl, routed routes⟩
    | keep built active amended stays => simp [Outset.settled, ReportKind.isFill]
    | @expire _ _ order next built active amended immediate =>
      refine List.forall_mem_cons.mpr ⟨rfl, ?_⟩
      rcases next.drop_immediate_cases order with ⟨-, nothing, -⟩ | ⟨old, -, -, dropped⟩
      · simp [nothing]
      · simp [dropped, ReportKind.isFill]
    | cancel withdrawn => simp [Outset.settled, ReportKind.isFill]
    | start => simp [Outset.unchanged]
    | stop =>
      intro report member
      obtain ⟨order, -, rfl⟩ := List.mem_map.mp member
      rfl
    | publish => simp [Outset.unchanged]
  trades := (opens.leaves sound).trades

/-- What every move keeps is kept through a run of tasks, and what a move makes sure of holds
of every moment of the run. -/
theorem run_moments_keep {P : Book → List Task → Prop} {Q : Moment → Prop}
    (moves : ∀ {book next : Book} {tasks later : List Task} {reports : List Report},
      book.Move tasks next later reports → P book tasks → P next later ∧ Q ⟨book, next, reports⟩)
    (fuel : Nat) (book : Book) (tasks : List Task) (start : P book tasks) :
    (∀ moment ∈ runMoments fuel book tasks, Q moment) ∧ ∃ left, P (run fuel book tasks).1 left := by
  induction fuel generalizing book tasks with
  | zero => exact ⟨by simp [runMoments], tasks, start⟩
  | succ fuel induction =>
    cases stepped : book.step tasks with
    | none =>
      simp only [runMoments, run, stepped]
      exact ⟨by simp, tasks, start⟩
    | some result =>
      obtain ⟨next, later, reports⟩ := result
      obtain ⟨kept, now⟩ := moves ((step_iff ..).mp stepped) start
      obtain ⟨others, final⟩ := induction next later kept
      simp only [runMoments, run, stepped]
      exact ⟨List.forall_mem_cons.mpr ⟨now, others⟩, final⟩

/-- Every moment of a run of tasks is legal, and the book stays sound. -/
theorem run_moments_legal (fuel : Nat) (book : Book) (tasks : List Task) (sound : book.Sound)
    (ready : ∀ task ∈ tasks, task.Sound) :
    (∀ moment ∈ runMoments fuel book tasks, moment.Legal) ∧ (run fuel book tasks).1.Sound := by
  obtain ⟨legal, left, final⟩ := run_moments_keep
    (P := fun book tasks => book.Sound ∧ ∀ task ∈ tasks, task.Sound)
    (fun move holds => ⟨move.sound holds.1 holds.2, move.legal holds.1⟩)
    fuel book tasks ⟨sound, ready⟩
  exact ⟨legal, final.1⟩

/-- Every moment of an operation is legal, and the book stays sound. -/
theorem moments_of_legal {book : Book} (sound : book.Sound) (operation : Operation) :
    (∀ moment ∈ book.momentsOf operation, moment.Legal) ∧ (book.perform operation).1.Sound := by
  have opens := book.opens_outset operation
  obtain ⟨kept, ready⟩ := opens.sound sound
  obtain ⟨legal, worked⟩ := run_moments_legal
    ((book.outset operation).book.potential (book.outset operation).tasks) _ _ kept ready
  constructor
  · intro moment member
    rcases List.mem_cons.mp member with rfl | member
    · exact .inl (opens.tradeless sound)
    · rcases List.mem_append.mp member with member | member
      · exact legal moment member
      · obtain rfl := List.mem_singleton.mp member
        exact .inl ⟨by simp, rfl⟩
  · rw [perform_eq]
    exact worked.marked _

/-- Every moment of operations in a row is legal. -/
theorem moments_legal {book : Book} (sound : book.Sound) (operations : List Operation) :
    ∀ moment ∈ book.moments operations, moment.Legal := by
  induction operations generalizing book with
  | nil => simp [moments]
  | cons operation operations induction =>
    obtain ⟨legal, next⟩ := moments_of_legal sound operation
    intro moment member
    rcases List.mem_append.mp member with now | later
    · exact legal moment now
    · exact induction next moment later

/-- Whatever the operations are and whatever order the book began with, the reports on
fills are pairs that legal trades sent, and every other report is sent by something that
trades nothing. -/
theorem run_trades_legally (first : Order) (operations : List Operation) :
    Moment.Joined (ofFirst first) ((ofFirst first).moments operations)
        ((ofFirst first).performAll operations).1 ∧
      Moment.sent ((ofFirst first).moments operations) =
        ((ofFirst first).performAll operations).2 ∧
      ∀ moment ∈ (ofFirst first).moments operations, moment.Legal := by
  obtain ⟨joined, sent⟩ := (ofFirst first).moments_joined operations
  exact ⟨joined, sent, moments_legal (sound_of_first first) operations⟩

/-- The last order buys the first sale at ten. That releases the stop purchase, which is
ahead of it at the second sale. -/
example :
    let request side type quantity price stop : NewOrder :=
      ⟨"", "", "", side, type, quantity, price, stop, .day, none⟩
    let operations : List Operation :=
      [.insert ⟨1⟩ (request .sell .limit 1 (some 10) none),
       .insert ⟨2⟩ (request .sell .limit 1 (some 11) none),
       .insert ⟨3⟩ (request .buy .limit 1 (some 9) none),
       .insert ⟨4⟩ (request .sell .market 1 none none),
       .insert ⟨5⟩ (request .buy .stop 1 none (some 10)),
       .insert ⟨6⟩ (request .buy .limit 2 (some 11) none)]
    let reports := ((ofFirst default).performAll operations).2
    (reports.filter (·.kind.isFill)).map (fun report => (report.order.value, report.lastPrice)) =
      [(3, 9), (4, 9), (1, 10), (6, 10), (2, 11), (5, 11)] := by
  decide

end Book

end Bourse
