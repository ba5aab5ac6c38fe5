import Bourse.Client.Command
import Bourse.Proofs.Answers
import Bourse.Proofs.WireRoundTrip

/-!
# Command lines of the client

A line that gives each option its value by name, and the other values behind two dashes, is read
as these values, whatever texts they are: `read_line`. The command that is made of values has in
each of its fields what the text of one option is read as, or what stands for it if it is left
out; `Says` lists which option that is.

Every number of a command that the client reads from its command line is one that a word holds:
digits are read against the bounds of a word, and no other number gets into a command.
-/

namespace Bourse

open Client Service

namespace Text

/-- Where an option of a result is there, the result is. -/
theorem ok_of_to_option {ε α : Type} {result : Except ε α} {value : α}
    (found : result.toOption = some value) : result = .ok value := by
  cases result with
  | error error => contradiction
  | ok found => cases found; rfl

/-- A signed number that is read is one that a word holds. -/
theorem fits_of_read_integer {cs : List Char} {value : Int}
    (integer : readInteger cs = some value) : Word.Fits value := by
  unfold readInteger at integer
  split at integer
  · split_ifs at integer with sign
    obtain ⟨opposite, found, rfl⟩ := Option.map_eq_some_iff.mp integer
    obtain ⟨magnitude, natural, same⟩ := Option.bind_eq_some_iff.mp found
    obtain rfl := Option.some.inj same
    have below := (read_natural_iff.mp (ok_of_to_option natural)).1
    unfold Word.Fits Word.least Word.greatest at *
    omega
  · obtain ⟨magnitude, natural, rfl⟩ := Option.map_eq_some_iff.mp integer
    have below := (read_natural_iff.mp (ok_of_to_option natural)).1
    unfold Word.Fits Word.least Word.greatest at *
    simp only [Int.ofNat_eq_natCast]
    omega

end Text

/-! ## Lines that are typed in full -/

namespace CommandLine

/-- A line that gives options their values, each by its name, and the other values by their
places. -/
def typedLine (options : List (String × String)) (places : List String) : List String :=
  options.map (fun (name, value) => "--" ++ name ++ "=" ++ value) ++ "--" :: places

/-- The values that such a line gives. -/
def typedValues (grammar : Grammar) (options : List (String × String)) (places : List String) :
    List (String × String) :=
  options ++ (grammar.positionals.map (·.name)).zip places

/-- Whether an option has a value that passes its test. -/
def isFit (rule : OptionRule) (value : String) : Bool :=
  match rule.action with
  | .value check => (check value).isOk
  | _ => false

/-- Whether an option of the grammar takes a value: it is named so that the name can be told from
the value, and the value is fit. -/
@[mk_iff]
structure Takes (grammar : Grammar) (name value : String) : Prop where
  unmarked : '=' ∉ name.toList
  named : name ≠ ""
  fit : (grammar.options.find? (·.name == name)).any (isFit · value) = true

instance (grammar : Grammar) (name value : String) : Decidable (Takes grammar name value) :=
  decidable_of_iff' _ (takes_iff grammar name value)

/-- The test of an option that takes a value, which the value passes. -/
theorem Takes.check {grammar : Grammar} {name value : String} (takes : Takes grammar name value) :
    ∃ rule check, grammar.options.find? (·.name == name) = some rule ∧
      rule.action = .value check ∧ check value = .ok () := by
  obtain ⟨rule, found, fits⟩ := (Option.any_eq_true ..).mp takes.fit
  unfold isFit at fits
  split at fits
  · rename_i check same
    cases passed : check value with
    | error halt =>
      rw [passed] at fits
      contradiction
    | ok => exact ⟨rule, check, found, same, passed⟩
  · contradiction

/-- Whether a grammar without subcommands takes all the values, none of them twice. -/
structure TakesAll (grammar : Grammar) (options : List (String × String)) (places : List String) :
    Prop where
  flat : grammar.subcommands = []
  named : ∀ option ∈ options, Takes grammar option.1 option.2
  placed : List.Forall₂ (fun rule place => rule.check place = .ok ()) grammar.positionals places
  distinct : ((typedValues grammar options places).map (·.1)).Nodup

section Lines

variable {grammar : Grammar} {given : List (String × String)}

/-- A value is given under a name that no other is given under. -/
theorem give_fresh {name : String} (fresh : name ∉ given.map (·.1)) (value : String)
    (pending : Option Pending) (met : Nat) :
    Progress.give ⟨given, pending, met⟩ name value =
      .ok ⟨given ++ [(name, value)], pending, met⟩ := by
  have unused : (given.any fun other => other.1 == name) = false := by
    refine List.any_eq_false.mpr fun other member same => ?_
    exact fresh (List.mem_map.mpr ⟨other, member, eq_of_beq same⟩)
  rw [Progress.give, unused]
  rfl

/-- A fit value that is still to be looked at is given. -/
theorem resolve_fit {name value : String} {check : ValueCheck} (fit : check value = .ok ())
    (fresh : name ∉ given.map (·.1)) (met : Nat) :
    Progress.resolve ⟨given, some ⟨name, check, some value⟩, met⟩ =
      .ok ⟨given ++ [(name, value)], none, met⟩ := by
  simp only [Progress.resolve, give_fresh fresh, bind, Except.bind, fit]
  rfl

/-- An option with its value attached gives that value. -/
theorem long_typed {name value : String} (takes : Takes grammar name value)
    (fresh : name ∉ given.map (·.1)) (met : Nat) :
    long grammar ⟨given, none, met⟩ (name.toList ++ '=' :: value.toList) =
      .ok ⟨given ++ [(name, value)], none, met⟩ := by
  obtain ⟨rule, check, found, takesValue, fit⟩ := takes.check
  have known : ∀ c ∈ name.toList, (c != '=') = true := fun c member =>
    bne_iff_ne.mpr fun same => takes.unmarked (same ▸ member)
  have named : (rule.name == name) = true :=
    List.find?_some (p := fun rule : OptionRule => rule.name == name) found
  have name_part : (name.toList ++ '=' :: value.toList).takeWhile (· != '=') = name.toList := by
    rw [List.takeWhile_append_of_pos known, List.takeWhile_cons_of_neg (by decide),
      List.append_nil]
  have value_part : (name.toList ++ '=' :: value.toList).dropWhile (· != '=') =
      '=' :: value.toList := by
    rw [List.dropWhile_append_of_pos known, List.dropWhile_cons_of_neg (by decide)]
  rw [long, name_part, value_part, String.ofList_toList]
  simp only [found, takesValue, Progress.begin, eq_of_beq named, String.ofList_toList]
  exact resolve_fit fit fresh met

/-- One option of a line is read after another. -/
theorem scan_typed_option (flat : grammar.subcommands = []) {name value : String}
    (takes : Takes grammar name value) (fresh : name ∉ given.map (·.1)) (met : Nat)
    (rest : List String) :
    scan grammar ⟨given, none, met⟩ false (("--" ++ name ++ "=" ++ value) :: rest) =
      scan grammar ⟨given ++ [(name, value)], none, met⟩ false rest := by
  have written : ("--" ++ name ++ "=" ++ value).toList =
      '-' :: '-' :: (name.toList ++ '=' :: value.toList) := by
    simp
  obtain ⟨first, more, chars⟩ : ∃ first more, name.toList = first :: more :=
    List.exists_cons_of_ne_nil fun none => takes.named (String.toList_eq_nil_iff.mp none)
  have read := long_typed takes fresh met
  rw [chars, List.cons_append] at read
  rw [scan, flat, written, chars, List.cons_append]
  simp only [Bool.false_eq_true, if_false, List.contains_nil, Bool.and_false, read]
  rfl

/-- All options of a line are read, up to what stands behind them. -/
theorem scan_typed_options (flat : grammar.subcommands = []) (rest : List String) (met : Nat)
    {options : List (String × String)}
    (takes : ∀ option ∈ options, Takes grammar option.1 option.2)
    (distinct : ((given ++ options).map (·.1)).Nodup) :
    scan grammar ⟨given, none, met⟩ false
        (options.map (fun (name, value) => "--" ++ name ++ "=" ++ value) ++ rest) =
      scan grammar ⟨given ++ options, none, met⟩ false rest := by
  induction options generalizing given with
  | nil => rw [List.append_nil, List.map_nil, List.nil_append]
  | cons option later induction =>
    obtain ⟨first, others⟩ := List.forall_mem_cons.mp takes
    have fresh : option.1 ∉ given.map (·.1) := by
      rw [List.map_append, List.nodup_append'] at distinct
      exact fun member => distinct.2.2 member List.mem_cons_self
    rw [List.map_cons, List.cons_append, scan_typed_option flat first fresh,
      List.append_cons given option later]
    exact induction others (List.append_cons given option later ▸ distinct)

/-- The values behind two dashes are read each by its place. What is left to look at of the value
before them is looked at first. -/
theorem scan_typed_places {progress : Progress} {met : Nat} {places : List String}
    (begun : progress.resolve = .ok ⟨given, none, met⟩) (counted : progress.positionals = met)
    (fits : List.Forall₂ (fun rule place => rule.check place = .ok ())
      (grammar.positionals.drop met) places)
    (distinct : ((given ++ ((grammar.positionals.drop met).map (·.name)).zip places).map
      (·.1)).Nodup) :
    (scan grammar progress true places >>= fun (last, _) => last.resolve) =
      .ok ⟨given ++ ((grammar.positionals.drop met).map (·.name)).zip places, none,
        met + places.length⟩ := by
  generalize left : grammar.positionals.drop met = rules at fits distinct ⊢
  induction fits generalizing progress given met with
  | nil =>
    rw [List.zip_nil_right, List.append_nil]
    exact begun
  | @cons rule place rules places fit fits induction =>
    have here : grammar.positionals[met]? = some rule := by
      rw [← List.head?_drop, left]
      rfl
    have others : grammar.positionals.drop (met + 1) = rules := by
      rw [← List.tail_drop, left]
      rfl
    have fresh : rule.name ∉ given.map (·.1) := by
      rw [List.map_append, List.nodup_append'] at distinct
      exact fun member => distinct.2.2 member List.mem_cons_self
    have step : scan grammar progress true (place :: places) =
        scan grammar ⟨given, some ⟨rule.name, rule.check, some place⟩, met + 1⟩ true places := by
      rw [scan]
      simp only [if_true, positional, counted, here, begun, bind, Except.bind]
      rfl
    rw [List.map_cons, List.zip_cons_cons, List.append_cons] at distinct ⊢
    rw [step, List.length_cons, Nat.add_comm places.length 1, ← Nat.add_assoc]
    exact induction (resolve_fit fit fresh (met + 1)) rfl others distinct

/-- A line that is typed in full is read as its values. -/
theorem read_line {options : List (String × String)} {places : List String}
    (takes : TakesAll grammar options places) :
    read grammar (typedLine options places) = .ok (typedValues grammar options places) := by
  have named : ((([] : List (String × String)) ++ options).map (·.1)).Nodup := by
    have distinct := takes.distinct
    rw [typedValues, List.map_append] at distinct
    exact distinct.of_append_left
  have opened : scan grammar .start false (typedLine options places) =
      scan grammar ⟨options, none, 0⟩ true places := by
    rw [typedLine, Progress.start, scan_typed_options takes.flat _ 0 takes.named named, scan,
      takes.flat]
    rfl
  have closed : (scan grammar ⟨options, none, 0⟩ true places >>= fun (last, _) => last.resolve) =
      .ok ⟨typedValues grammar options places, none, 0 + places.length⟩ :=
    scan_typed_places rfl rfl takes.placed takes.distinct
  rw [read, opened]
  cases scanned : scan grammar ⟨options, none, 0⟩ true places with
  | error halt =>
    rw [scanned] at closed
    contradiction
  | ok last =>
    rw [scanned] at closed
    have resolved : last.1.resolve = _ := closed
    simp only [bind, Except.bind, resolved]
    rfl

end Lines

end CommandLine

namespace Client

/-! ## What values say -/

namespace Given

variable {given : Given} {name : String}

/-- What the text of a value is read as, or what stands for it if it is left out. -/
def Reads {ε α : Type} (given : Given) (name : String) (read : String → Except ε α)
    (absent : Except Halt α) (value : α) : Prop :=
  (∃ text, given.lookup name = some text ∧ read text = .ok value) ∨
    given.lookup name = none ∧ absent = .ok value

/-- A value is what its text is read as. -/
theorem read_by_iff {ε α : Type} {read : String → Except ε α} {absent : Except Halt α}
    {value : α} :
    given.readBy name read absent = .ok value ↔ given.Reads name read absent value := by
  unfold readBy Reads
  cases given.lookup name with
  | none => simp
  | some text =>
    cases own : read text with
    | error fault => simp [own]
    | ok found => simp [own]

/-- A value that has to be there is its text. -/
theorem required_iff {value : String} :
    given.required name = .ok value ↔ given.lookup name = some value := by
  unfold required
  cases given.lookup name with
  | none => simp
  | some text => simp

/-- What a line says of whom and what an order is for. -/
structure SaysIdentity (given : Given) (security clientOrderId sender : String) (side : Side)
    (type : OrderType) : Prop where
  security : given.lookup "security" = some security
  clientOrderId : given.lookup "client-order-id" = some clientOrderId
  sender : (given.lookup "sender").getD "cli" = sender
  side : given.Reads "side" Side.parse (.error .missingArgument) side
  type : given.Reads "type" OrderType.parse (.ok .limit) type

/-- What a line says of the terms of an order. -/
structure SaysTerms (given : Given) (quantity : Int) (price stopPrice : Option Int)
    (timeInForce : TimeInForce) : Prop where
  quantity : given.Reads "qty" toInteger (.error .missingArgument) quantity
  price : given.Reads "price" (fun text => (toInteger text).map some) (.ok none) price
  stopPrice : given.Reads "stop-price" (fun text => (toInteger text).map some) (.ok none) stopPrice
  timeInForce : given.Reads "tif" TimeInForce.parse (.ok .day) timeInForce

/-- What a line says of the order that it names. -/
structure SaysOrder (given : Given) (order : OrderId) (previousClientOrderId : String) : Prop where
  order : given.Reads "order_id" OrderId.parse (.error .missingArgument) order
  previousClientOrderId : given.lookup "orig-client-order-id" = some previousClientOrderId

/-- What the values of a line say of each field of a command. -/
def Says (given : Given) : Command → Prop
  | .new order =>
    given.SaysIdentity order.security order.clientOrderId order.sender order.side order.type ∧
      given.SaysTerms order.quantity order.price order.stopPrice order.timeInForce ∧
      given.Reads "disclosed-qty" (fun text => (toInteger text).map some) (.ok none)
        order.disclosed
  | .cancel options =>
    given.SaysOrder options.order options.previousClientOrderId ∧
      given.SaysIdentity options.security options.clientOrderId options.sender options.side
        options.type
  | .replace options =>
    given.SaysOrder options.order options.previousClientOrderId ∧
      given.SaysIdentity options.security options.clientOrderId options.sender options.side
        options.type ∧
      given.SaysTerms options.quantity options.price options.stopPrice options.timeInForce ∧
      given.Reads "cum-qty" toInteger (.ok 0) options.seenFilled
  | .picture security => given.lookup "security" = some security
  | .securities | .health => True

section Fields

variable {security clientOrderId sender previousClientOrderId : String} {side : Side}
  {type : OrderType} {quantity : Int} {price stopPrice : Option Int} {timeInForce : TimeInForce}
  {order : OrderId}

/-- Whom and what an order is for is read from values exactly if they say it. -/
theorem says_identity_iff :
    given.SaysIdentity security clientOrderId sender side type ↔
      given.required "security" = .ok security ∧
        given.required "client-order-id" = .ok clientOrderId ∧ given.sender = sender ∧
        given.side = .ok side ∧ given.type = .ok type := by
  constructor
  · intro said
    exact ⟨required_iff.mpr said.security, required_iff.mpr said.clientOrderId, said.sender,
      read_by_iff.mpr said.side, read_by_iff.mpr said.type⟩
  · rintro ⟨security, clientOrderId, sender, side, type⟩
    exact ⟨required_iff.mp security, required_iff.mp clientOrderId, sender, read_by_iff.mp side,
      read_by_iff.mp type⟩

/-- So are the terms of an order. -/
theorem says_terms_iff :
    given.SaysTerms quantity price stopPrice timeInForce ↔
      given.quantity = .ok quantity ∧ given.integer? "price" = .ok price ∧
        given.integer? "stop-price" = .ok stopPrice ∧ given.timeInForce = .ok timeInForce := by
  constructor
  · intro said
    exact ⟨read_by_iff.mpr said.quantity, read_by_iff.mpr said.price,
      read_by_iff.mpr said.stopPrice, read_by_iff.mpr said.timeInForce⟩
  · rintro ⟨quantity, price, stopPrice, timeInForce⟩
    exact ⟨read_by_iff.mp quantity, read_by_iff.mp price, read_by_iff.mp stopPrice,
      read_by_iff.mp timeInForce⟩

/-- So is the order that a line names. -/
theorem says_order_iff :
    given.SaysOrder order previousClientOrderId ↔
      given.order = .ok order ∧
        given.required "orig-client-order-id" = .ok previousClientOrderId := by
  constructor
  · intro said
    exact ⟨read_by_iff.mpr said.order, required_iff.mpr said.previousClientOrderId⟩
  · rintro ⟨order, previous⟩
    exact ⟨read_by_iff.mp order, required_iff.mp previous⟩

end Fields

/-- A new order is read from values exactly if they say it. -/
theorem new_order_iff {order : NewOrder} :
    given.newOrder = .ok order ↔ given.Says (.new order) := by
  constructor
  · intro read
    obtain ⟨security, security_read, read⟩ := ok_of_bind read
    obtain ⟨clientOrderId, client_read, read⟩ := ok_of_bind read
    obtain ⟨side, side_read, read⟩ := ok_of_bind read
    obtain ⟨type, type_read, read⟩ := ok_of_bind read
    obtain ⟨quantity, quantity_read, read⟩ := ok_of_bind read
    obtain ⟨price, price_read, read⟩ := ok_of_bind read
    obtain ⟨stopPrice, stop_read, read⟩ := ok_of_bind read
    obtain ⟨timeInForce, time_read, read⟩ := ok_of_bind read
    obtain ⟨disclosed, disclosed_read, read⟩ := ok_of_bind read
    cases read
    exact ⟨says_identity_iff.mpr ⟨security_read, client_read, rfl, side_read, type_read⟩,
      says_terms_iff.mpr ⟨quantity_read, price_read, stop_read, time_read⟩,
      read_by_iff.mp disclosed_read⟩
  · rintro ⟨identity, terms, disclosed⟩
    obtain ⟨security, clientOrderId, sender, side, type⟩ := says_identity_iff.mp identity
    obtain ⟨quantity, price, stop, time⟩ := says_terms_iff.mp terms
    have disclosed : given.integer? "disclosed-qty" = .ok order.disclosed :=
      read_by_iff.mpr disclosed
    simp only [newOrder, security, clientOrderId, sender, side, type, quantity, price, stop, time,
      disclosed, bind, Except.bind]
    rfl

/-- So is a cancellation. -/
theorem cancel_options_iff {options : CancelOptions} :
    given.cancelOptions = .ok options ↔ given.Says (.cancel options) := by
  constructor
  · intro read
    obtain ⟨order, order_read, read⟩ := ok_of_bind read
    obtain ⟨previous, previous_read, read⟩ := ok_of_bind read
    obtain ⟨security, security_read, read⟩ := ok_of_bind read
    obtain ⟨clientOrderId, client_read, read⟩ := ok_of_bind read
    obtain ⟨side, side_read, read⟩ := ok_of_bind read
    obtain ⟨type, type_read, read⟩ := ok_of_bind read
    cases read
    exact ⟨says_order_iff.mpr ⟨order_read, previous_read⟩,
      says_identity_iff.mpr ⟨security_read, client_read, rfl, side_read, type_read⟩⟩
  · rintro ⟨named, identity⟩
    obtain ⟨order, previous⟩ := says_order_iff.mp named
    obtain ⟨security, clientOrderId, sender, side, type⟩ := says_identity_iff.mp identity
    simp only [cancelOptions, order, previous, security, clientOrderId, sender, side, type, bind,
      Except.bind]
    rfl

/-- So is a replacement. -/
theorem replace_options_iff {options : ReplaceOptions} :
    given.replaceOptions = .ok options ↔ given.Says (.replace options) := by
  constructor
  · intro read
    obtain ⟨order, order_read, read⟩ := ok_of_bind read
    obtain ⟨previous, previous_read, read⟩ := ok_of_bind read
    obtain ⟨security, security_read, read⟩ := ok_of_bind read
    obtain ⟨clientOrderId, client_read, read⟩ := ok_of_bind read
    obtain ⟨side, side_read, read⟩ := ok_of_bind read
    obtain ⟨type, type_read, read⟩ := ok_of_bind read
    obtain ⟨quantity, quantity_read, read⟩ := ok_of_bind read
    obtain ⟨seenFilled, seen_read, read⟩ := ok_of_bind read
    obtain ⟨price, price_read, read⟩ := ok_of_bind read
    obtain ⟨stopPrice, stop_read, read⟩ := ok_of_bind read
    obtain ⟨timeInForce, time_read, read⟩ := ok_of_bind read
    cases read
    exact ⟨says_order_iff.mpr ⟨order_read, previous_read⟩,
      says_identity_iff.mpr ⟨security_read, client_read, rfl, side_read, type_read⟩,
      says_terms_iff.mpr ⟨quantity_read, price_read, stop_read, time_read⟩,
      read_by_iff.mp seen_read⟩
  · rintro ⟨named, identity, terms, seen⟩
    obtain ⟨order, previous⟩ := says_order_iff.mp named
    obtain ⟨security, clientOrderId, sender, side, type⟩ := says_identity_iff.mp identity
    obtain ⟨quantity, price, stop, time⟩ := says_terms_iff.mp terms
    simp only [replaceOptions, order, previous, security, clientOrderId, sender, side, type,
      quantity, read_by_iff.mpr seen, price, stop, time, bind, Except.bind]
    rfl

end Given

/-- What is made of a result that is there. -/
theorem ok_of_map {ε α β : Type} {result : Except ε α} {f : α → β} {value : β}
    (made : result.map f = .ok value) : ∃ found, result = .ok found ∧ f found = value := by
  cases result with
  | error error => contradiction
  | ok found => exact ⟨found, rfl, Except.ok.inj made⟩

/-- A topic does not matter to what is read. -/
theorem on_topic_iff {α : Type} {topic : Option String} {result : Except Halt α} {value : α} :
    onTopic topic result = .ok value ↔ result = .ok value := by
  unfold onTopic
  split <;> simp

/-- The subcommand of a command. -/
def Command.subcommand : Command → String
  | .new _ => "new"
  | .cancel _ => "cancel"
  | .replace _ => "replace"
  | .picture _ => "picture"
  | .securities => "securities"
  | .health => "health"

/-- The values of its subcommand make a command exactly if they say it. -/
theorem of_given_iff {given : Given} {command : Command} :
    ofGiven command.subcommand given = .ok command ↔ given.Says command := by
  have made {α : Type} (result : Except Halt α) (kind : α → Command) (value : α)
      (injective : Function.Injective kind) :
      result.map kind = .ok (kind value) ↔ result = .ok value := by
    cases result with
    | error halt => simp [Except.map]
    | ok found => simp [Except.map, injective.eq_iff]
  cases command with
  | new order =>
    exact (made _ Command.new order fun _ _ same => by cases same; rfl).trans Given.new_order_iff
  | cancel options =>
    exact (made _ Command.cancel options fun _ _ same => by cases same; rfl).trans
      Given.cancel_options_iff
  | replace options =>
    exact (made _ Command.replace options fun _ _ same => by cases same; rfl).trans
      Given.replace_options_iff
  | picture security =>
    exact (made _ Command.picture security fun _ _ same => by cases same; rfl).trans
      Given.required_iff
  | securities => exact iff_of_true rfl trivial
  | health => exact iff_of_true rfl trivial

/-- Whatever subcommand the values belong to, they say the command that is made of them. -/
theorem said_of_given {name : String} {given : Given} {command : Command}
    (made : ofGiven name given = .ok command) : given.Says command := by
  unfold ofGiven at made
  split at made
  · obtain ⟨order, read, rfl⟩ := ok_of_map made
    exact Given.new_order_iff.mp read
  · obtain ⟨options, read, rfl⟩ := ok_of_map made
    exact Given.cancel_options_iff.mp read
  · obtain ⟨options, read, rfl⟩ := ok_of_map made
    exact Given.replace_options_iff.mp read
  · obtain ⟨security, read, rfl⟩ := ok_of_map made
    exact Given.required_iff.mp read
  · cases made
    trivial
  · cases made
    trivial

/-- A line that begins with the subcommand of a command is read as it is, with no server named. -/
theorem read_subcommand_first (command : Command) (rest : List String) :
    Command.read (command.subcommand :: rest) = readSubcommand command.subcommand rest := by
  have first : CommandLine.scan grammar .start false (command.subcommand :: rest) =
      .ok (.start, some (command.subcommand, rest)) := by
    cases command <;> rfl
  rw [Command.read, first]
  simp only [onTopic, CommandLine.Progress.resolve, CommandLine.Progress.start, bind, Except.bind]
  cases readSubcommand command.subcommand rest <;> rfl

/-- A line that is typed in full is read as a command exactly if its values say that command. -/
theorem read_typed_iff {command : Command} {options : List (String × String)}
    {places : List String}
    (takes : CommandLine.TakesAll (subcommandGrammar command.subcommand) options places) :
    Command.read (command.subcommand :: CommandLine.typedLine options places) = .ok command ↔
      Given.Says (CommandLine.typedValues (subcommandGrammar command.subcommand) options places)
        command := by
  have other : command.subcommand ≠ "help" := by cases command <;> simp [Command.subcommand]
  rw [read_subcommand_first, readSubcommand, if_neg other, on_topic_iff,
    CommandLine.read_line takes]
  exact of_given_iff

/-! ## Numbers -/

/-- A command whose numbers are held by words. -/
def Command.InWords : Command → Prop
  | .new order => order.InWords
  | .replace options => options.request.InWords
  | .cancel _ | .picture _ | .securities | .health => True

namespace Given

variable {given : Given} {name : String}

/-- An integer that is read fits into a word. -/
theorem fits_of_integer {text : String} {value : Int} (read : toInteger text = .ok value) :
    Word.Fits value := by
  unfold toInteger at read
  split at read
  · cases read
    exact Text.fits_of_read_integer ‹_›
  · contradiction

/-- What a reader and the value for its absence have in common, every value that is read has. -/
theorem Reads.keeps {ε α : Type} (property : α → Prop) {read : String → Except ε α}
    {absent : Except Halt α} {value : α} (said : given.Reads name read absent value)
    (reads : ∀ text value, read text = .ok value → property value)
    (absents : ∀ value, absent = .ok value → property value) : property value := by
  rcases said with ⟨text, -, read⟩ | ⟨-, absent⟩
  · exact reads text value read
  · exact absents value absent

/-- An integer that has to be there fits into a word. -/
theorem Reads.fits {value : Int}
    (said : given.Reads name toInteger (.error .missingArgument) value) : Word.Fits value :=
  said.keeps Word.Fits (fun _ _ => fits_of_integer) fun _ absent => by contradiction

/-- An integer that may be left out fits into a word if it is there. -/
theorem Reads.fits_if_there {option : Option Int}
    (said : given.Reads name (fun text => (toInteger text).map some) (.ok none) option) :
    ∀ value ∈ option, Word.Fits value := by
  refine said.keeps (fun option => ∀ value ∈ option, Word.Fits value)
    (fun text option read => ?_) (fun option absent => ?_)
  · obtain ⟨found, own, rfl⟩ := ok_of_map read
    rintro _ ⟨⟩
    exact fits_of_integer own
  · cases absent
    exact fun _ none_given => by contradiction

/-- The numbers of a command that values say fit into words. -/
theorem Says.in_words {command : Command} (said : given.Says command) : command.InWords := by
  cases command with
  | new order =>
    obtain ⟨-, terms, disclosed⟩ := said
    exact ⟨terms.quantity.fits, terms.price.fits_if_there, terms.stopPrice.fits_if_there,
      disclosed.fits_if_there⟩
  | replace options =>
    obtain ⟨-, -, terms, seen⟩ := said
    have seen : Word.Fits options.seenFilled :=
      seen.keeps Word.Fits (fun _ _ => fits_of_integer) fun _ absent => by cases absent; decide
    exact ⟨terms.quantity.fits, seen, terms.price.fits_if_there, terms.stopPrice.fits_if_there,
      fun _ none_given => by contradiction⟩
  | cancel _ | picture _ | securities | health => trivial

end Given

/-- Every number that is read from a command line fits into a word. -/
theorem Command.read_in_words {arguments : List String} {command : Command}
    (read : Command.read arguments = .ok command) : command.InWords := by
  obtain ⟨⟨progress, subcommand⟩, -, read⟩ := ok_of_bind read
  cases subcommand with
  | none =>
    obtain ⟨given, -, read⟩ := ok_of_bind read
    contradiction
  | some named =>
    obtain ⟨command, made, read⟩ := ok_of_bind read
    obtain ⟨given, -, read⟩ := ok_of_bind read
    cases read
    unfold readSubcommand at made
    split at made
    · contradiction
    · obtain ⟨given, -, made⟩ := ok_of_bind (on_topic_iff.mp made)
      exact Given.Says.in_words (said_of_given made)

end Client

end Bourse
