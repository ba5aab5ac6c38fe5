import Bourse.Proofs.CommandLines
import Bourse.Proofs.PlainPaths

/-!
# The service does what its clients typed

Requests have two forms in documents. The market's own form has a name of an enumeration where
the body of a request over HTTP has free text, and a document in the market's form can be sent
as a body. The client's own body of a new order is such a document in another order; those of a
cancellation and of a replacement leave some members out.

Both are decoded as bodies, whatever the order of their members, and each body stands for the
very request that was written. So what a command asks for is what the market of the service
carries out: the path leads to the operation and to the order, and the body to the request.
-/

namespace Bourse

open Json Client

/-! ## Names -/

/-- A side is read from its name in documents. -/
theorem Side.parse_wire_name (side : Side) : Side.parse side.wireName = .ok side := by
  cases side <;> rfl

/-- So is a type of orders. -/
theorem OrderType.parse_wire_name (type : OrderType) :
    OrderType.parse type.wireName = .ok type := by
  cases type <;> rfl

/-- So is a time in force. -/
theorem TimeInForce.parse_wire_name (time : TimeInForce) :
    TimeInForce.parse time.wireName = .ok time := by
  cases time <;> rfl

/-! ## Bodies that stand for requests -/

/-- The body that a request for a new order is sent as. -/
def NewOrder.body (request : NewOrder) : NewOrderBody where
  security := request.security
  clientOrderId := request.clientOrderId
  sender := request.sender
  side := request.side.wireName
  type := request.type.wireName
  quantity := request.quantity
  price := request.price
  stopPrice := request.stopPrice
  timeInForce := some request.timeInForce.wireName
  disclosed := request.disclosed

/-- The body that a cancellation is sent as. -/
def Cancellation.body (request : Cancellation) : CancellationBody where
  previousClientOrderId := request.previousClientOrderId
  security := request.security
  clientOrderId := request.clientOrderId
  sender := request.sender
  side := request.side.wireName
  type := request.type.wireName
  quantity := request.quantity

/-- The body that a replacement is sent as. -/
def Replacement.body (request : Replacement) : ReplacementBody where
  previousClientOrderId := request.previousClientOrderId
  security := request.security
  clientOrderId := request.clientOrderId
  sender := request.sender
  side := request.side.wireName
  type := request.type.wireName
  quantity := request.quantity
  seenFilled := request.seenFilled
  price := request.price
  stopPrice := request.stopPrice
  timeInForce := some request.timeInForce.wireName
  disclosed := request.disclosed

/-- The body that a request for a new order is sent as stands for that request. -/
theorem NewOrder.request_of_body (request : NewOrder) : request.body.request = .ok request := by
  simp only [NewOrderBody.request, body, Side.parse_wire_name, OrderType.parse_wire_name,
    timeInForceOf, TimeInForce.parse_wire_name]
  rfl

/-- So does that of a cancellation, with the order that it is for. -/
theorem Cancellation.request_of_body (request : Cancellation) :
    request.body.request request.order = .ok request := by
  simp only [CancellationBody.request, body, Side.parse_wire_name, OrderType.parse_wire_name]
  rfl

/-- So does that of a replacement. -/
theorem Replacement.request_of_body (request : Replacement) :
    request.body.request request.order = .ok request := by
  simp only [ReplacementBody.request, body, Side.parse_wire_name, OrderType.parse_wire_name,
    timeInForceOf, TimeInForce.parse_wire_name]
  rfl

/-! ## Documents that are decoded as bodies -/

/-- The document of a request for a new order is decoded as the body that it is sent as. -/
theorem NewOrder.InWords.decoded_body {request : NewOrder} (words : request.InWords) :
    Gives NewOrderBody.fields.decode request.toJson request.body := by
  have fields : NewOrderBody.fields.Gives (fun name => request.toJson.member? name) request.body :=
    (Fields.Gives.single rfl (gives_text _)).map _
      |>.apply (.single rfl (gives_text _))
      |>.apply (.single rfl (gives_text _))
      |>.apply (.single rfl (gives_text _))
      |>.apply (.single rfl (gives_text _))
      |>.apply (.single rfl (gives_int64 words.quantity))
      |>.apply (.single rfl (gives_nullable_int words.price))
      |>.apply (.single rfl (gives_nullable_int words.stopPrice))
      |>.apply (.single rfl ((gives_text _).present (text_ne_null _)))
      |>.apply (.single rfl (gives_nullable_int words.disclosed))
  exact fields.decoded (by simp) words.exact

/-- So is the document of a cancellation. -/
theorem Cancellation.InWords.decoded_body {request : Cancellation} (words : request.InWords) :
    Gives CancellationBody.fields.decode request.toJson request.body := by
  have fields :
      CancellationBody.fields.Gives (fun name => request.toJson.member? name) request.body :=
    (Fields.Gives.single rfl (gives_text _)).map _
      |>.apply (.single rfl (gives_text _))
      |>.apply (.single rfl (gives_text _))
      |>.apply (.single rfl (gives_text _))
      |>.apply (.single rfl (gives_text _))
      |>.apply (.single rfl (gives_text _))
      |>.apply (.single rfl (gives_int64 words.quantity))
  exact fields.decoded (by simp) words.exact

/-- So is the document of a replacement. -/
theorem Replacement.InWords.decoded_body {request : Replacement} (words : request.InWords) :
    Gives ReplacementBody.fields.decode request.toJson request.body := by
  have fields :
      ReplacementBody.fields.Gives (fun name => request.toJson.member? name) request.body :=
    (Fields.Gives.single rfl (gives_text _)).map _
      |>.apply (.single rfl (gives_text _))
      |>.apply (.single rfl (gives_text _))
      |>.apply (.single rfl (gives_text _))
      |>.apply (.single rfl (gives_text _))
      |>.apply (.single rfl (gives_text _))
      |>.apply (.single rfl (gives_int64 words.quantity))
      |>.apply (.single rfl (gives_int64 words.seenFilled))
      |>.apply (.single rfl (gives_nullable_int words.price))
      |>.apply (.single rfl (gives_nullable_int words.stopPrice))
      |>.apply (.single rfl ((gives_text _).present (text_ne_null _)))
      |>.apply (.single rfl (gives_nullable_int words.disclosed))
  exact fields.decoded (by simp) words.exact

/-! ## The bodies of the client -/

namespace Client

/-- The body of a new order has the members of its document in the market's own form. -/
theorem new_order_body_reordered (order : NewOrder) :
    order.toJson.Reordered (newOrderBody order) := by
  refine .object (.refl _) ?_
  refine (List.perm_ext_iff_of_nodup (.of_map Prod.fst ?_) (.of_map Prod.fst ?_)).mpr ?_
  · simp
  · simp
  · intro member
    simp only [List.map_cons, List.map_nil, List.mem_cons, List.not_mem_nil]
    grind

/-- The body of a cancellation loses nothing when it is written. -/
theorem CancelOptions.exact (options : CancelOptions) : options.body.isExact = true := by
  simp [body]

/-- The body of a cancellation names no quantity, which is taken for none. -/
theorem CancelOptions.decoded (options : CancelOptions) :
    Gives CancellationBody.fields.decode options.body options.request.body := by
  have fields :
      CancellationBody.fields.Gives (fun name => options.body.member? name)
        options.request.body :=
    (Fields.Gives.single rfl (gives_text _)).map _
      |>.apply (.single rfl (gives_text _))
      |>.apply (.single rfl (gives_text _))
      |>.apply (.single rfl (gives_text _))
      |>.apply (.single rfl (gives_text _))
      |>.apply (.single rfl (gives_text _))
      |>.apply (.left_out rfl)
  exact fields.decoded (by simp) options.exact

/-- Neither does that of a replacement within words. -/
theorem ReplaceOptions.exact {options : ReplaceOptions} (words : options.request.InWords) :
    options.body.isExact = true := by
  have quantity : (int options.quantity).isExact = true := exact_int words.quantity
  have seenFilled : (int options.seenFilled).isExact = true := exact_int words.seenFilled
  have price : (nullable int options.price).isExact = true := exact_nullable_int words.price
  have stopPrice : (nullable int options.stopPrice).isExact = true :=
    exact_nullable_int words.stopPrice
  simp [body, quantity, seenFilled, price, stopPrice]

/-- The body of a replacement does not say what to disclose, which is taken for all. -/
theorem ReplaceOptions.decoded {options : ReplaceOptions} (words : options.request.InWords) :
    Gives ReplacementBody.fields.decode options.body options.request.body := by
  have fields :
      ReplacementBody.fields.Gives (fun name => options.body.member? name)
        options.request.body :=
    (Fields.Gives.single rfl (gives_text _)).map _
      |>.apply (.single rfl (gives_text _))
      |>.apply (.single rfl (gives_text _))
      |>.apply (.single rfl (gives_text _))
      |>.apply (.single rfl (gives_text _))
      |>.apply (.single rfl (gives_text _))
      |>.apply (.single rfl (gives_int64 words.quantity))
      |>.apply (.single rfl (gives_int64 words.seenFilled))
      |>.apply (.single rfl (gives_nullable_int words.price))
      |>.apply (.single rfl (gives_nullable_int words.stopPrice))
      |>.apply (.single rfl ((gives_text _).present (text_ne_null _)))
      |>.apply (.left_out rfl)
  exact fields.decoded (by simp) (exact words)

/-- The parts of the path of an operation on an order are plain. -/
theorem plain_order_parts (order : OrderId) {operation : List Char}
    (letters : operation.all Char.isAlphanum = true) :
    PlainParts ["orders".toList, Text.digits order.value.toNat, operation] := by
  intro part listed
  simp only [List.mem_cons, List.not_mem_nil, or_false] at listed
  rcases listed with rfl | rfl | rfl
  · exact List.all_eq_true.mp (by decide)
  · exact fun c member => alphanum_of_digits member
  · exact List.all_eq_true.mp letters

/-- The target of an operation on an order. -/
theorem target_of_order (order : OrderId) {suffix : String} {operation : List Char}
    (written : suffix.toList = '/' :: operation) (letters : operation.all Char.isAlphanum = true) :
    targetOf (orderPath order ++ suffix) = String.ofList
      (pathOf ["orders".toList, Text.digits order.value.toNat, operation]) := by
  have same : orderPath order ++ suffix = String.ofList
      (pathOf ["orders".toList, Text.digits order.value.toNat, operation]) := by
    rw [← String.toList_inj]
    simp [orderPath, pathOf, Text.natural, written]
  rw [same, target_of_plain (plain_order_parts order letters)]

end Client

/-! ## What the service makes of them -/

namespace Service

/-- A document that the client sends, in whatever order of its members, is read as the body that
it gives. -/
theorem read_body_posted {α : Type} {fields : Fields α} {path : String} {document posted : Json}
    {value : α} (gives : Gives fields.decode document value) (exact : document.isExact = true)
    (reordered : document.Reordered posted) : readBody fields (post path posted) = .ok value := by
  have media : isJsonMediaType "application/json" = true := by decide
  have read : (readFirst posted.compact).1 = posted := by
    rw [read_first_compact (reordered.is_exact_eq.trans exact)]
  simp only [readBody, post, Option.any_some, media, read, gives posted reordered]
  rfl

/-- What is left of the service after a change. -/
def settled (service : Service) : Except Answer (Answer × Service) → Service
  | .ok (_, later) => later
  | .error _ => service

/-- A change is handled at the route of its path. -/
theorem handle_posted {service : Service} {path : String} {document : Json} {parts : List Char}
    {query : List Char} {route : Route} {outcome : Except Answer (Answer × Service)}
    (split : HttpRequest.splitTarget (targetOf path) = (parts, query))
    (routed : Route.ofPath parts = some route)
    (changed : service.change (post path document) route = some outcome) (now : Nat) :
    (service.handle now (post path document)).2 = service.settled outcome := by
  have target : (post path document).target = targetOf path := rfl
  have options : ((post path document).method == "OPTIONS") = false := rfl
  have asks : ((post path document).method == "GET" || (post path document).method == "HEAD") =
      false := rfl
  have posts : ((post path document).method == "POST") = true := rfl
  simp only [handle, target, split, options, routed, asks, posts, changed, Bool.false_eq_true,
    if_false, if_true]
  cases outcome <;> rfl

/-- The service reads the body of a new order as the client meant it. -/
theorem read_new {order : NewOrder} (words : order.InWords) :
    readBody NewOrderBody.fields (Command.new order).request = .ok order.body :=
  read_body_posted words.decoded_body words.exact (new_order_body_reordered order)

/-- So it does with that of a cancellation. -/
theorem read_cancel (options : CancelOptions) :
    readBody CancellationBody.fields (Command.cancel options).request =
      .ok options.request.body :=
  read_body_posted options.decoded options.exact (.same _)

/-- So it does with that of a replacement. -/
theorem read_replace {options : ReplaceOptions} (words : options.request.InWords) :
    readBody ReplacementBody.fields (Command.replace options).request =
      .ok options.request.body :=
  read_body_posted (ReplaceOptions.decoded words) (ReplaceOptions.exact words) (.same _)

/-- A new order of the client is the one that the market takes. -/
theorem submit_posted {order : NewOrder} (words : order.InWords) (service : Service) :
    service.settled (service.submitOrder (Command.new order).request) =
      service.perform (.submit order) := by
  have performed : service.perform (.submit order) =
      service.advance (service.market.submit order).2.1 (service.market.submit order).2.2 := by
    unfold perform Market.perform
    dsimp only
    cases Order.ofNew service.market.nextId order <;> rfl
  simp only [submitOrder, read_new words, bind, Except.bind, order.request_of_body, orFail,
    performed]
  cases (service.market.submit order).1 <;> rfl

/-- The part of a path that names an order is read as its identifier. -/
theorem read_order_part (order : OrderId) :
    orderPart (Text.digits order.value.toNat) = .ok (Text.natural order.value.toNat) ∧
      orderId (Text.natural order.value.toNat) = .ok order := by
  constructor
  · rw [orderPart, decoded_plain fun c member => alphanum_of_digits member]
    rfl
  · rw [orderId, OrderId.parse_digits]
    rfl

/-- A cancellation of the client is the one that the market carries out. -/
theorem cancel_posted (options : CancelOptions) (service : Service) :
    service.settled (service.cancelOrder (Text.digits options.order.value.toNat)
      (Command.cancel options).request) =
      service.perform (.cancel (.ofCancellation options.request)) := by
  obtain ⟨part, id⟩ := read_order_part options.order
  have built : options.request.body.request options.order = .ok options.request :=
    options.request.request_of_body
  simp only [cancelOrder, part, read_cancel, id, built, bind, Except.bind, orFail, perform,
    Market.perform]
  cases service.market.cancel (.ofCancellation options.request) <;> rfl

/-- A replacement of the client is the one that the market carries out, if its amounts are in
range. -/
theorem replace_posted {options : ReplaceOptions} (words : options.request.InWords)
    (service : Service) :
    service.settled (service.replaceOrder (Text.digits options.order.value.toNat)
      (Command.replace options).request) =
      match Order.ofReplacement options.request with
      | .ok image => service.perform (.replace image)
      | .error _ => service := by
  obtain ⟨part, id⟩ := read_order_part options.order
  have built : options.request.body.request options.order = .ok options.request :=
    options.request.request_of_body
  cases formed : Order.ofReplacement options.request with
  | error error =>
    simp only [replaceOrder, part, read_replace words, id, built, bind, Except.bind, orFail, formed]
    rfl
  | ok image =>
    simp only [replaceOrder, part, read_replace words, id, built, bind, Except.bind, orFail,
      formed, perform, Market.perform]
    cases service.market.replace image <;> rfl

/-! ## Paths of the client's requests -/

/-- The path for new orders leads to them. -/
theorem handle_new {order : NewOrder} (words : order.InWords) (service : Service) (now : Nat) :
    (service.handle now (Command.new order).request).2 = service.perform (.submit order) := by
  have split : HttpRequest.splitTarget (targetOf "/orders") = ("/orders".toList, []) := by
    rfl
  have routed : Route.ofPath "/orders".toList = some .orders := by
    rfl
  exact (handle_posted split routed rfl now).trans (submit_posted words service)

/-- The service finds the operation and the order in the path of an operation on an order. -/
theorem split_of_order (order : OrderId) {suffix : String} {operation : List Char}
    (written : suffix.toList = '/' :: operation) (letters : operation.all Char.isAlphanum = true) :
    HttpRequest.splitTarget (targetOf (orderPath order ++ suffix)) =
      (pathOf ["orders".toList, Text.digits order.value.toNat, operation], []) := by
  rw [target_of_order order written letters,
    HttpRequest.split_plain (plain_order_parts order letters)]

/-- The path of a cancellation leads to the cancellation of its order. -/
theorem route_of_cancel (order : OrderId) :
    Route.ofPath (pathOf ["orders".toList, Text.digits order.value.toNat, "cancel".toList]) =
      some (.cancel (Text.digits order.value.toNat)) := by
  rw [Route.ofPath, pieces_path (plain_order_parts order (by decide))]
  simp

/-- The path of a replacement leads to the replacement of its order. -/
theorem route_of_replace (order : OrderId) :
    Route.ofPath (pathOf ["orders".toList, Text.digits order.value.toNat, "replace".toList]) =
      some (.replace (Text.digits order.value.toNat)) := by
  rw [Route.ofPath, pieces_path (plain_order_parts order (by decide))]
  simp

/-- The service is left as the cancellation leaves it that the client asked for. -/
theorem handle_cancel (options : CancelOptions) (service : Service) (now : Nat) :
    (service.handle now (Command.cancel options).request).2 =
      service.perform (.cancel (.ofCancellation options.request)) := by
  have split := split_of_order options.order
    (show "/cancel".toList = '/' :: "cancel".toList from rfl) (by decide)
  have changed : service.change (post (orderPath options.order ++ "/cancel") options.body)
      (.cancel (Text.digits options.order.value.toNat)) =
      some (service.cancelOrder (Text.digits options.order.value.toNat)
        (Command.cancel options).request) := by
    rw [change, Command.request]
  rw [Command.request, handle_posted split (route_of_cancel options.order) changed now]
  exact cancel_posted options service

/-- It is left as the replacement leaves it that the client asked for, if that is in range. -/
theorem handle_replace {options : ReplaceOptions} (words : options.request.InWords)
    (service : Service) (now : Nat) :
    (service.handle now (Command.replace options).request).2 =
      match Order.ofReplacement options.request with
      | .ok image => service.perform (.replace image)
      | .error _ => service := by
  have split := split_of_order options.order
    (show "/replace".toList = '/' :: "replace".toList from rfl) (by decide)
  have changed : service.change (post (orderPath options.order ++ "/replace") options.body)
      (.replace (Text.digits options.order.value.toNat)) =
      some (service.replaceOrder (Text.digits options.order.value.toNat)
        (Command.replace options).request) := by
    rw [change, Command.request]
  rw [Command.request, handle_posted split (route_of_replace options.order) changed now]
  exact replace_posted words service

end Service

/-- What is typed is what is carried out.

A request in the market's own form is decoded as a body, whatever the order of its members, and
that body stands for the same request. The body of every command is read by the service as one
that stands for the request of the command, a cancellation of no quantity and a replacement that
discloses all; and the service is left as the operation on that request leaves it. Whatever is
read from a command line is such a command, and a line that gives every value by its name or its
place is read as the command that the values say, field by field. -/
theorem requests_arrive_as_typed :
    (∀ request : NewOrder, request.InWords →
      ∃ body, ComesBack NewOrderBody.fields request.toJson body ∧
        body.request = .ok request) ∧
    (∀ request : Cancellation, request.InWords →
      ∃ body, ComesBack CancellationBody.fields request.toJson body ∧
        body.request request.order = .ok request) ∧
    (∀ request : Replacement, request.InWords →
      ∃ body, ComesBack ReplacementBody.fields request.toJson body ∧
        body.request request.order = .ok request) ∧
    (∀ order : NewOrder, order.InWords →
      (∃ body, Service.readBody NewOrderBody.fields (Command.new order).request = .ok body ∧
        body.request = .ok order) ∧
      ∀ (service : Service) (now : Nat),
        (service.handle now (Command.new order).request).2 = service.perform (.submit order)) ∧
    (∀ options : CancelOptions,
      (∃ body,
        Service.readBody CancellationBody.fields (Command.cancel options).request = .ok body ∧
        body.request options.order = .ok options.request) ∧
      options.request.quantity = 0 ∧
      ∀ (service : Service) (now : Nat),
        (service.handle now (Command.cancel options).request).2 =
          service.perform (.cancel (.ofCancellation options.request))) ∧
    (∀ options : ReplaceOptions, options.request.InWords →
      (∃ body,
        Service.readBody ReplacementBody.fields (Command.replace options).request = .ok body ∧
        body.request options.order = .ok options.request) ∧
      options.request.disclosed = none ∧
      ∀ (service : Service) (now : Nat),
        (service.handle now (Command.replace options).request).2 =
          match Order.ofReplacement options.request with
          | .ok image => service.perform (.replace image)
          | .error _ => service) ∧
    (∀ arguments command, Command.read arguments = .ok command → command.InWords) ∧
    (∀ command options places,
      CommandLine.TakesAll (subcommandGrammar command.subcommand) options places →
      (Command.read (command.subcommand :: CommandLine.typedLine options places) = .ok command ↔
        Given.Says
          (CommandLine.typedValues (subcommandGrammar command.subcommand) options places)
          command)) := by
  refine ⟨?orders, ?cancellations, ?replacements, ?new, ?cancel, ?replace,
    fun _ _ => Command.read_in_words, fun _ _ _ => read_typed_iff⟩
  case orders =>
    intro request words
    exact ⟨request.body, words.decoded_body.comes_back words.exact, request.request_of_body⟩
  case cancellations =>
    intro request words
    exact ⟨request.body, words.decoded_body.comes_back words.exact, request.request_of_body⟩
  case replacements =>
    intro request words
    exact ⟨request.body, words.decoded_body.comes_back words.exact, request.request_of_body⟩
  case new =>
    intro order words
    exact ⟨⟨order.body, Service.read_new words, order.request_of_body⟩,
      Service.handle_new words⟩
  case cancel =>
    intro options
    exact ⟨⟨options.request.body, Service.read_cancel options, options.request.request_of_body⟩,
      rfl, Service.handle_cancel options⟩
  case replace =>
    intro options words
    exact ⟨⟨options.request.body, Service.read_replace words, options.request.request_of_body⟩,
      rfl, Service.handle_replace words⟩

/-- Command lines with numbers at both ends of a word, one for each kind of request. -/
theorem greatest_quantity_arrives :
    let typed := ["new", "-s", "say \"A\"", "-c", "1", "--side", " SELL ", "-t", "stop", "-q",
      "9223372036854775807", "--stop-price=-9223372036854775808"]
    let order : NewOrder :=
      ⟨"say \"A\"", "1", "cli", .sell, .stop, Word.greatest, none, some Word.least, .day, none⟩
    let typedCancel := ["cancel", "--orig-client-order-id=1", "-sA", "-c=2", "--sender", "s",
      "--side=ask", "18446744073709551615"]
    let cancellation : CancelOptions :=
      ⟨⟨18446744073709551615⟩, "1", "A", "2", "s", .sell, .limit⟩
    let request : Cancellation := ⟨⟨7⟩, "1", "A", "2", "", .sell, .stop, Word.least⟩
    let replaceValues := [("orig-client-order-id", "1"), ("security", "A"),
      ("client-order-id", "\\2"), ("sender", ""), ("side", "5"), ("type", "market"),
      ("qty", "9223372036854775807"), ("stop-price", "-9223372036854775808"), ("tif", "IOC")]
    let typedReplace := CommandLine.typedLine replaceValues ["18446744073709551615"]
    let options : ReplaceOptions :=
      ⟨⟨18446744073709551615⟩, "1", "A", "\\2", "", .sellShort, .market, Word.greatest, 0, none,
        some Word.least, .immediateOrCancel⟩
    Command.read typed = .ok (.new order) ∧ (Command.new order).InWords ∧
      Command.read typedCancel = .ok (.cancel cancellation) ∧
      Command.read ("replace" :: typedReplace) = .ok (.replace options) ∧
      (∃ body, ComesBack NewOrderBody.fields order.toJson body ∧ body.request = .ok order) ∧
      (∃ body, ComesBack CancellationBody.fields request.toJson body ∧
        body.request ⟨7⟩ = .ok request) ∧
      (∃ body, ComesBack ReplacementBody.fields options.request.toJson body ∧
        body.request options.order = .ok options.request) ∧
      (∃ body, Service.readBody NewOrderBody.fields (Command.new order).request = .ok body ∧
        body.request = .ok order) ∧
      (∃ body,
        Service.readBody CancellationBody.fields (Command.cancel cancellation).request = .ok body ∧
        body.request cancellation.order = .ok cancellation.request) ∧
      (∃ body,
        Service.readBody ReplacementBody.fields (Command.replace options).request = .ok body ∧
        body.request options.order = .ok options.request) := by
  intro typed order typedCancel cancellation request replaceValues typedReplace options
  obtain ⟨orders, cancellations, replacements, new, cancel, replace, read, named⟩ :=
    requests_arrive_as_typed
  have line : Command.read typed = .ok (.new order) := by rfl
  have takes : CommandLine.TakesAll (subcommandGrammar "replace") replaceValues
      ["18446744073709551615"] :=
    ⟨rfl, by decide, .cons (by rfl) .nil, by decide⟩
  have lineReplace : Command.read ("replace" :: typedReplace) = .ok (.replace options) :=
    (named (.replace options) _ _ takes).mpr (of_given_iff.mp (by rfl))
  exact ⟨line, read typed _ line, by rfl, lineReplace, orders order (by decide),
    cancellations request (by decide), replacements options.request (by decide),
    (new order (by decide)).1, (cancel cancellation).1, (replace options (by decide)).1⟩

end Bourse
