import Bourse.CommandLine
import Bourse.Json.Writer
import Bourse.Service.Http
import Bourse.Client.Target

/-!
# The client's commands

The client turns a command line into one request over HTTP. Sides, types and times in
force are read as the service reads them and sent by their names in documents.
-/

namespace Bourse.Client

/-- What the command line says about a cancellation. -/
structure CancelOptions where
  order : OrderId
  previousClientOrderId : String
  security : String
  clientOrderId : String
  sender : String
  side : Side
  type : OrderType
  deriving DecidableEq, Repr

/-- What the command line says about a replacement. -/
structure ReplaceOptions where
  order : OrderId
  previousClientOrderId : String
  security : String
  clientOrderId : String
  sender : String
  side : Side
  type : OrderType
  quantity : Int
  seenFilled : Int
  price : Option Int
  stopPrice : Option Int
  timeInForce : TimeInForce
  deriving DecidableEq, Repr

/-- What the client is asked to do. -/
inductive Command where
  | new (order : NewOrder)
  | cancel (options : CancelOptions)
  | replace (options : ReplaceOptions)
  | picture (security : String)
  | securities
  | health
  deriving DecidableEq, Repr

/-- The cancellation that is asked for; it names no quantity. -/
def CancelOptions.request (options : CancelOptions) : Cancellation where
  order := options.order
  previousClientOrderId := options.previousClientOrderId
  security := options.security
  clientOrderId := options.clientOrderId
  sender := options.sender
  side := options.side
  type := options.type
  quantity := 0

/-- The replacement that is asked for; it shows all that is pending. -/
def ReplaceOptions.request (options : ReplaceOptions) : Replacement where
  order := options.order
  previousClientOrderId := options.previousClientOrderId
  security := options.security
  clientOrderId := options.clientOrderId
  sender := options.sender
  side := options.side
  type := options.type
  quantity := options.quantity
  seenFilled := options.seenFilled
  price := options.price
  stopPrice := options.stopPrice
  timeInForce := options.timeInForce
  disclosed := none

/-! ## The command line -/

/-- The options that say for whom and for what an order is. -/
def identityRules : List OptionRule :=
  [⟨"security", some 's', .value .any⟩,
   ⟨"sender", none, .value .any⟩,
   ⟨"client-order-id", some 'c', .value .any⟩,
   ⟨"side", none, .value (.readBy Side.parse)⟩,
   ⟨"type", some 't', .value (.readBy OrderType.parse)⟩,
   CommandLine.helpRule]

/-- The options that only a new order or a replacement has. -/
def termsRules : List OptionRule :=
  [⟨"qty", some 'q', .value .integer⟩,
   ⟨"price", some 'p', .value .integer⟩,
   ⟨"stop-price", none, .value .integer⟩,
   ⟨"tif", none, .value (.readBy TimeInForce.parse)⟩]

/-- The option that names an order as its sender last did. -/
def previousRule : OptionRule := ⟨"orig-client-order-id", none, .value .any⟩

/-- The identifier of an order by its place. -/
def orderRule : PositionalRule := ⟨"order_id", .natural⟩

/-- The whole command line: the server, then a subcommand with its own arguments. -/
def grammar : Grammar where
  options := [⟨"server", some 's', .value .any⟩, CommandLine.helpRule]
  positionals := []
  subcommands := ["new", "cancel", "replace", "picture", "securities", "health", "help"]

/-- The arguments of a subcommand. -/
def subcommandGrammar : String → Grammar
  | "new" =>
    ⟨identityRules ++ termsRules ++ [⟨"disclosed-qty", none, .value .integer⟩], [], []⟩
  | "cancel" => ⟨previousRule :: identityRules, [orderRule], []⟩
  | "replace" =>
    ⟨previousRule :: ⟨"cum-qty", none, .value .integer⟩ :: identityRules ++ termsRules,
      [orderRule], []⟩
  | "picture" => ⟨[CommandLine.helpRule], [⟨"security", .any⟩], []⟩
  | _ => ⟨[CommandLine.helpRule], [], []⟩

/-- The values that a subcommand was given. -/
abbrev Given := List (String × String)

namespace Given

/-- A value that has to be there. -/
def required (given : Given) (name : String) : Except Halt String :=
  match given.lookup name with
  | some value => .ok value
  | none => .error .missingArgument

/-- A value as a reader reads it, or the value it has when it is not given. -/
def readBy {ε α : Type} (given : Given) (name : String) (read : String → Except ε α)
    (absent : Except Halt α) : Except Halt α :=
  match given.lookup name with
  | none => absent
  | some text =>
    match read text with
    | .ok value => .ok value
    | .error _ => .error .unfitValue

/-- The signed integer of a text. -/
def toInteger (text : String) : Except Unit Int :=
  match Text.readInteger text.toList with
  | some value => .ok value
  | none => .error ()

/-- An integer that may be left out. -/
def integer? (given : Given) (name : String) : Except Halt (Option Int) :=
  given.readBy name (fun text => (toInteger text).map some) (.ok none)

/-- The order that the line names by its place. -/
def order (given : Given) : Except Halt OrderId :=
  given.readBy "order_id" OrderId.parse (.error .missingArgument)

/-- The side, which has to be there. -/
def side (given : Given) : Except Halt Side :=
  given.readBy "side" Side.parse (.error .missingArgument)

/-- The type of the order: a limit order unless the line says otherwise. -/
def type (given : Given) : Except Halt OrderType :=
  given.readBy "type" OrderType.parse (.ok .limit)

/-- The time in force: the day unless the line says otherwise. -/
def timeInForce (given : Given) : Except Halt TimeInForce :=
  given.readBy "tif" TimeInForce.parse (.ok .day)

/-- The quantity, which has to be there. -/
def quantity (given : Given) : Except Halt Int :=
  given.readBy "qty" toInteger (.error .missingArgument)

/-- The sender: the client itself unless the line says otherwise. -/
def sender (given : Given) : String := (given.lookup "sender").getD "cli"

/-- The new order that a line asks for. -/
def newOrder (given : Given) : Except Halt NewOrder := do
  pure {
    security := ← given.required "security"
    clientOrderId := ← given.required "client-order-id"
    sender := given.sender
    side := ← given.side
    type := ← given.type
    quantity := ← given.quantity
    price := ← given.integer? "price"
    stopPrice := ← given.integer? "stop-price"
    timeInForce := ← given.timeInForce
    disclosed := ← given.integer? "disclosed-qty" }

/-- The cancellation that a line asks for. -/
def cancelOptions (given : Given) : Except Halt CancelOptions := do
  pure {
    order := ← given.order
    previousClientOrderId := ← given.required "orig-client-order-id"
    security := ← given.required "security"
    clientOrderId := ← given.required "client-order-id"
    sender := given.sender
    side := ← given.side
    type := ← given.type }

/-- The replacement that a line asks for. -/
def replaceOptions (given : Given) : Except Halt ReplaceOptions := do
  pure {
    order := ← given.order
    previousClientOrderId := ← given.required "orig-client-order-id"
    security := ← given.required "security"
    clientOrderId := ← given.required "client-order-id"
    sender := given.sender
    side := ← given.side
    type := ← given.type
    quantity := ← given.quantity
    seenFilled := ← given.readBy "cum-qty" toInteger (.ok 0)
    price := ← given.integer? "price"
    stopPrice := ← given.integer? "stop-price"
    timeInForce := ← given.timeInForce }

end Given

/-- Why a command line gives no command: it asks for a page of the help, on a
subcommand or on the whole client, or it cannot be read. -/
inductive Stop where
  | help (topic : Option String)
  | halt (reason : Halt)
  deriving DecidableEq, Repr

/-- A reading on a topic. -/
def onTopic {α : Type} (topic : Option String) : Except Halt α → Except Stop α
  | .ok value => .ok value
  | .error .help => .error (.help topic)
  | .error halt => .error (.halt halt)

/-- The command that the values of a subcommand make. -/
def ofGiven (name : String) (given : Given) : Except Halt Command :=
  match name with
  | "new" => (Given.newOrder given).map .new
  | "cancel" => (Given.cancelOptions given).map .cancel
  | "replace" => (Given.replaceOptions given).map .replace
  | "picture" => (Given.required given "security").map .picture
  | "securities" => .ok .securities
  | _ => .ok .health

/-- The page that stands behind `help`: that of the whole client, or of the one
subcommand that is named. -/
def readTopic : List String → Stop
  | [] => .help none
  | [topic] =>
    if grammar.subcommands.contains topic then .help (some topic) else .halt .unknownSubcommand
  | _ => .halt .unknownSubcommand

/-- The command of a subcommand and its arguments. -/
def readSubcommand (name : String) (arguments : List String) : Except Stop Command :=
  if name = "help" then .error (readTopic arguments)
  else
    onTopic (some name) do
      let given ← CommandLine.read (subcommandGrammar name) arguments
      ofGiven name given

/-- The command of a command line. -/
def Command.read (arguments : List String) : Except Stop Command := do
  let (progress, subcommand) ← onTopic none (CommandLine.scan grammar .start false arguments)
  match subcommand with
  | none =>
    let _ ← onTopic none progress.resolve
    throw (.halt .missingSubcommand)
  | some (name, rest) =>
    let command ← readSubcommand name rest
    let _ ← onTopic none progress.resolve
    pure command

/-- The server that a command line names in front of its subcommand, if it names one. -/
def Command.server? (arguments : List String) : Option String :=
  match CommandLine.scan grammar .start false arguments with
  | .error _ => none
  | .ok (progress, _) =>
    match progress.resolve with
    | .error _ => none
    | .ok progress => progress.given.lookup "server"

/-! ## The request -/

/-- The body of a new order. -/
def newOrderBody (order : NewOrder) : Json :=
  .record [
    ("client_order_id", .text order.clientOrderId),
    ("disclosed_qty", .nullable .int order.disclosed),
    ("order_type", order.type.toJson),
    ("price", .nullable .int order.price),
    ("qty", .int order.quantity),
    ("security_id", .text order.security),
    ("sender_id", .text order.sender),
    ("side", order.side.toJson),
    ("stop_price", .nullable .int order.stopPrice),
    ("time_in_force", order.timeInForce.toJson)]

/-- The body of a cancellation. -/
def CancelOptions.body (options : CancelOptions) : Json :=
  .record [
    ("client_order_id", .text options.clientOrderId),
    ("order_type", options.type.toJson),
    ("original_client_order_id", .text options.previousClientOrderId),
    ("security_id", .text options.security),
    ("sender_id", .text options.sender),
    ("side", options.side.toJson)]

/-- The body of a replacement. -/
def ReplaceOptions.body (options : ReplaceOptions) : Json :=
  .record [
    ("client_order_id", .text options.clientOrderId),
    ("cum_qty", .int options.seenFilled),
    ("order_type", options.type.toJson),
    ("original_client_order_id", .text options.previousClientOrderId),
    ("price", .nullable .int options.price),
    ("qty", .int options.quantity),
    ("security_id", .text options.security),
    ("sender_id", .text options.sender),
    ("side", options.side.toJson),
    ("stop_price", .nullable .int options.stopPrice),
    ("time_in_force", options.timeInForce.toJson)]

/-- A request that sends a document. -/
def post (path : String) (body : Json) : HttpRequest :=
  ⟨"POST", targetOf path, some "application/json", body.compact⟩

/-- A request that asks for something. -/
def get (path : String) : HttpRequest := ⟨"GET", targetOf path, none, ""⟩

/-- The path of an order. -/
def orderPath (order : OrderId) : String := "/orders/" ++ Text.natural order.value.toNat

/-- The request that a command makes of a server whose address ends with its host. The name
of a security goes into the address as it is. -/
def Command.request : Command → HttpRequest
  | .new order => post "/orders" (newOrderBody order)
  | .cancel options => post (orderPath options.order ++ "/cancel") options.body
  | .replace options => post (orderPath options.order ++ "/replace") options.body
  | .picture security => get ("/securities/" ++ security ++ "/picture")
  | .securities => get "/securities"
  | .health => get "/health"

end Bourse.Client
