import Bourse.Client.Command
import Bourse.Client.Help

/-!
# The client's output

The client prints what the service answers. An answer that it cannot read makes it
fail, and so does a server that does not answer; an answer that says what went wrong is
printed, and that is not a failure.
-/

namespace Bourse.Client

/-- How the client ends: its exit code and what it printed. -/
structure Outcome where
  exit : Nat
  output : String
  deriving DecidableEq, Repr

/-- The client after printing lines. -/
def printed (lines : List String) : Outcome := ⟨0, String.join (lines.map (· ++ "\n"))⟩

/-- The client after an answer that it cannot read, or after none. -/
def failed : Outcome := ⟨1, ""⟩

/-- The word for a trend. -/
def trendWord : Trend → String
  | .up => "Up"
  | .down => "Down"
  | .flat => "Flat"

/-- A row of the depth: purchases on the left, sales on the right. -/
def depthLine (bidQuantity bid ask askQuantity : String) : String :=
  "  " ++ Text.alignRight 10 bidQuantity ++ " " ++ Text.alignRight 10 bid ++ " | " ++
    Text.alignLeft 10 ask ++ " " ++ Text.alignLeft 10 askQuantity

/-- The lines of a record. -/
def recordLines (record : Record) : List String :=
  let int := Text.integer
  ["Security: " ++ record.security,
   "Open " ++ int record.openPrice ++ " High " ++ int record.highPrice ++
     " Low " ++ int record.lowPrice ++ " Close " ++ int record.closePrice,
   "Last " ++ int record.lastPrice ++ " x " ++ int record.lastQuantity ++
     " (" ++ trendWord record.trend ++ "), trades " ++ int record.trades ++
     ", volume " ++ int record.volume ++ ", value " ++ int record.value,
   "Circuit " ++ int record.lowerLimit ++ " - " ++ int record.upperLimit,
   "",
   depthLine "Bid qty" "Bid" "Ask" "Ask qty"] ++
  record.depth.toList.map fun row =>
    depthLine (int row.buy.quantity) (int row.buy.price) (int row.sell.price)
      (int row.sell.quantity)

/-- The text of an answer's content. -/
def contentText : Content → String
  | .none => ""
  | .plain text => text
  | .document value => value.compact

/-- The first line about an answer that says what went wrong. -/
def errorLine (answer : Answer) : String :=
  "Error: " ++ Text.natural answer.status ++ " " ++ Answer.reason answer.status

/-- What a document gives for fields, if it does. -/
def readContent {α : Type} (fields : Json.Fields α) : Content → Option α
  | .document value => (fields.decode value).toOption
  | _ => none

/-- A truth value. -/
def toBool : Json → Except Json.Fault Bool
  | .bool value => .ok value
  | other => .error (Json.mismatch other)

/-- The fields of the answer to a request that reached its book. -/
def acceptedFields : Json.Fields (OrderId × String) :=
  Prod.mk <$> .required "order_id" OrderId.ofJson <*> .required "status" Json.toText

/-- The fields of the answer to a query on a security. -/
def viewFields : Json.Fields (Bool × Record) :=
  Prod.mk <$> .required "is_active" toBool <*> .required "record" (Record.fields .direct).decode

/-- The fields of the answer to the question for the securities. -/
def securitiesFields : Json.Fields (List String) :=
  .required "securities" (Json.toList Json.toText)

/-- The lines that a successful answer to a command makes, if the client can read
it. -/
def successLines (content : Content) : Command → Option (List String)
  | .picture _ =>
    (readContent viewFields content).map fun (isActive, record) =>
      recordLines record ++ if isActive then [] else ["", "market is closed"]
  | .securities => readContent securitiesFields content
  | .health =>
    match content with
    | .document value => some [value.indented]
    | _ => none
  | _ =>
    (readContent acceptedFields content).map fun (order, status) =>
      ["Order ID: " ++ order.render, "Status: " ++ status]

/-- How the client ends after the answer to its command. -/
def Command.outcome (command : Command) (answer : Answer) : Outcome :=
  if 200 ≤ answer.status ∧ answer.status < 300 then
    match successLines answer.content command with
    | some lines => printed lines
    | none => failed
  else
    match command with
    | .securities => printed [errorLine answer]
    | .health => printed [errorLine answer]
    | _ => printed [errorLine answer, contentText answer.content]

/-- How the client ends when its command line gives no command: well after a call for
help, badly after anything else. -/
def Stop.outcome : Stop → Outcome
  | .help topic => ⟨0, (helpPage topic).render⟩
  | .halt _ => ⟨2, ""⟩

/-- The client on a command line that names no server, with the service that it talks to
then. -/
def run (service : Service) (now : Nat) (arguments : List String) : Outcome × Service :=
  match Command.read arguments with
  | .error stop => (stop.outcome, service)
  | .ok command =>
    let (answer, service) := service.handle now command.request
    (command.outcome answer, service)

/-- The client on a command line when no server answers it. -/
def runUnanswered (arguments : List String) : Outcome :=
  match Command.read arguments with
  | .error stop => stop.outcome
  | .ok _ => failed

end Bourse.Client
