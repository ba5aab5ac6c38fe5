import Bourse.Json.Reader
import Bourse.Service.Answer
import Bourse.Service.Basic
import Bourse.Service.MediaType
import Bourse.Text.Percent
import Bourse.Wire.Body

/-!
# The service over HTTP

A request is routed by its path, then by its method. A path is matched as it is
written, and the part that names an order or a security is decoded afterwards. A
request that changes something is checked in a fixed order: the path, the content
type, the body, the identifier of the order, the names in the body, and last the
market; the first check that fails answers, and the market is left alone.

Any origin may call: an `OPTIONS` request is answered at every path. A `HEAD` request
is answered like `GET` but without content.
-/

namespace Bourse

/-- A request over HTTP. -/
structure HttpRequest where
  method : String
  /-- The path with its query, as it is written, or both behind a scheme and a server. -/
  target : String
  contentType : Option String
  body : String
  deriving Repr

/-- Where a request is routed to. -/
inductive Route where
  | health
  | securities
  | picture (security : List Char)
  | orders
  | cancel (order : List Char)
  | replace (order : List Char)
  | reportStream
  | pictureStream
  deriving DecidableEq, Repr

namespace HttpRequest

/-- Whether a character may stand in the name of a scheme. -/
def isSchemeChar (c : Char) : Bool := c.isAlphanum || c == '+' || c == '-' || c == '.'

/-- What a target asks for behind the server it names. A target begins with a slash, or
with a scheme and a server, which ends at a slash, a question mark or a number sign; any
other target asks for nothing. The server itself is not looked at. -/
def behindServer : List Char → List Char
  | '/' :: rest => '/' :: rest
  | target =>
    match target.dropWhile isSchemeChar with
    | ':' :: '/' :: '/' :: rest => rest.dropWhile fun c => !(c == '/' || c == '?' || c == '#')
    | _ => []

/-- The path and the query of a target. What stands behind a number sign is
neither. -/
def splitTarget (target : String) : List Char × List Char :=
  let cs := (behindServer target.toList).takeWhile (· != '#')
  (cs.takeWhile (· != '?'), (cs.dropWhile (· != '?')).drop 1)

end HttpRequest

/-- The route of a path. -/
def Route.ofPath (path : List Char) : Option Route :=
  match (Text.pieces '/' path).map String.ofList with
  | ["", "health"] => some .health
  | ["", "securities"] => some .securities
  | ["", "securities", security, "picture"] => some (.picture security.toList)
  | ["", "orders"] => some .orders
  | ["", "orders", order, "cancel"] => some (.cancel order.toList)
  | ["", "orders", order, "replace"] => some (.replace order.toList)
  | ["", "reports", "stream"] => some .reportStream
  | ["", "pictures", "stream"] => some .pictureStream
  | _ => none

/-- The text that a part of a path stands for. -/
def decodedPart (part : List Char) : Option String :=
  Text.readUtf8? (Text.percentDecoded (Text.utf8 (String.ofList part)))

/-- The sender that a query asks for, if it asks for one. -/
def senderFilter (query : List Char) : Except Unit (Option String) :=
  match (Text.queryPairs query).filter (·.1 == "sender_id") with
  | [] => .ok none
  | [(_, sender)] => .ok (some sender)
  | _ => .error ()

namespace Service

/-- The version of the service. -/
def version : String := "0.1.0"

/-- The state of the service at a time, in milliseconds. -/
def healthJson (service : Service) (now : Nat) : Json :=
  .record [
    ("market_active", .bool service.market.isActive),
    ("securities", .nat service.market.securities.length),
    ("service", .text "exchange-service"),
    ("status", .text "healthy"),
    ("timestamp", .nat now),
    ("version", .text version)]

/-- The answer to a part of a path that is no text. -/
def undecodable (name : String) : Answer :=
  ⟨400, .plain ("Invalid URL: Invalid UTF-8 in `" ++ name ++ "`")⟩

/-- The picture of the security that a part of a path names. -/
def showPicture (service : Service) (part : List Char) : Answer :=
  match decodedPart part with
  | none => undecodable "security"
  | some security =>
    match service.market.picture security with
    | .ok view => .found view.toJson
    | .error refusal => (RequestFailure.refusal refusal).answer

/-- The body of a request: of the right content type, beginning with a document, and
fitting its fields. What stands behind the document is left. -/
def readBody {α : Type} (fields : Json.Fields α) (request : HttpRequest) : Except Answer α :=
  if !request.contentType.any isJsonMediaType then
    .error ⟨415, .plain "Expected request with `Content-Type: application/json`"⟩
  else
    match fields.decode (Json.readFirst request.body).1 with
    | .ok body => .ok body
    | .error .text => .error ⟨400, .plain "Failed to parse the request body as JSON"⟩
    | .error .shape =>
      .error ⟨422, .plain "Failed to deserialize the JSON body into the target type"⟩

/-- A failure instead of an error. -/
def orFail {ε α : Type} (failure : ε → RequestFailure) : Except ε α → Except Answer α
  | .ok value => .ok value
  | .error error => .error (failure error).answer

/-- The part of a path that names an order, as a text. -/
def orderPart (part : List Char) : Except Answer String :=
  match decodedPart part with
  | some text => .ok text
  | none => .error (undecodable "order_id")

/-- The identifier that a text names. -/
def orderId (text : String) : Except Answer OrderId :=
  orFail (fun _ => .invalidOrderId text) (OrderId.parse text)

/-- A new order. -/
def submitOrder (service : Service) (request : HttpRequest) :
    Except Answer (Answer × Service) := do
  let body ← readBody NewOrderBody.fields request
  let order ← orFail .request body.request
  let (result, market, reports) := service.market.submit order
  match result with
  | .ok id => pure (.accepted 201 id, service.advance market reports)
  | .error error => pure ((RequestFailure.request error).answer, service.advance market reports)

/-- The cancellation of an order. -/
def cancelOrder (service : Service) (part : List Char) (request : HttpRequest) :
    Except Answer (Answer × Service) := do
  let text ← orderPart part
  let body ← readBody CancellationBody.fields request
  let id ← orderId text
  let cancellation ← orFail .request (body.request id)
  let (market, reports) ← orFail .refusal (service.market.cancel (.ofCancellation cancellation))
  pure (.accepted 202 id, service.advance market reports)

/-- The replacement of an order. -/
def replaceOrder (service : Service) (part : List Char) (request : HttpRequest) :
    Except Answer (Answer × Service) := do
  let text ← orderPart part
  let body ← readBody ReplacementBody.fields request
  let id ← orderId text
  let replacement ← orFail .request (body.request id)
  let image ← orFail .request (Order.ofReplacement replacement)
  let (market, reports) ← orFail .refusal (service.market.replace image)
  pure (.accepted 202 id, service.advance market reports)

/-- The answer to a request for a stream that does not ask for the change of
protocol that a stream needs. -/
def refuseStream (method : String) : Answer :=
  if method == "GET" then ⟨400, .plain "Connection header did not include 'upgrade'"⟩
  else ⟨405, .plain "Request method must be `GET`"⟩

/-- The answer to a query at a route, for `GET` and `HEAD`. -/
def query (service : Service) (now : Nat) (method : String) (queryText : List Char) :
    Route → Option Answer
  | .health => some (.found (service.healthJson now))
  | .securities => some (.found (securitiesJson service.market.securities))
  | .picture security => some (service.showPicture security)
  | .reportStream =>
    match senderFilter queryText with
    | .ok _ => some (refuseStream method)
    | .error _ =>
      some ⟨400, .plain "Failed to deserialize query string: duplicate field `sender_id`"⟩
  | .pictureStream => some (refuseStream method)
  | _ => none

/-- What a request for a change at a route leads to. -/
def change (service : Service) (request : HttpRequest) :
    Route → Option (Except Answer (Answer × Service))
  | .orders => some (service.submitOrder request)
  | .cancel order => some (service.cancelOrder order request)
  | .replace order => some (service.replaceOrder order request)
  | _ => none

/-- The answer to a request whose route does not have its method. -/
def methodNotAllowed : Answer := ⟨405, .none⟩

/-- The answer to a request, and the service after it. -/
def handle (service : Service) (now : Nat) (request : HttpRequest) : Answer × Service :=
  let (path, queryText) := HttpRequest.splitTarget request.target
  if request.method == "OPTIONS" then (⟨200, .none⟩, service)
  else
    match Route.ofPath path with
    | none => (⟨404, .none⟩, service)
    | some route =>
      if request.method == "GET" || request.method == "HEAD" then
        let answer := (service.query now request.method queryText route).getD methodNotAllowed
        (if request.method == "HEAD" then { answer with content := .none } else answer, service)
      else if request.method == "POST" then
        match service.change request route with
        | none => (methodNotAllowed, service)
        | some (.ok (answer, service)) => (answer, service)
        | some (.error answer) => (answer, service)
      else (methodNotAllowed, service)

end Service

end Bourse
