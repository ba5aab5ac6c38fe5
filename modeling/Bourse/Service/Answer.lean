import Bourse.Order.Request
import Bourse.Refusal
import Bourse.Wire.View

/-!
# Answers over HTTP

An answer has a status and, as a rule, a document. What the service does not
understand at all is answered in plain text or with nothing.
-/

namespace Bourse

/-- The content of an answer. -/
inductive Content where
  | none
  | plain (text : String)
  | document (value : Json)
  deriving Repr

/-- An answer over HTTP. -/
structure Answer where
  status : Nat
  content : Content
  deriving Repr

/-- Why a request is not carried out, once it has been read. -/
inductive RequestFailure where
  | request (error : RequestError)
  | refusal (refusal : Refusal)
  | invalidOrderId (text : String)
  deriving DecidableEq, Repr

namespace RequestFailure

/-- The status of a failure: what cannot be understood is a bad request, what cannot
be found is not found, and a replacement that does not go is unprocessable. -/
def status : RequestFailure → Nat
  | .request _ => 400
  | .invalidOrderId _ => 400
  | .refusal (.notReplaceable _) => 422
  | .refusal (.unknownOrder _) => 404
  | .refusal (.unknownSecurity _) => 404

/-- The wording of a failure. -/
def message : RequestFailure → String
  | .request error => error.message
  | .refusal cause => cause.message
  | .invalidOrderId text => "Invalid order id : " ++ text

/-- The document that a failure is answered with. -/
def toJson (failure : RequestFailure) : Json :=
  .record [("code", .nat failure.status), ("error", .text failure.message)]

/-- The answer to a request that failed. -/
def answer (failure : RequestFailure) : Answer := ⟨failure.status, .document failure.toJson⟩

end RequestFailure

namespace Answer

/-- The answer with a document to a query. -/
def found (value : Json) : Answer := ⟨200, .document value⟩

/-- The answer to a request that reached its book, under the identifier of its
order. -/
def accepted (status : Nat) (id : OrderId) : Answer := ⟨status, .document (acceptedJson id)⟩

/-- The words that go with a status. -/
def reason : Nat → String
  | 200 => "OK"
  | 201 => "Created"
  | 202 => "Accepted"
  | 400 => "Bad Request"
  | 404 => "Not Found"
  | 405 => "Method Not Allowed"
  | 415 => "Unsupported Media Type"
  | 422 => "Unprocessable Entity"
  | _ => ""

end Answer

end Bourse
