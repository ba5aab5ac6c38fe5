import Bourse.Order.Basic

/-!
# Refusals

Why a queue, a book or a market does not carry out what a well-formed request asks.
-/

namespace Bourse

/-- Why an operation is refused. -/
inductive Refusal where
  /-- No order with this identifier is where the request looks for it. -/
  | unknownOrder (id : OrderId)
  /-- The order cannot be replaced as asked. -/
  | notReplaceable (reason : String)
  /-- No order for this security was ever submitted. -/
  | unknownSecurity (security : String)
  deriving DecidableEq, Repr

/-- A replacement asks for no more than is filled already. -/
def Refusal.notAboveFilled : Refusal :=
  .notReplaceable "New order qty is less than filled qty"

/-- The wording of a refusal. -/
def Refusal.message : Refusal → String
  | .unknownOrder id => "Cannot find order : " ++ id.render
  | .notReplaceable reason => "Reject Replace : " ++ reason
  | .unknownSecurity security => "Cannot find securityId : " ++ security

end Bourse
