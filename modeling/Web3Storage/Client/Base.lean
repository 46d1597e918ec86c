import Mathlib

/-!
# How calls of the client end
-/

set_option autoImplicit false
set_option relaxedAutoImplicit false

namespace Web3Storage.Client

/-- What the client reports: a request that did not complete, a refused one, a body it cannot read,
data that does not match its hash, a chain read that failed, or a missing setting. -/
inductive ClientError where
  | http (message : String)
  | httpStatus (request : String) (status : ℕ)
  | serialization (message : String)
  | verificationFailed
  | chain (message : String)
  | config (message : String)
  deriving DecidableEq

/-- How a call ends: with a result, or with a panic. -/
inductive Outcome (α : Type) where
  | panics
  | returns (result : Except ClientError α)

end Web3Storage.Client
