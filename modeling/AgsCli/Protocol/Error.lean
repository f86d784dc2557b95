import Mathlib.Tactic.Common

/-! # Runtime errors

The structured error every runtime call can return, without its execution trace. -/
namespace ProtocolError

inductive RuntimeErrorKind
  | notAuthenticated
  | forbidden
  | notFound
  | validation
  | rejected
  | upstream (status : Nat) (code : Option String)
  | network
  | responseTooLarge
  | internal
  deriving DecidableEq, Repr

structure ErrorDetails where
  code : Option String
  reason : Option String
  detail : Option String
  deriving DecidableEq, Repr

structure RuntimeError where
  kind : RuntimeErrorKind
  message : String
  details : Option ErrorDetails
  hint : Option String
  deriving DecidableEq, Repr

def RuntimeError.internal (message : String) : RuntimeError :=
  { kind := .internal, message, details := none, hint := none }

def RuntimeError.validation (message : String) : RuntimeError :=
  { kind := .validation, message, details := none, hint := none }

def RuntimeErrorKind.telemetryClass : RuntimeErrorKind → String
  | .notAuthenticated => "auth"
  | .forbidden => "permission"
  | .notFound => "not_found"
  | .validation => "usage"
  | .rejected => "rejected"
  | .upstream _ _ | .responseTooLarge => "upstream"
  | .network => "network"
  | .internal => "internal"

end ProtocolError
