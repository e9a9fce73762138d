import Mathlib.Logic.Basic

/-!
# Protocol errors

The stable error codes of the protocol package and the check `protocolInvariant`
that raises them.
-/

namespace Chronolog

/-- The stable codes of protocol errors. -/
inductive ProtocolErrorCode
  | cborInvalid
  | cborNonCanonical
  | cborLimitExceeded
  | schemaInvalid
  | unsupportedVersion
  | integerOutOfRange
  | invalidUtf8
  | invalidKey
  | invalidSignature
  | digestMismatch
  | wrongDomain
  | duplicateTransaction
  deriving DecidableEq

/-- A protocol error: its code and its message. -/
structure ProtocolError where
  code : ProtocolErrorCode
  message : String
  deriving DecidableEq

/-- Raises an error unless the condition holds. -/
def protocolInvariant (condition : Bool) (code : ProtocolErrorCode) (message : String) :
    Except ProtocolError Unit :=
  if condition then .ok () else .error ⟨code, message⟩

@[simp]
theorem protocolInvariant_true (code : ProtocolErrorCode) (message : String) :
    protocolInvariant true code message = .ok () := rfl

@[simp]
theorem protocolInvariant_false (code : ProtocolErrorCode) (message : String) :
    protocolInvariant false code message = .error ⟨code, message⟩ := rfl

theorem protocolInvariant_eq_ok_iff {condition : Bool} {code : ProtocolErrorCode} {message : String}
    {u : Unit} : protocolInvariant condition code message = .ok u ↔ condition = true := by
  cases condition <;> simp

end Chronolog
