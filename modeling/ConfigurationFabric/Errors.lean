import Mathlib.Algebra.Group.Nat.Defs
import Mathlib.Data.Nat.Basic

namespace ConfigurationFabric

inductive ErrorCode
  | ok
  | invalidArgument | outOfRange | arithmeticOverflow | malformedInput
  | unsupportedVersion | unsupportedFeature | missingField
  | notFound | alreadyExists | conflict | preconditionFailed
  | staleGeneration | staleEpoch | fencedIncarnation | generationConflict
  | digestMismatch | integrityFailure | sizeMismatch | schemaUnsupported
  | guaranteeUnsupported | policyDenied | unauthenticated | unauthorized
  | replayDetected | duplicateSuppressed | retired
  | protocolViolation | oversizePayload | truncatedFrame | reorderedFrame
  | unexpectedMessage | capabilityMismatch
  | ioFailure | connectionRefused | connectionReset | connectionClosed
  | peerIdleTimeout | openFailed
  | capacityExceeded | queueFull | storeFull | limitExceeded
  | illegalTransition | applyFailed | applyUncertain | notPrepared
  | rolledBack | artifactUnavailable
  | cancelled | shuttingDown | busy | internal
  deriving DecidableEq, Repr

/-- The numeric value of a code on the wire and in the journal. -/
def ErrorCode.value : ErrorCode → ℕ
  | .ok => 0
  | .invalidArgument => 100 | .outOfRange => 101 | .arithmeticOverflow => 102
  | .malformedInput => 103 | .unsupportedVersion => 104 | .unsupportedFeature => 105
  | .missingField => 106
  | .notFound => 200 | .alreadyExists => 201 | .conflict => 202 | .preconditionFailed => 203
  | .staleGeneration => 300 | .staleEpoch => 301 | .fencedIncarnation => 302
  | .generationConflict => 303 | .digestMismatch => 304 | .integrityFailure => 305
  | .sizeMismatch => 306 | .schemaUnsupported => 307 | .guaranteeUnsupported => 308
  | .policyDenied => 309 | .unauthenticated => 310 | .unauthorized => 311
  | .replayDetected => 312 | .duplicateSuppressed => 313 | .retired => 314
  | .protocolViolation => 400 | .oversizePayload => 401 | .truncatedFrame => 402
  | .reorderedFrame => 403 | .unexpectedMessage => 404 | .capabilityMismatch => 405
  | .ioFailure => 500 | .connectionRefused => 501 | .connectionReset => 502
  | .connectionClosed => 503 | .peerIdleTimeout => 504 | .openFailed => 505
  | .capacityExceeded => 600 | .queueFull => 601 | .storeFull => 602 | .limitExceeded => 603
  | .illegalTransition => 700 | .applyFailed => 701 | .applyUncertain => 702
  | .notPrepared => 703 | .rolledBack => 704 | .artifactUnavailable => 705
  | .cancelled => 800 | .shuttingDown => 801 | .busy => 802 | .internal => 803

def ErrorCode.ofValue : ℕ → Option ErrorCode
  | 0 => some .ok | 100 => some .invalidArgument | 101 => some .outOfRange | 102 => some .arithmeticOverflow
  | 103 => some .malformedInput | 104 => some .unsupportedVersion | 105 => some .unsupportedFeature
  | 106 => some .missingField | 200 => some .notFound | 201 => some .alreadyExists
  | 202 => some .conflict | 203 => some .preconditionFailed | 300 => some .staleGeneration
  | 301 => some .staleEpoch | 302 => some .fencedIncarnation | 303 => some .generationConflict
  | 304 => some .digestMismatch | 305 => some .integrityFailure | 306 => some .sizeMismatch
  | 307 => some .schemaUnsupported | 308 => some .guaranteeUnsupported | 309 => some .policyDenied
  | 310 => some .unauthenticated | 311 => some .unauthorized | 312 => some .replayDetected
  | 313 => some .duplicateSuppressed | 314 => some .retired | 400 => some .protocolViolation
  | 401 => some .oversizePayload | 402 => some .truncatedFrame | 403 => some .reorderedFrame
  | 404 => some .unexpectedMessage | 405 => some .capabilityMismatch | 500 => some .ioFailure
  | 501 => some .connectionRefused | 502 => some .connectionReset | 503 => some .connectionClosed
  | 504 => some .peerIdleTimeout | 505 => some .openFailed | 600 => some .capacityExceeded
  | 601 => some .queueFull | 602 => some .storeFull | 603 => some .limitExceeded
  | 700 => some .illegalTransition | 701 => some .applyFailed | 702 => some .applyUncertain
  | 703 => some .notPrepared | 704 => some .rolledBack | 705 => some .artifactUnavailable
  | 800 => some .cancelled | 801 => some .shuttingDown | 802 => some .busy | 803 => some .internal
  | _ => none

def errorCodeName : ErrorCode → String
  | .ok => "Ok" | .invalidArgument => "InvalidArgument" | .outOfRange => "OutOfRange"
  | .arithmeticOverflow => "ArithmeticOverflow" | .malformedInput => "MalformedInput"
  | .unsupportedVersion => "UnsupportedVersion" | .unsupportedFeature => "UnsupportedFeature"
  | .missingField => "MissingField" | .notFound => "NotFound" | .alreadyExists => "AlreadyExists"
  | .conflict => "Conflict" | .preconditionFailed => "PreconditionFailed"
  | .staleGeneration => "StaleGeneration" | .staleEpoch => "StaleEpoch"
  | .fencedIncarnation => "FencedIncarnation" | .generationConflict => "GenerationConflict"
  | .digestMismatch => "DigestMismatch" | .integrityFailure => "IntegrityFailure"
  | .sizeMismatch => "SizeMismatch" | .schemaUnsupported => "SchemaUnsupported"
  | .guaranteeUnsupported => "GuaranteeUnsupported" | .policyDenied => "PolicyDenied"
  | .unauthenticated => "Unauthenticated" | .unauthorized => "Unauthorized"
  | .replayDetected => "ReplayDetected" | .duplicateSuppressed => "DuplicateSuppressed"
  | .retired => "Retired" | .protocolViolation => "ProtocolViolation"
  | .oversizePayload => "OversizePayload" | .truncatedFrame => "TruncatedFrame"
  | .reorderedFrame => "ReorderedFrame" | .unexpectedMessage => "UnexpectedMessage"
  | .capabilityMismatch => "CapabilityMismatch" | .ioFailure => "IoFailure"
  | .connectionRefused => "ConnectionRefused" | .connectionReset => "ConnectionReset"
  | .connectionClosed => "ConnectionClosed" | .peerIdleTimeout => "PeerIdleTimeout"
  | .openFailed => "OpenFailed" | .capacityExceeded => "CapacityExceeded" | .queueFull => "QueueFull"
  | .storeFull => "StoreFull" | .limitExceeded => "LimitExceeded"
  | .illegalTransition => "IllegalTransition" | .applyFailed => "ApplyFailed"
  | .applyUncertain => "ApplyUncertain" | .notPrepared => "NotPrepared" | .rolledBack => "RolledBack"
  | .artifactUnavailable => "ArtifactUnavailable" | .cancelled => "Cancelled"
  | .shuttingDown => "ShuttingDown" | .busy => "Busy" | .internal => "Internal"

structure Error where
  code : ErrorCode
  message : String
  detail : String := ""
  deriving DecidableEq, Repr

def Error.str (e : Error) : String :=
  errorCodeName e.code ++ (if e.message = "" then "" else ": " ++ e.message) ++
    (if e.detail = "" then "" else " [" ++ e.detail ++ "]")

abbrev Result (α : Type) := Except Error α

abbrev Status := Result Unit

namespace Result

variable {α β : Type}

def fail (code : ErrorCode) (message : String) (detail : String := "") : Result α :=
  .error ⟨code, message, detail⟩

def isOk : Result α → Bool
  | .ok _ => true
  | .error _ => false

theorem bind_eq_ok {x : Result α} {f : α → Result β} {b : β} :
    x >>= f = .ok b ↔ ∃ a, x = .ok a ∧ f a = .ok b := by
  cases x with
  | error e => simp [bind, Except.bind]
  | ok a => simp [bind, Except.bind]

theorem map_eq_ok {f : α → β} {x : Result α} {b : β} : f <$> x = .ok b ↔ ∃ a, x = .ok a ∧ f a = b := by
  cases x with
  | error e => exact iff_of_false (fun h => nomatch h) (fun ⟨_, h, _⟩ => nomatch h)
  | ok a =>
    constructor
    · exact fun h => ⟨a, rfl, Except.ok.inj h⟩
    · rintro ⟨_, ⟨⟩, rfl⟩
      rfl

end Result

-- the unsigned operations of `checked.hpp` at 64 bits
def checkedAdd (a b : ℕ) : Option ℕ := if a > 2 ^ 64 - 1 - b then none else some (a + b)

def checkedMul (a b : ℕ) : Option ℕ := if a ≠ 0 ∧ b > (2 ^ 64 - 1) / a then none else some (a * b)

end ConfigurationFabric
