import ConfigurationFabric.Ids

namespace ConfigurationFabric

open LittleEndian

inductive DeliveryState
  | prepared | offered | transferred | verified | staged | applied | acknowledged | failed | rejected | retired
  deriving DecidableEq, Repr

def DeliveryState.value : DeliveryState → ℕ
  | .prepared => 1 | .offered => 2 | .transferred => 3 | .verified => 4 | .staged => 5 | .applied => 6
  | .acknowledged => 7 | .failed => 8 | .rejected => 9 | .retired => 10

def DeliveryState.ofValue : ℕ → Option DeliveryState
  | 1 => some .prepared | 2 => some .offered | 3 => some .transferred | 4 => some .verified
  | 5 => some .staged | 6 => some .applied | 7 => some .acknowledged | 8 => some .failed
  | 9 => some .rejected | 10 => some .retired
  | _ => none

def isActivationState (s : DeliveryState) : Bool := s == .applied || s == .acknowledged

def isTerminalState (s : DeliveryState) : Bool := s == .acknowledged || s == .rejected || s == .retired

def isPendingState : DeliveryState → Bool
  | .prepared | .offered | .transferred | .verified | .staged | .applied | .failed => true
  | _ => false

def isLegalTransition : DeliveryState → DeliveryState → Bool
  | .prepared, .offered | .prepared, .applied | .prepared, .failed | .prepared, .rejected
  | .prepared, .retired => true
  | .offered, .transferred | .offered, .applied | .offered, .failed | .offered, .rejected
  | .offered, .retired => true
  | .transferred, .verified | .transferred, .applied | .transferred, .failed | .transferred, .rejected
  | .transferred, .retired => true
  | .verified, .staged | .verified, .applied | .verified, .failed | .verified, .rejected
  | .verified, .retired => true
  | .staged, .applied | .staged, .failed | .staged, .rejected | .staged, .retired => true
  | .applied, .acknowledged | .applied, .failed | .applied, .retired => true
  | .acknowledged, .retired => true
  | .failed, .prepared | .failed, .applied | .failed, .rejected | .failed, .retired => true
  | .rejected, .retired => true
  | _, _ => false

inductive EvidenceKind
  | created | offeredToTarget | bytesAccepted | digestVerified | stagedAtTarget | applyPrepared
  | activationReported | acknowledgementRecorded | reconcileObserved | failureReported | refused
  | superseded | retried
  deriving DecidableEq, Repr

def EvidenceKind.value : EvidenceKind → ℕ
  | .created => 1 | .offeredToTarget => 2 | .bytesAccepted => 3 | .digestVerified => 4
  | .stagedAtTarget => 5 | .applyPrepared => 6 | .activationReported => 7
  | .acknowledgementRecorded => 8 | .reconcileObserved => 9 | .failureReported => 10 | .refused => 11
  | .superseded => 12 | .retried => 13

def EvidenceKind.ofValue : ℕ → Option EvidenceKind
  | 1 => some .created | 2 => some .offeredToTarget | 3 => some .bytesAccepted
  | 4 => some .digestVerified | 5 => some .stagedAtTarget | 6 => some .applyPrepared
  | 7 => some .activationReported | 8 => some .acknowledgementRecorded | 9 => some .reconcileObserved
  | 10 => some .failureReported | 11 => some .refused | 12 => some .superseded | 13 => some .retried
  | _ => none

inductive RetryDirective
  | doNotRetry | retryNow | retryWithBackoff | retryNewSession | retryAfterReconcile | terminal
  deriving DecidableEq, Repr

def RetryDirective.value : RetryDirective → ℕ
  | .doNotRetry => 0 | .retryNow => 1 | .retryWithBackoff => 2 | .retryNewSession => 3
  | .retryAfterReconcile => 4 | .terminal => 5

def RetryDirective.ofValue : ℕ → Option RetryDirective
  | 0 => some .doNotRetry | 1 => some .retryNow | 2 => some .retryWithBackoff
  | 3 => some .retryNewSession | 4 => some .retryAfterReconcile | 5 => some .terminal
  | _ => none

def retryDirectiveFor : ErrorCode → RetryDirective
  | .busy | .queueFull | .capacityExceeded | .storeFull | .ioFailure | .openFailed => .retryWithBackoff
  | .connectionRefused | .connectionReset | .connectionClosed | .peerIdleTimeout | .truncatedFrame
  | .reorderedFrame => .retryNewSession
  | .limitExceeded | .guaranteeUnsupported => .terminal
  | .applyUncertain | .applyFailed | .notPrepared | .rolledBack | .preconditionFailed
  | .conflict => .retryAfterReconcile
  | _ => .doNotRetry

def kMaxEvidenceDetailBytes : ℕ := 256
def kMaxEventsPerDelivery : ℕ := 64

structure LifecycleEvent where
  kind : EvidenceKind := .created
  source : DeliveryState := .prepared
  target : DeliveryState := .prepared
  generation : Generation := 0
  digest : Digest := .zero 32
  code : ErrorCode := .ok
  directive : RetryDirective := .doNotRetry
  authorityEpoch : Epoch := 0
  authorityIncarnation : IncarnationId := .zero 16
  targetTerm : Term := 0
  targetIncarnation : IncarnationId := .zero 16
  fromReconciliation : Bool := false
  atMillis : ℤ := 0
  detail : Bytes := []
  deriving DecidableEq

end ConfigurationFabric
