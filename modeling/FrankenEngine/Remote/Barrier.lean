import FrankenEngine.Library.Words

/-!
# The epoch barrier

The barrier of `epoch_barrier.rs`. Critical operations take guards while it is
open; a transition to a later epoch drains or cancels the guards first. The
barrier keeps only the number of guards in flight, the guards themselves are
values of the callers. A barrier that drains has a pending epoch, reason and
trace, so completing the transition never panics.
-/

set_option autoImplicit false

namespace FrankenEngine.Remote

open Library

inductive BarrierState where
  | opened
  | draining
  | finalizing
  deriving DecidableEq

inductive TransitionReason where
  | policyKeyRotation
  | revocationFrontierAdvance
  | guardrailConfigChange
  | lossMatrixUpdate
  | remoteTrustConfigChange
  | operatorManualBump
  deriving DecidableEq

inductive BarrierError where
  | epochTransitioning (currentEpoch : UInt64) (state : BarrierState)
  | transitionAlreadyInProgress (currentEpoch : UInt64)
  | drainTimeout (epoch remainingGuards timeoutMs : UInt64)
  | noTransitionInProgress
  | nonMonotonicTransition (current attempted : UInt64)
  deriving DecidableEq

inductive CriticalOpKind where
  | decisionEval
  | evidenceEmission
  | keyDerivation
  | capabilityCheck
  | revocationCheck
  | remoteOperation
  deriving DecidableEq

structure EpochGuard where
  guardId : UInt64
  epoch : UInt64
  opKind : CriticalOpKind
  traceId : String
  deriving DecidableEq

structure TransitionEvidence where
  oldEpoch : UInt64
  newEpoch : UInt64
  reason : TransitionReason
  inFlightAtStart : UInt64
  inFlightAtComplete : UInt64
  forcedCancellations : UInt64
  durationMs : UInt64
  traceId : String
  deriving DecidableEq

structure BarrierConfig where
  drainTimeoutMs : UInt64 := 5000
  deterministic : Bool := false
  deriving DecidableEq

structure EpochBarrier where
  config : BarrierConfig
  currentEpoch : UInt64
  state : BarrierState
  inFlightCount : UInt64
  nextGuardId : UInt64
  pendingNewEpoch : Option UInt64
  pendingReason : Option TransitionReason
  pendingTraceId : Option String
  inFlightAtTransitionStart : UInt64
  forcedCancellations : UInt64
  evidence : List TransitionEvidence
  /-- What is taken when a transition completes is there. -/
  pending : state = .draining →
    pendingNewEpoch.isSome ∧ pendingReason.isSome ∧ pendingTraceId.isSome

namespace EpochBarrier

def new (epoch : UInt64) (config : BarrierConfig) : EpochBarrier where
  config
  currentEpoch := epoch
  state := .opened
  inFlightCount := 0
  nextGuardId := 1
  pendingNewEpoch := none
  pendingReason := none
  pendingTraceId := none
  inFlightAtTransitionStart := 0
  forcedCancellations := 0
  evidence := []
  pending := nofun

variable (barrier : EpochBarrier)

def enterCritical (opKind : CriticalOpKind) (traceId : String) :
    EpochBarrier × Except BarrierError EpochGuard :=
  if barrier.state ≠ .opened then
    (barrier, .error (.epochTransitioning barrier.currentEpoch barrier.state))
  else
    ({ barrier with
        nextGuardId := saturatingAdd barrier.nextGuardId 1
        inFlightCount := saturatingAdd barrier.inFlightCount 1 },
      .ok { guardId := barrier.nextGuardId, epoch := barrier.currentEpoch, opKind, traceId })

def releaseGuard (guard : EpochGuard) : EpochBarrier × Bool :=
  if guard.epoch ≠ barrier.currentEpoch then (barrier, false)
  else if barrier.inFlightCount = 0 then (barrier, false)
  else ({ barrier with inFlightCount := barrier.inFlightCount - 1 }, true)

def beginTransition (newEpoch : UInt64) (reason : TransitionReason) (traceId : String) :
    EpochBarrier × Except BarrierError UInt64 :=
  if barrier.state ≠ .opened then
    (barrier, .error (.transitionAlreadyInProgress barrier.currentEpoch))
  else if newEpoch ≤ barrier.currentEpoch then
    (barrier, .error (.nonMonotonicTransition barrier.currentEpoch newEpoch))
  else
    ({ barrier with
        state := .draining
        pendingNewEpoch := some newEpoch
        pendingReason := some reason
        pendingTraceId := some traceId
        inFlightAtTransitionStart := barrier.inFlightCount
        forcedCancellations := 0
        pending := fun _ => ⟨rfl, rfl, rfl⟩ },
      .ok barrier.inFlightCount)

def forceCancelRemaining : EpochBarrier × Except BarrierError UInt64 :=
  if barrier.state ≠ .draining then (barrier, .error .noTransitionInProgress)
  else
    ({ barrier with
        forcedCancellations := saturatingAdd barrier.forcedCancellations barrier.inFlightCount
        inFlightCount := 0 },
      .ok barrier.inFlightCount)

def canComplete : Bool :=
  barrier.state = .draining ∧ barrier.inFlightCount = 0

def transitionEvidence (draining : barrier.state = .draining) :
    TransitionEvidence where
  oldEpoch := barrier.currentEpoch
  newEpoch := barrier.pendingNewEpoch.get (barrier.pending draining).1
  reason := barrier.pendingReason.get (barrier.pending draining).2.1
  inFlightAtStart := barrier.inFlightAtTransitionStart
  inFlightAtComplete := 0
  forcedCancellations := barrier.forcedCancellations
  durationMs := 0
  traceId := barrier.pendingTraceId.get (barrier.pending draining).2.2

def completeTransition : EpochBarrier × Except BarrierError TransitionEvidence :=
  if draining : barrier.state = .draining then
    if 0 < barrier.inFlightCount then
      (barrier, .error
        (.drainTimeout barrier.currentEpoch barrier.inFlightCount barrier.config.drainTimeoutMs))
    else
      let evidence := barrier.transitionEvidence draining
      ({ barrier with
          pendingNewEpoch := none
          pendingReason := none
          pendingTraceId := none
          currentEpoch := evidence.newEpoch
          state := .opened
          forcedCancellations := 0
          inFlightAtTransitionStart := 0
          evidence := barrier.evidence ++ [evidence]
          pending := nofun },
        .ok evidence)
  else (barrier, .error .noTransitionInProgress)

def transitionNow (newEpoch : UInt64) (reason : TransitionReason) (traceId : String) :
    EpochBarrier × Except BarrierError TransitionEvidence :=
  match barrier.beginTransition newEpoch reason traceId with
  | (barrier, .error error) => (barrier, .error error)
  | (barrier, .ok _) =>
    if 0 < barrier.inFlightCount then
      match barrier.forceCancelRemaining with
      | (barrier, .error error) => (barrier, .error error)
      | (barrier, .ok _) => barrier.completeTransition
    else barrier.completeTransition

inductive Call where
  | enterCritical (opKind : CriticalOpKind) (traceId : String)
  | releaseGuard (guard : EpochGuard)
  | beginTransition (newEpoch : UInt64) (reason : TransitionReason) (traceId : String)
  | forceCancelRemaining
  | completeTransition
  | transitionNow (newEpoch : UInt64) (reason : TransitionReason) (traceId : String)

inductive Outcome where
  | entered (result : Except BarrierError EpochGuard)
  | released (accepted : Bool)
  | begun (result : Except BarrierError UInt64)
  | cancelled (result : Except BarrierError UInt64)
  | completed (result : Except BarrierError TransitionEvidence)

def perform : Call → EpochBarrier × Outcome
  | .enterCritical opKind traceId =>
    let done := barrier.enterCritical opKind traceId
    (done.1, .entered done.2)
  | .releaseGuard guard =>
    let done := barrier.releaseGuard guard
    (done.1, .released done.2)
  | .beginTransition newEpoch reason traceId =>
    let done := barrier.beginTransition newEpoch reason traceId
    (done.1, .begun done.2)
  | .forceCancelRemaining =>
    let done := barrier.forceCancelRemaining
    (done.1, .cancelled done.2)
  | .completeTransition =>
    let done := barrier.completeTransition
    (done.1, .completed done.2)
  | .transitionNow newEpoch reason traceId =>
    let done := barrier.transitionNow newEpoch reason traceId
    (done.1, .completed done.2)

end EpochBarrier

end FrankenEngine.Remote
