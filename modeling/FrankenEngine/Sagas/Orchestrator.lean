import FrankenEngine.Library.OrderedMap
import Mathlib.Data.String.Basic

/-!
# The saga orchestrator

Sagas of `saga_orchestrator.rs`: steps are run forward one by one, and when one
fails the completed ones are compensated in reverse. Step indices are natural
numbers. The audit events and their counters are left out.
-/

set_option autoImplicit false

namespace FrankenEngine.Sagas

open Library

inductive SagaType where
  | quarantine
  | revocation
  | eviction
  | publish
  deriving DecidableEq

inductive SagaState where
  | pending
  | inProgress (stepIndex : Nat)
  | compensating (stepIndex : Nat)
  | completed
  | failed (diagnostic : String)
  deriving DecidableEq

def SagaState.display : SagaState → String
  | .pending => "pending"
  | .inProgress stepIndex => "in_progress(step=" ++ stepIndex.repr ++ ")"
  | .compensating stepIndex => "compensating(step=" ++ stepIndex.repr ++ ")"
  | .completed => "completed"
  | .failed diagnostic => "failed(" ++ diagnostic ++ ")"

def SagaState.isTerminal : SagaState → Bool
  | .completed => true
  | .failed _ => true
  | _ => false

def SagaState.current? : SagaState → Option Nat
  | .inProgress stepIndex => some stepIndex
  | .compensating stepIndex => some stepIndex
  | _ => none

inductive StepOutcome where
  | success (result : String)
  | failure (diagnostic : String)
  | cancelled (reason : String)
  deriving DecidableEq

def StepOutcome.display : StepOutcome → String
  | .success result => "success(" ++ result ++ ")"
  | .failure diagnostic => "failure(" ++ diagnostic ++ ")"
  | .cancelled reason => "cancelled(" ++ reason ++ ")"

structure SagaStep where
  stepName : String
  forwardAction : String
  compensatingAction : String
  timeoutTicks : UInt64
  deriving DecidableEq

inductive ActionType where
  | forward
  | compensate
  deriving DecidableEq

structure StepRecord where
  stepIndex : Nat
  stepName : String
  actionType : ActionType
  outcome : StepOutcome
  completedAt : UInt64
  idempotencyKeyHex : String
  deriving DecidableEq

structure Saga where
  sagaId : String
  sagaType : SagaType
  steps : List SagaStep
  state : SagaState
  epoch : UInt64
  traceId : String
  stepRecords : List StepRecord
  createdAt : UInt64
  /-- The step that is run or compensated exists. -/
  inRange : ∀ stepIndex ∈ state.current?, stepIndex < steps.length

def Saga.isTerminal (saga : Saga) : Bool := saga.state.isTerminal

inductive SagaError where
  | sagaNotFound (sagaId : String)
  | sagaAlreadyTerminal (sagaId state : String)
  | stepIndexOutOfBounds (sagaId : String) (stepIndex stepCount : Nat)
  | epochMismatch (sagaId : String) (sagaEpoch currentEpoch : UInt64)
  | emptySteps
  | invalidSagaId (reason : String)
  | concurrencyLimitReached (activeCount maxConcurrent : Nat)
  | sagaAlreadyExists (sagaId : String)
  deriving DecidableEq

structure SagaOrchestrator where
  currentEpoch : UInt64
  sagas : OrderedMap String Saga
  maxConcurrent : Nat

namespace SagaOrchestrator

def new (epoch : UInt64) (maxConcurrent : Nat) : SagaOrchestrator where
  currentEpoch := epoch
  sagas := .empty
  maxConcurrent := maxConcurrent

variable (orchestrator : SagaOrchestrator)

def activeCount : Nat :=
  orchestrator.sagas.values.countP fun saga => !saga.isTerminal

variable (sagaId : String)

def put (saga : Saga) : SagaOrchestrator :=
  { orchestrator with sagas := orchestrator.sagas.insert sagaId saga }

def createSaga (sagaType : SagaType) (steps : List SagaStep) (traceId : String)
    (currentTicks : UInt64) : SagaOrchestrator × Except SagaError String :=
  if sagaId.isEmpty then (orchestrator, .error (.invalidSagaId "empty saga ID"))
  else if steps.isEmpty then (orchestrator, .error .emptySteps)
  else if (orchestrator.sagas.get? sagaId).isSome then
    (orchestrator, .error (.sagaAlreadyExists sagaId))
  else if orchestrator.maxConcurrent ≤ orchestrator.activeCount then
    (orchestrator,
      .error (.concurrencyLimitReached orchestrator.activeCount orchestrator.maxConcurrent))
  else
    (orchestrator.put sagaId
      { sagaId
        sagaType
        steps
        state := .pending
        epoch := orchestrator.currentEpoch
        traceId
        stepRecords := []
        createdAt := currentTicks
        inRange := nofun }, .ok sagaId)

def terminalError (saga : Saga) : SagaError :=
  .sagaAlreadyTerminal sagaId saga.state.display

def nextForward? : SagaState → Option Nat
  | .pending => some 0
  | .inProgress stepIndex => some stepIndex
  | _ => none

def beginStep : SagaOrchestrator × Except SagaError (Nat × SagaStep) :=
  match orchestrator.sagas.get? sagaId with
  | none => (orchestrator, .error (.sagaNotFound sagaId))
  | some saga =>
    if saga.isTerminal then (orchestrator, .error (terminalError sagaId saga))
    else if saga.epoch ≠ orchestrator.currentEpoch then
      (orchestrator, .error (.epochMismatch sagaId saga.epoch orchestrator.currentEpoch))
    else
      match nextForward? saga.state with
      | none => (orchestrator, .error (terminalError sagaId saga))
      | some stepIndex =>
        if inside : stepIndex < saga.steps.length then
          (orchestrator.put sagaId
            { saga with
              state := .inProgress stepIndex
              inRange := fun index current => Option.some.inj current ▸ inside },
            .ok (stepIndex, saga.steps[stepIndex]))
        else
          (orchestrator, .error (.stepIndexOutOfBounds sagaId stepIndex saga.steps.length))

def alreadyRecorded (saga : Saga) (actionType : ActionType) (stepIndex : Nat)
    (idempotencyKeyHex : String) : Bool :=
  saga.stepRecords.any fun record =>
    record.actionType = actionType && record.stepIndex = stepIndex &&
      record.idempotencyKeyHex = idempotencyKeyHex

def afterForward (saga : Saga) (stepIndex : Nat) (outcome : StepOutcome) : SagaState :=
  match outcome with
  | .success _ =>
    if saga.steps.length ≤ stepIndex + 1 then .completed else .inProgress (stepIndex + 1)
  | .failure _ =>
    if stepIndex = 0 then .failed outcome.display else .compensating (stepIndex - 1)
  | .cancelled _ =>
    if stepIndex = 0 then .failed outcome.display else .compensating (stepIndex - 1)

def afterCompensation (stepIndex : Nat) : StepOutcome → SagaState
  | .success _ => if stepIndex = 0 then .failed "compensated" else .compensating (stepIndex - 1)
  | .failure diagnostic =>
    .failed ("compensation_failed at step " ++ stepIndex.repr ++ ": " ++ diagnostic)
  | .cancelled reason =>
    .failed ("compensation_cancelled at step " ++ stepIndex.repr ++ ": " ++ reason)

/-- Running forward or compensating: the state in which the outcome of a step is taken, and the
state behind it. -/
structure Direction where
  actionType : ActionType
  expected : Nat → SagaState
  next : Saga → Nat → StepOutcome → SagaState
  inRange : ∀ saga stepIndex outcome, stepIndex < saga.steps.length →
    ∀ index ∈ (next saga stepIndex outcome).current?, index < saga.steps.length

def forward : Direction where
  actionType := .forward
  expected := .inProgress
  next := afterForward
  inRange := by
    intro saga stepIndex outcome inside index current
    cases outcome <;> simp only [afterForward] at current <;> split at current <;> cases current <;>
      omega

def backward : Direction where
  actionType := .compensate
  expected := .compensating
  next := fun _ => afterCompensation
  inRange := by
    intro saga stepIndex outcome inside index current
    cases outcome with
    | success =>
      simp only [afterCompensation] at current
      split at current <;> cases current
      omega
    | failure | cancelled => cases current

def withOutcome (direction : Direction) (saga : Saga) {stepIndex : Nat}
    (inside : stepIndex < saga.steps.length) (outcome : StepOutcome) (idempotencyKeyHex : String)
    (currentTicks : UInt64) : Saga :=
  { saga with
    state := direction.next saga stepIndex outcome
    stepRecords := saga.stepRecords ++
      [{ stepIndex
         stepName := saga.steps[stepIndex].stepName
         actionType := direction.actionType
         outcome
         completedAt := currentTicks
         idempotencyKeyHex }]
    inRange := direction.inRange saga stepIndex outcome inside }

/-- A retry is answered before the state of the saga is looked at. -/
def complete (direction : Direction) (orchestrator : SagaOrchestrator) (sagaId : String)
    (stepIndex : Nat) (outcome : StepOutcome) (idempotencyKeyHex : String) (currentTicks : UInt64) :
    SagaOrchestrator × Except SagaError SagaState :=
  match orchestrator.sagas.get? sagaId with
  | none => (orchestrator, .error (.sagaNotFound sagaId))
  | some saga =>
    if inside : stepIndex < saga.steps.length then
      if alreadyRecorded saga direction.actionType stepIndex idempotencyKeyHex then
        (orchestrator, .ok saga.state)
      else if saga.state = direction.expected stepIndex then
        let updated := withOutcome direction saga inside outcome idempotencyKeyHex currentTicks
        (orchestrator.put sagaId updated, .ok updated.state)
      else (orchestrator, .error (terminalError sagaId saga))
    else (orchestrator, .error (.stepIndexOutOfBounds sagaId stepIndex saga.steps.length))

def completeStep : SagaOrchestrator → String → Nat → StepOutcome → String → UInt64 →
    SagaOrchestrator × Except SagaError SagaState :=
  complete forward

def completeCompensation : SagaOrchestrator → String → Nat → StepOutcome → String → UInt64 →
    SagaOrchestrator × Except SagaError SagaState :=
  complete backward

def nextCompensationStep : Except SagaError (Option (Nat × SagaStep)) :=
  match orchestrator.sagas.get? sagaId with
  | none => .error (.sagaNotFound sagaId)
  | some saga =>
    match state : saga.state with
    | .compensating stepIndex =>
      .ok (some (stepIndex, saga.steps.get ⟨stepIndex, saga.inRange _ (by rw [state]; rfl)⟩))
    | _ => .ok none

def epochDisplay (epoch : UInt64) : String := "epoch:" ++ epoch.toNat.repr

def invalidated (newEpoch : UInt64) (saga : Saga) : Bool :=
  !saga.isTerminal && saga.epoch ≠ newEpoch

def invalidate (newEpoch : UInt64) (saga : Saga) : Saga :=
  if invalidated newEpoch saga then
    { saga with
      state := .failed ("epoch_invalidated: saga epoch " ++ epochDisplay saga.epoch ++
        ", new epoch " ++ epochDisplay newEpoch)
      inRange := nofun }
  else saga

/-- Sagas of another epoch fail, also when the epoch that is announced is an old one. -/
def advanceEpoch (newEpoch : UInt64) : SagaOrchestrator × List String :=
  ({ orchestrator with
      sagas := orchestrator.sagas.mapValues (invalidate newEpoch)
      currentEpoch :=
        if orchestrator.currentEpoch < newEpoch then newEpoch else orchestrator.currentEpoch },
    (orchestrator.sagas.entries.filter fun entry => invalidated newEpoch entry.2).map (·.1))

def gcTerminal (olderThanTicks : UInt64) : SagaOrchestrator × Nat :=
  let removed (saga : Saga) : Bool := saga.isTerminal && saga.createdAt < olderThanTicks
  ({ orchestrator with sagas := orchestrator.sagas.retain fun _ saga => !removed saga },
    orchestrator.sagas.values.countP removed)

inductive Call where
  | createSaga (sagaId : String) (sagaType : SagaType) (steps : List SagaStep) (traceId : String)
      (currentTicks : UInt64)
  | beginStep (sagaId : String)
  | completeStep (sagaId : String) (stepIndex : Nat) (outcome : StepOutcome)
      (idempotencyKeyHex : String) (currentTicks : UInt64)
  | nextCompensationStep (sagaId : String)
  | completeCompensation (sagaId : String) (stepIndex : Nat) (outcome : StepOutcome)
      (idempotencyKeyHex : String) (currentTicks : UInt64)
  | advanceEpoch (newEpoch : UInt64)
  | gcTerminal (olderThanTicks : UInt64)

def step : Call → SagaOrchestrator
  | .createSaga sagaId sagaType steps traceId currentTicks =>
    (orchestrator.createSaga sagaId sagaType steps traceId currentTicks).1
  | .beginStep sagaId => (orchestrator.beginStep sagaId).1
  | .completeStep sagaId stepIndex outcome idempotencyKeyHex currentTicks =>
    (orchestrator.completeStep sagaId stepIndex outcome idempotencyKeyHex currentTicks).1
  | .nextCompensationStep _ => orchestrator
  | .completeCompensation sagaId stepIndex outcome idempotencyKeyHex currentTicks =>
    (orchestrator.completeCompensation sagaId stepIndex outcome idempotencyKeyHex currentTicks).1
  | .advanceEpoch newEpoch => (orchestrator.advanceEpoch newEpoch).1
  | .gcTerminal olderThanTicks => (orchestrator.gcTerminal olderThanTicks).1

def run (calls : List Call) : SagaOrchestrator :=
  calls.foldl step orchestrator

end SagaOrchestrator

end FrankenEngine.Sagas
