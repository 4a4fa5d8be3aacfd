import FrankenEngine.Checkpoint.Policy

/-!
# Checkpoint frontiers

The frontier manager of `checkpoint_frontier.rs`: one frontier for each trust
zone, in memory and in a backend, which accepting a checkpoint moves forward.
-/

set_option autoImplicit false

namespace FrankenEngine.Checkpoint

open Library Authority

inductive FrontierError where
  | rollbackRejected (zone : String) (frontierSeq attemptedSeq : UInt64)
  | duplicateCheckpoint (zone : String) (checkpointSeq : UInt64)
  | chainLinkageFailure (zone detail : String)
  | quorumFailure (zone detail : String)
  | unknownZone (zone : String)
  | epochRegression (zone : String) (frontierEpoch attemptedEpoch : UInt64)
  | persistenceFailed (zone detail : String)
  deriving DecidableEq

structure FrontierEntry where
  checkpointSeq : UInt64
  checkpointId : EngineObjectId
  epoch : UInt64
  deriving DecidableEq

structure FrontierState where
  zone : String
  frontierSeq : UInt64
  frontierCheckpointId : EngineObjectId
  frontierEpoch : UInt64
  acceptCount : UInt64
  recentIds : List FrontierEntry
  deriving DecidableEq

namespace FrontierState

def maxRecentEntries : Nat := 32

def entryOf (checkpoint : PolicyCheckpoint) : FrontierEntry where
  checkpointSeq := checkpoint.checkpointSeq
  checkpointId := checkpoint.checkpointId
  epoch := checkpoint.epochId

def fromGenesis (zone : String) (checkpoint : PolicyCheckpoint) : FrontierState where
  zone
  frontierSeq := checkpoint.checkpointSeq
  frontierCheckpointId := checkpoint.checkpointId
  frontierEpoch := checkpoint.epochId
  acceptCount := 1
  recentIds := [entryOf checkpoint]

/-- The recent entries end with the accepted checkpoint; the oldest fall out of the window. -/
def advance (state : FrontierState) (checkpoint : PolicyCheckpoint) : FrontierState :=
  let recentIds := state.recentIds ++ [entryOf checkpoint]
  { state with
    frontierSeq := checkpoint.checkpointSeq
    frontierCheckpointId := checkpoint.checkpointId
    frontierEpoch := checkpoint.epochId
    acceptCount := if state.acceptCount + 1 = 0 then state.acceptCount else state.acceptCount + 1
    recentIds := recentIds.drop (recentIds.length - maxRecentEntries) }

end FrontierState

inductive FrontierEventType where
  | zoneInitialized (zone : String) (genesisSeq : UInt64)
  | checkpointAccepted (zone : String) (prevSeq newSeq : UInt64)
  | rollbackRejected (zone : String) (frontierSeq attemptedSeq : UInt64)
  | duplicateRejected (zone : String) (checkpointSeq : UInt64)
  | epochRegressionRejected (zone : String) (frontierEpoch attemptedEpoch : UInt64)
  | frontierLoaded (zone : String) (frontierSeq : UInt64)
  deriving DecidableEq

structure FrontierEvent where
  eventType : FrontierEventType
  traceId : String
  deriving DecidableEq

/-- The storage behind a manager. The state `B` may hold whatever decides when it fails. -/
class PersistenceBackend (B : Type) where
  persist : B → FrontierState → B × Except String Unit
  load : B → String → Except String (Option FrontierState)
  loadAll : B → Except String (List FrontierState)

structure InMemoryBackend where
  zones : OrderedMap String FrontierState := .empty
  failOnPersist : Bool := false
  persistCount : UInt64 := 0

instance : PersistenceBackend InMemoryBackend where
  persist backend state :=
    if backend.failOnPersist then (backend, .error "simulated persistence failure")
    else
      ({ backend with
          zones := backend.zones.insert state.zone state
          persistCount := backend.persistCount + 1 }, .ok ())
  load backend zone := .ok (backend.zones.get? zone)
  loadAll backend := .ok backend.zones.values

structure CheckpointFrontierManager (B : Type) where
  zones : OrderedMap String FrontierState
  backend : B
  events : List FrontierEvent

namespace CheckpointFrontierManager

variable {B : Type}

def new (backend : B) : CheckpointFrontierManager B := ⟨.empty, backend, []⟩

def emit (manager : CheckpointFrontierManager B) (eventType : FrontierEventType)
    (traceId : String) : CheckpointFrontierManager B :=
  { manager with events := manager.events ++ [⟨eventType, traceId⟩] }

def loadState (traceId : String) (manager : CheckpointFrontierManager B) (state : FrontierState) :
    CheckpointFrontierManager B :=
  let loaded := manager.emit (.frontierLoaded state.zone state.frontierSeq) traceId
  { loaded with zones := loaded.zones.insert state.zone state }

variable [PersistenceBackend B]

def recover (manager : CheckpointFrontierManager B) (traceId : String) :
    CheckpointFrontierManager B × Except FrontierError Nat :=
  match PersistenceBackend.loadAll manager.backend with
  | .error detail => (manager, .error (.persistenceFailed "(all)" detail))
  | .ok states => (states.foldl (loadState traceId) manager, .ok states.length)

/-- The end of both ways to accept: persist, then update the memory, then report. -/
def install (manager : CheckpointFrontierManager B) (zone : String) (state : FrontierState)
    (eventType : FrontierEventType) (traceId : String) :
    CheckpointFrontierManager B × Except FrontierError Unit :=
  match PersistenceBackend.persist manager.backend state with
  | (backend, .error detail) =>
    ({ manager with backend }, .error (.persistenceFailed zone detail))
  | (backend, .ok ()) =>
    ({ manager with backend, zones := manager.zones.insert zone state }.emit eventType traceId,
      .ok ())

variable (hashes : Hashes)

def acceptGenesis (manager : CheckpointFrontierManager B) (zone : String)
    (checkpoint : PolicyCheckpoint) (quorumThreshold : Nat)
    (authorizedSigners : List VerificationKey) (traceId : String) :
    CheckpointFrontierManager B × Except FrontierError Unit :=
  match verifyCheckpointQuorum hashes checkpoint quorumThreshold authorizedSigners with
  | .error error => (manager, .error (.quorumFailure zone error.display))
  | .ok () =>
    manager.install zone (.fromGenesis zone checkpoint)
      (.zoneInitialized zone checkpoint.checkpointSeq) traceId

/-- Neither the linkage nor the id of the checkpoint is looked at, although the source
announces a check of the linkage between those of the epoch and of the quorum. -/
def acceptCheckpoint (manager : CheckpointFrontierManager B) (zone : String)
    (checkpoint : PolicyCheckpoint) (quorumThreshold : Nat)
    (authorizedSigners : List VerificationKey) (traceId : String) :
    CheckpointFrontierManager B × Except FrontierError Unit :=
  match manager.zones.get? zone with
  | none => manager.acceptGenesis hashes zone checkpoint quorumThreshold authorizedSigners traceId
  | some frontier =>
    if checkpoint.checkpointSeq ≤ frontier.frontierSeq then
      if checkpoint.checkpointSeq = frontier.frontierSeq then
        (manager.emit (.duplicateRejected zone checkpoint.checkpointSeq) traceId,
          .error (.duplicateCheckpoint zone checkpoint.checkpointSeq))
      else
        (manager.emit (.rollbackRejected zone frontier.frontierSeq checkpoint.checkpointSeq)
            traceId,
          .error (.rollbackRejected zone frontier.frontierSeq checkpoint.checkpointSeq))
    else if checkpoint.epochId < frontier.frontierEpoch then
      (manager.emit (.epochRegressionRejected zone frontier.frontierEpoch checkpoint.epochId)
          traceId,
        .error (.epochRegression zone frontier.frontierEpoch checkpoint.epochId))
    else
      match verifyCheckpointQuorum hashes checkpoint quorumThreshold authorizedSigners with
      | .error error => (manager, .error (.quorumFailure zone error.display))
      | .ok () =>
        manager.install zone (frontier.advance checkpoint)
          (.checkpointAccepted zone frontier.frontierSeq checkpoint.checkpointSeq) traceId

def verifyLinkageAgainstFrontier (manager : CheckpointFrontierManager B) (zone : String)
    (prevCheckpoint newCheckpoint : PolicyCheckpoint) : Except FrontierError Unit :=
  match manager.zones.get? zone with
  | none => .error (.unknownZone zone)
  | some frontier =>
    if prevCheckpoint.checkpointId ≠ frontier.frontierCheckpointId then
      .error (.chainLinkageFailure zone ("prev checkpoint " ++
        toHex prevCheckpoint.checkpointId ++ " does not match frontier " ++
        toHex frontier.frontierCheckpointId))
    else
      match verifyChainLinkage prevCheckpoint newCheckpoint with
      | .error error => .error (.chainLinkageFailure zone error.display)
      | .ok () => .ok ()

end CheckpointFrontierManager

end FrankenEngine.Checkpoint
