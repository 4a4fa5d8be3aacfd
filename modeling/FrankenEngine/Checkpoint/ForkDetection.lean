import FrankenEngine.Checkpoint.Policy
import FrankenEngine.Library.Words

/-!
# Fork detection

The fork detector of `fork_detection.rs`: for each trust zone a bounded history
of the checkpoints that were seen, the fork incidents and the safe mode. The
counts of incidents are lengths of a list in memory, so they are natural numbers
here; the incident counter only goes into incident ids and wraps as the machine
word does. Startup evaluation and the import of exported zones are left out.
-/

set_option autoImplicit false

namespace FrankenEngine.Checkpoint

open Library Authority

inductive ForkError where
  | safeModeActive (incidentSeq : UInt64) (reason : String)
  | acknowledgmentRequired (incidentCount : Nat)
  deriving DecidableEq

structure ForkIncidentReport where
  incidentId : String
  forkSeq : UInt64
  existingCheckpointId : EngineObjectId
  divergentCheckpointId : EngineObjectId
  existingEpoch : UInt64
  divergentEpoch : UInt64
  zone : String
  frontierSeqAtDetection : UInt64
  frontierEpochAtDetection : UInt64
  detectedAtTick : UInt64
  traceId : String
  existingWasAccepted : Bool
  acknowledged : Bool
  deriving DecidableEq

structure CheckpointHistoryEntry where
  checkpointSeq : UInt64
  checkpointId : EngineObjectId
  epoch : UInt64
  accepted : Bool
  deriving DecidableEq

structure SafeModeState where
  active : Bool := false
  triggerSeq : Option UInt64 := none
  unacknowledgedCount : Nat := 0
  deriving DecidableEq

inductive ForkEventType where
  | forkDetected (zone : String) (checkpointSeq : UInt64)
  | safeModeEntered (zone : String) (triggerSeq : UInt64)
  | safeModeExited (zone : String) (acknowledgedIncidents : Nat)
  | checkpointRecorded (zone : String) (checkpointSeq : UInt64)
  | operationDenied (zone operation : String)
  | historyTrimmed (zone : String) (removedCount : Nat)
  deriving DecidableEq

structure ForkEvent where
  eventType : ForkEventType
  traceId : String
  deriving DecidableEq

structure ZoneState where
  history : OrderedMap UInt64 CheckpointHistoryEntry
  maxHistory : Nat
  safeMode : SafeModeState
  incidents : List ForkIncidentReport
  incidentCounter : UInt64

namespace ZoneState

def new (maxHistory : Nat) : ZoneState where
  history := .empty
  maxHistory
  safeMode := {}
  incidents := []
  incidentCounter := 0

def trimHistory (state : ZoneState) : ZoneState × Nat :=
  if state.history.entries.length ≤ state.maxHistory then (state, 0)
  else
    let excess := state.history.entries.length - state.maxHistory
    let keysToRemove := state.history.keys.take excess
    ({ state with history := keysToRemove.foldl OrderedMap.erase state.history },
      keysToRemove.length)

end ZoneState

structure RecordCheckpointInput where
  zone : String
  checkpoint : PolicyCheckpoint
  accepted : Bool
  frontierSeq : UInt64
  frontierEpoch : UInt64
  tick : UInt64
  traceId : String

namespace RecordCheckpointInput

def historyEntry (input : RecordCheckpointInput) : CheckpointHistoryEntry where
  checkpointSeq := input.checkpoint.checkpointSeq
  checkpointId := input.checkpoint.checkpointId
  epoch := input.checkpoint.epochId
  accepted := input.accepted

def incidentReport (input : RecordCheckpointInput) (existing : CheckpointHistoryEntry)
    (counter : UInt64) : ForkIncidentReport where
  incidentId := "fork-" ++ input.zone ++ "-seq" ++ input.checkpoint.checkpointSeq.toNat.repr ++
    "-" ++ counter.toNat.repr
  forkSeq := input.checkpoint.checkpointSeq
  existingCheckpointId := existing.checkpointId
  divergentCheckpointId := input.checkpoint.checkpointId
  existingEpoch := existing.epoch
  divergentEpoch := input.checkpoint.epochId
  zone := input.zone
  frontierSeqAtDetection := input.frontierSeq
  frontierEpochAtDetection := input.frontierEpoch
  detectedAtTick := input.tick
  traceId := input.traceId
  existingWasAccepted := existing.accepted
  acknowledged := false

end RecordCheckpointInput

structure ForkDetector where
  zones : OrderedMap String ZoneState
  defaultMaxHistory : Nat
  events : List ForkEvent

namespace ForkDetector

def new (maxHistory : Nat) : ForkDetector where
  zones := .empty
  defaultMaxHistory := maxHistory
  events := []

variable (detector : ForkDetector)

def recordCheckpoint (input : RecordCheckpointInput) :
    ForkDetector × Except ForkIncidentReport Unit :=
  let zoneState := (detector.zones.get? input.zone).getD (.new detector.defaultMaxHistory)
  let seq := input.checkpoint.checkpointSeq
  match zoneState.history.get? seq with
  | some existing =>
    if existing.checkpointId ≠ input.checkpoint.checkpointId then
      let counter := zoneState.incidentCounter + 1
      let report := input.incidentReport existing counter
      let zoneState := { zoneState with
        incidentCounter := counter
        safeMode :=
          { active := true
            triggerSeq := some seq
            unacknowledgedCount := zoneState.safeMode.unacknowledgedCount + 1 }
        incidents := zoneState.incidents ++ [report] }
      ({ detector with
          zones := detector.zones.insert input.zone zoneState
          events := detector.events ++
            [{ eventType := .forkDetected input.zone seq, traceId := input.traceId },
              { eventType := .safeModeEntered input.zone seq, traceId := input.traceId }] },
        .error report)
    else
      -- The same checkpoint again is no fork; the zone exists from now on.
      ({ detector with zones := detector.zones.insert input.zone zoneState }, .ok ())
  | none =>
    let recorded := { zoneState with history := zoneState.history.insert seq input.historyEntry }
    let trimmed := recorded.trimHistory
    let events := detector.events ++
      [{ eventType := .checkpointRecorded input.zone seq, traceId := input.traceId }]
    ({ detector with
        zones := detector.zones.insert input.zone trimmed.1
        events :=
          if 0 < trimmed.2 then
            events ++
              [{ eventType := .historyTrimmed input.zone trimmed.2, traceId := input.traceId }]
          else events },
      .ok ())

def isSafeMode (zone : String) : Bool :=
  (detector.zones.get? zone).any (·.safeMode.active)

def safeModeState (zone : String) : Option SafeModeState :=
  (detector.zones.get? zone).map (·.safeMode)

def enforceSafeMode (zone operation traceId : String) : ForkDetector × Except ForkError Unit :=
  match detector.zones.get? zone with
  | some zoneState =>
    if zoneState.safeMode.active then
      ({ detector with
          events := detector.events ++ [{ eventType := .operationDenied zone operation, traceId }] },
        .error (.safeModeActive (zoneState.safeMode.triggerSeq.getD 0)
          ("operation '" ++ operation ++ "' denied during safe mode")))
    else (detector, .ok ())
  | none => (detector, .ok ())

def incidents (detector : ForkDetector) (zone : String) : List ForkIncidentReport :=
  ((detector.zones.get? zone).map (·.incidents)).getD []

def unacknowledgedIncidents (zone : String) : List ForkIncidentReport :=
  (detector.incidents zone).filter fun incident => !incident.acknowledged

def acknowledgeFirst (incidentId : String) :
    List ForkIncidentReport → Option (List ForkIncidentReport)
  | [] => none
  | incident :: rest =>
    if incident.incidentId = incidentId ∧ incident.acknowledged = false then
      some ({ incident with acknowledged := true } :: rest)
    else (acknowledgeFirst incidentId rest).map (incident :: ·)

def acknowledgeIncident (zone incidentId : String) : ForkDetector × Bool :=
  match detector.zones.get? zone with
  | none => (detector, false)
  | some zoneState =>
    match acknowledgeFirst incidentId zoneState.incidents with
    | none => (detector, false)
    | some incidents =>
      let count := zoneState.safeMode.unacknowledgedCount - 1
      let zoneState := { zoneState with
        incidents
        safeMode := { zoneState.safeMode with unacknowledgedCount := count } }
      ({ detector with zones := detector.zones.insert zone zoneState }, true)

def exitSafeMode (zone traceId : String) : ForkDetector × Except ForkError Nat :=
  match detector.zones.get? zone with
  | none => (detector, .ok 0)
  | some zoneState =>
    if !zoneState.safeMode.active then (detector, .ok 0)
    else
      let unacked := zoneState.incidents.countP fun incident => !incident.acknowledged
      if 0 < unacked then (detector, .error (.acknowledgmentRequired unacked))
      else
        let ackedCount := zoneState.incidents.length
        let zoneState := { zoneState with
          safeMode := { active := false, triggerSeq := none, unacknowledgedCount := 0 } }
        ({ detector with
            zones := detector.zones.insert zone zoneState
            events := detector.events ++
              [{ eventType := .safeModeExited zone ackedCount, traceId }] },
          .ok ackedCount)

def history (detector : ForkDetector) (zone : String) :
    Option (OrderedMap UInt64 CheckpointHistoryEntry) :=
  (detector.zones.get? zone).map (·.history)

/-!
### Runs
-/

inductive Call where
  | recordCheckpoint (input : RecordCheckpointInput)
  | acknowledgeIncident (zone incidentId : String)
  | exitSafeMode (zone traceId : String)

inductive Outcome where
  | recorded (result : Except ForkIncidentReport Unit)
  | acknowledged (found : Bool)
  | exited (result : Except ForkError Nat)

def perform : Call → ForkDetector × Outcome
  | .recordCheckpoint input =>
    let done := detector.recordCheckpoint input
    (done.1, .recorded done.2)
  | .acknowledgeIncident zone incidentId =>
    let done := detector.acknowledgeIncident zone incidentId
    (done.1, .acknowledged done.2)
  | .exitSafeMode zone traceId =>
    let done := detector.exitSafeMode zone traceId
    (done.1, .exited done.2)

end ForkDetector

end FrankenEngine.Checkpoint
