import FrankenEngine.HashTiers

/-!
# The decision marker stream

The append-only stream of `marker_stream.rs`: markers that are linked by their
content hashes, a rolling hash over the whole chain, and a signed chain head.
-/

set_option autoImplicit false

namespace FrankenEngine.Marker

open Library

inductive SecurityActionKind where
  | quarantine
  | suspend
  | terminate
  deriving DecidableEq, Repr

def SecurityActionKind.display : SecurityActionKind → String
  | .quarantine => "quarantine"
  | .suspend => "suspend"
  | .terminate => "terminate"

inductive PolicyTransitionKind where
  | activation
  | deactivation
  | epochAdvancement
  deriving DecidableEq, Repr

def PolicyTransitionKind.display : PolicyTransitionKind → String
  | .activation => "activation"
  | .deactivation => "deactivation"
  | .epochAdvancement => "epoch_advancement"

inductive RevocationKind where
  | issuance
  | propagationConfirmation
  deriving DecidableEq, Repr

def RevocationKind.display : RevocationKind → String
  | .issuance => "issuance"
  | .propagationConfirmation => "propagation_confirmation"

inductive DecisionType where
  | securityAction (action : SecurityActionKind)
  | policyTransition (transition : PolicyTransitionKind)
  | revocationEvent (revocation : RevocationKind)
  | epochTransition (fromEpoch toEpoch : UInt64)
  | emergencyOverride (overrideReason : String)
  | guardrailTriggered (guardrailId : String)
  deriving DecidableEq, Repr

/-- The text of a decision type. The reason of an override is not part of it. -/
def DecisionType.display : DecisionType → String
  | .securityAction action => "security_action:" ++ action.display
  | .policyTransition transition => "policy_transition:" ++ transition.display
  | .revocationEvent revocation => "revocation_event:" ++ revocation.display
  | .epochTransition fromEpoch toEpoch =>
    "epoch_transition:" ++ fromEpoch.toNat.repr ++ "->" ++ toEpoch.toNat.repr
  | .emergencyOverride _ => "emergency_override"
  | .guardrailTriggered guardrailId => "guardrail_triggered:" ++ guardrailId

/-- A correlation id. Its constructor checks the text, but deserialisation does not. -/
structure CorrelationId where
  raw : String
  deriving DecidableEq, Repr

structure TraceContext where
  traceparent : String
  tracestate : Option String
  baggage : Option String
  deriving DecidableEq, Repr

structure RedactedPayload where
  redactedSummary : String
  payloadHash : ContentHash
  redactionApplied : Bool
  deriving DecidableEq

structure DecisionMarker where
  markerId : UInt64
  prevMarkerHash : ContentHash
  markerHash : ContentHash
  timestampTicks : UInt64
  epochId : UInt64
  decisionType : DecisionType
  decisionId : String
  policyId : Option String
  correlationId : CorrelationId
  traceContext : Option TraceContext
  principalId : Option String
  zoneId : Option String
  errorCode : Option String
  evidenceEntryHash : ContentHash
  actor : String
  redactedPayload : RedactedPayload
  deriving DecidableEq

structure MarkerInput where
  timestampTicks : UInt64
  epochId : UInt64
  decisionType : DecisionType
  decisionId : String
  policyId : Option String
  correlationId : CorrelationId
  traceContext : Option TraceContext
  principalId : Option String
  zoneId : Option String
  errorCode : Option String
  evidenceEntryHash : ContentHash
  actor : String
  payloadSummary : String
  fullPayload : Option String
  traceId : String
  deriving DecidableEq

inductive ChainIntegrityError where
  | markerHashMismatch (markerId : UInt64) (expected computed : ContentHash)
  | chainLinkBroken (markerId : UInt64) (expectedPrev actualPrev : ContentHash)
  | emptyStream
  | nonMonotonicId (markerId prevMarkerId : UInt64)
  | headMismatch
  deriving DecidableEq

structure IntegrityCheckpoint where
  atMarkerId : UInt64
  markerHash : ContentHash
  chainLength : Nat
  signedHash : AuthenticityHash
  deriving DecidableEq

structure AuditChainHead where
  headMarkerId : UInt64
  latestMarkerHash : ContentHash
  rollingChainHash : ContentHash
  signedHeadHash : AuthenticityHash
  deriving DecidableEq

structure MarkerEvent where
  markerId : UInt64
  markerType : String
  chainLength : Nat
  decisionId : String
  policyId : Option String
  principalId : Option String
  correlationId : String
  traceId : String
  component : String
  event : String
  outcome : String
  errorCode : Option String
  deriving DecidableEq

structure DecisionMarkerStream where
  markers : List DecisionMarker
  nextMarkerId : UInt64
  checkpoints : List IntegrityCheckpoint
  chainHead : Option AuditChainHead
  rollingChainHash : ContentHash
  checkpointInterval : UInt64
  checkpointKey : Bytes
  events : List MarkerEvent
  deriving DecidableEq

def traceFrame (context : TraceContext) : Bytes :=
  textFrame context.traceparent ++ optionFrame textFrame context.tracestate ++
    optionFrame textFrame context.baggage

def markerPreimage (marker : DecisionMarker) : Bytes :=
  wordFrame marker.markerId ++ marker.prevMarkerHash.bytes ++ wordFrame marker.timestampTicks ++
    wordFrame marker.epochId ++ textFrame marker.decisionType.display ++
    textFrame marker.decisionId ++ optionFrame textFrame marker.policyId ++
    textFrame marker.correlationId.raw ++ optionFrame traceFrame marker.traceContext ++
    optionFrame textFrame marker.principalId ++ optionFrame textFrame marker.zoneId ++
    optionFrame textFrame marker.errorCode ++ marker.evidenceEntryHash.bytes ++
    textFrame marker.actor ++ textFrame marker.redactedPayload.redactedSummary ++
    marker.redactedPayload.payloadHash.bytes ++ boolFrame marker.redactedPayload.redactionApplied

def rollingPreimage (previousRollingHash : ContentHash) (markerId : UInt64)
    (markerHash : ContentHash) : Bytes :=
  previousRollingHash.bytes ++ wordFrame markerId ++ markerHash.bytes

section Hashing

variable (tiers : HashTiers)

def computeMarkerHash (marker : DecisionMarker) : ContentHash :=
  tiers.contentHash (markerPreimage marker)

def computeRollingHash (previousRollingHash : ContentHash) (markerId : UInt64)
    (markerHash : ContentHash) : ContentHash :=
  tiers.contentHash (rollingPreimage previousRollingHash markerId markerHash)

def recomputeRollingHash (markers : List DecisionMarker) : ContentHash :=
  markers.foldl (fun rolling marker => computeRollingHash tiers rolling marker.markerId
    marker.markerHash) .zero

def signChainHead (checkpointKey : Bytes) (markerId : UInt64)
    (latestMarkerHash rollingChainHash : ContentHash) : AuthenticityHash :=
  tiers.computeKeyed checkpointKey
    (wordFrame markerId ++ latestMarkerHash.bytes ++ rollingChainHash.bytes)

namespace DecisionMarkerStream

def new (checkpointInterval : UInt64) (checkpointKey : Bytes) : DecisionMarkerStream :=
  { markers := []
    nextMarkerId := 1
    checkpoints := []
    chainHead := none
    rollingChainHash := .zero
    checkpointInterval := checkpointInterval
    checkpointKey := checkpointKey
    events := [] }

variable (stream : DecisionMarkerStream)

def get (markerId : UInt64) : Option DecisionMarker :=
  stream.markers.find? (·.markerId == markerId)

def buildMarker (input : MarkerInput) : DecisionMarker :=
  let marker : DecisionMarker :=
    { markerId := stream.nextMarkerId
      prevMarkerHash := (stream.markers.getLast?.map (·.markerHash)).getD .zero
      markerHash := .zero
      timestampTicks := input.timestampTicks
      epochId := input.epochId
      decisionType := input.decisionType
      decisionId := input.decisionId
      policyId := input.policyId
      correlationId := input.correlationId
      traceContext := input.traceContext
      principalId := input.principalId
      zoneId := input.zoneId
      errorCode := input.errorCode
      evidenceEntryHash := input.evidenceEntryHash
      actor := input.actor
      redactedPayload :=
        { redactedSummary := input.payloadSummary
          payloadHash := tiers.contentHash (utf8 (input.fullPayload.getD input.payloadSummary))
          redactionApplied := input.fullPayload.isSome } }
  { marker with markerHash := computeMarkerHash tiers marker }

def updateChainHead : DecisionMarkerStream :=
  match stream.markers.getLast? with
  | none => { stream with chainHead := none, rollingChainHash := .zero }
  | some latest =>
    let rolling := computeRollingHash tiers stream.rollingChainHash latest.markerId
      latest.markerHash
    { stream with
      rollingChainHash := rolling
      chainHead := some
        { headMarkerId := latest.markerId
          latestMarkerHash := latest.markerHash
          rollingChainHash := rolling
          signedHeadHash := signChainHead tiers stream.checkpointKey latest.markerId
            latest.markerHash rolling } }

def emitCheckpoint (markerId : UInt64) : DecisionMarkerStream :=
  match stream.get markerId with
  | none => stream
  | some marker =>
    let chainLength := stream.markers.length
    { stream with
      checkpoints := stream.checkpoints ++
        [{ atMarkerId := markerId
           markerHash := marker.markerHash
           chainLength := chainLength
           signedHash := tiers.computeKeyed stream.checkpointKey
             (wordFrame markerId ++ marker.markerHash.bytes ++ beBytes 8 chainLength) }] }

def append (input : MarkerInput) : DecisionMarkerStream :=
  let markerId := stream.nextMarkerId
  let marker := stream.buildMarker tiers input
  let headed := updateChainHead tiers
    { stream with
      nextMarkerId := stream.nextMarkerId + 1
      markers := stream.markers ++ [marker] }
  let logged : DecisionMarkerStream :=
    { headed with
      events := headed.events ++
        [{ markerId := markerId
           markerType := input.decisionType.display
           chainLength := headed.markers.length
           decisionId := input.decisionId
           policyId := input.policyId
           principalId := input.principalId
           correlationId := input.correlationId.raw
           traceId := input.traceId
           component := "marker_stream"
           event := "marker_appended"
           outcome := "ok"
           errorCode := input.errorCode }] }
  if 0 < logged.checkpointInterval ∧ markerId % logged.checkpointInterval = 0 then
    emitCheckpoint tiers logged markerId
  else logged

def ofInputs (checkpointInterval : UInt64) (checkpointKey : Bytes) (inputs : List MarkerInput) :
    DecisionMarkerStream :=
  inputs.foldl (append tiers) (new checkpointInterval checkpointKey)

/-- The checks of `verify_chain` on one marker, behind the marker before it. -/
def verifyMarker (previous : Option DecisionMarker) (marker : DecisionMarker) :
    Except ChainIntegrityError Unit := do
  match previous with
  | some prev =>
    if marker.markerId ≤ prev.markerId then
      .error (.nonMonotonicId marker.markerId prev.markerId)
    else .ok ()
  | none => .ok ()
  let expectedPrev := (previous.map (·.markerHash)).getD .zero
  if marker.prevMarkerHash ≠ expectedPrev then
    .error (.chainLinkBroken marker.markerId expectedPrev marker.prevMarkerHash)
  else if marker.markerHash ≠ computeMarkerHash tiers marker then
    .error (.markerHashMismatch marker.markerId marker.markerHash (computeMarkerHash tiers marker))
  else .ok ()

def verifyMarkers : Option DecisionMarker → List DecisionMarker → Except ChainIntegrityError Unit
  | _, [] => .ok ()
  | previous, marker :: rest => do
      verifyMarker tiers previous marker
      verifyMarkers (some marker) rest

def verifyChain : Except ChainIntegrityError Unit :=
  if stream.markers.isEmpty then .error .emptyStream else verifyMarkers tiers none stream.markers

def verifyHead : Except ChainIntegrityError Unit :=
  match stream.markers.getLast?, stream.chainHead with
  | none, _ => .ok ()
  | some _, none => .error .headMismatch
  | some latest, some existingHead =>
    let expectedRolling := recomputeRollingHash tiers stream.markers
    let expectedSigned := signChainHead tiers stream.checkpointKey latest.markerId
      latest.markerHash expectedRolling
    if existingHead.headMarkerId ≠ latest.markerId ∨
        existingHead.latestMarkerHash ≠ latest.markerHash ∨
        existingHead.rollingChainHash ≠ expectedRolling ∨
        existingHead.signedHeadHash ≠ expectedSigned then
      .error .headMismatch
    else .ok ()

end DecisionMarkerStream

end Hashing

end FrankenEngine.Marker
