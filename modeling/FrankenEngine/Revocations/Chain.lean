import FrankenEngine.Authority.Signature

/-!
# The revocation chain

The append-only log of `revocation_chain.rs`: events linked by their ids, a
rolling hash over them, a signed head and an index of the revoked targets.
Appending returns the chain it leaves behind in every case, since a failed call
may already have changed it. A list length is far below `2 ^ 64`, so lengths
are cast to 64-bit words only where the source compares words.
-/

set_option autoImplicit false

namespace FrankenEngine.Revocations

open Library Serde Authority

inductive RevocationTargetType where
  | key
  | token
  | attestation
  | extension
  | checkpoint
  deriving DecidableEq, Repr

def RevocationTargetType.display : RevocationTargetType → String
  | .key => "key"
  | .token => "token"
  | .attestation => "attestation"
  | .extension => "extension"
  | .checkpoint => "checkpoint"

inductive RevocationReason where
  | compromised
  | expired
  | superseded
  | policyViolation
  | administrative
  deriving DecidableEq, Repr

def RevocationReason.display : RevocationReason → String
  | .compromised => "compromised"
  | .expired => "expired"
  | .superseded => "superseded"
  | .policyViolation => "policy_violation"
  | .administrative => "administrative"

structure Revocation where
  revocationId : EngineObjectId
  targetType : RevocationTargetType
  targetId : EngineObjectId
  reason : RevocationReason
  issuedBy : PrincipalId
  issuedAt : UInt64
  zone : String
  signature : Signature
  deriving DecidableEq

structure RevocationEvent where
  eventId : EngineObjectId
  revocation : Revocation
  prevEvent : Option EngineObjectId
  eventSeq : UInt64
  deriving DecidableEq

namespace RevocationEvent

def prevEventValue : Option EngineObjectId → CanonicalValue
  | some id => .bytes id.bytes
  | none => .null

/-- All of the event, its revocation and the signature of that included. -/
def canonicalValue (event : RevocationEvent) : CanonicalValue :=
  let revocation := event.revocation
  .map [
    ("event_id", .bytes event.eventId.bytes),
    ("event_seq", .u64 event.eventSeq),
    ("issued_at", .u64 revocation.issuedAt),
    ("issued_by", .bytes revocation.issuedBy.bytes),
    ("prev_event", prevEventValue event.prevEvent),
    ("reason", .string revocation.reason.display),
    ("revocation_id", .bytes revocation.revocationId.bytes),
    ("signature", .bytes (revocation.signature.lower.bytes ++ revocation.signature.upper.bytes)),
    ("target_id", .bytes revocation.targetId.bytes),
    ("target_type", .string revocation.targetType.display),
    ("zone", .string revocation.zone)]

def canonicalBytes (event : RevocationEvent) : Bytes := encodeValue event.canonicalValue

def contentHash (hashes : Hashes) (event : RevocationEvent) : ContentHash :=
  hashes.contentHash event.canonicalBytes

end RevocationEvent

structure RevocationHead where
  headId : EngineObjectId
  latestEvent : EngineObjectId
  headSeq : UInt64
  chainHash : ContentHash
  zone : String
  signature : Signature
  deriving DecidableEq

namespace RevocationHead

def unsignedView (head : RevocationHead) : CanonicalValue :=
  .map [
    ("chain_hash", .bytes head.chainHash.bytes),
    ("head_id", .bytes head.headId.bytes),
    ("head_seq", .u64 head.headSeq),
    ("latest_event", .bytes head.latestEvent.bytes),
    ("signature", .bytes Signature.sentinel.toBytes),
    ("zone", .string head.zone)]

def preimageBytes (hashes : Hashes) (head : RevocationHead) : Bytes :=
  hashes.signaturePreimage .revocation "FrankenEngine.RevocationHead.v1" head.unsignedView

end RevocationHead

inductive ChainError where
  | hashLinkMismatch (eventSeq : UInt64) (expectedPrev actualPrev : Option EngineObjectId)
  | sequenceDiscontinuity (expectedSeq actualSeq : UInt64)
  | invalidGenesis (detail : String)
  | chainIntegrity (detail : String)
  | signatureInvalid (detail : String)
  | duplicateTarget (targetId : EngineObjectId)
  deriving DecidableEq

inductive ChainEventType where
  | revocationAppended (eventSeq : UInt64) (targetId : EngineObjectId)
      (targetType : RevocationTargetType)
  | headAdvanced (oldSeq newSeq : UInt64)
  | appendRejected (reason : String)
  deriving DecidableEq

structure ChainEvent where
  eventType : ChainEventType
  zone : String
  traceId : String
  deriving DecidableEq

structure RevocationChain where
  zone : String
  events : List RevocationEvent
  head : Option RevocationHead
  revocationIndex : OrderedMap EngineObjectId UInt64
  chainHash : ContentHash
  auditEvents : List ChainEvent
  deriving DecidableEq

def genesisBytes : Bytes := utf8 "revocation-chain-genesis"

def extendHash (hashes : Hashes) (rolling : ContentHash) (event : RevocationEvent) : ContentHash :=
  hashes.contentHash (rolling.bytes ++ (event.contentHash hashes).bytes)

namespace RevocationChain

def new (hashes : Hashes) (zone : String) : RevocationChain where
  zone
  events := []
  head := none
  revocationIndex := .empty
  chainHash := hashes.contentHash genesisBytes
  auditEvents := []

def isRevoked (chain : RevocationChain) (targetId : EngineObjectId) : Bool :=
  (chain.revocationIndex.get? targetId).isSome

def audit (chain : RevocationChain) (traceId : String) (eventType : ChainEventType) :
    RevocationChain :=
  { chain with auditEvents := chain.auditEvents ++ [⟨eventType, chain.zone, traceId⟩] }

section Append

variable (hashes : Hashes) (chain : RevocationChain)

variable (revocation : Revocation)

/-- The id of an event. Its content holds the 32 bytes of the revocation id, so
the derivation cannot fail. -/
def deriveEventId (eventSeq : UInt64) (prevEvent : Option EngineObjectId) : EngineObjectId :=
  let previous := match prevEvent with
    | some id => id.bytes
    | none => []
  hashes.deterministicHash (idPreimage .revocation chain.zone
    (hashes.schemaId "FrankenEngine.RevocationEvent.v1")
    (revocation.revocationId.bytes ++ beBytes 8 eventSeq.toNat ++ previous))

def deriveHeadId (headSeq : UInt64) (latestEvent : EngineObjectId) : EngineObjectId :=
  hashes.deterministicHash (idPreimage .revocation chain.zone
    (hashes.schemaId "FrankenEngine.RevocationHead.v1")
    (beBytes 8 headSeq.toNat ++ latestEvent.bytes ++ chain.chainHash.bytes))

def nextEvent : RevocationEvent :=
  let eventSeq := UInt64.ofNat chain.events.length
  let prevEvent := chain.events.getLast?.map (·.eventId)
  { eventId := deriveEventId hashes chain revocation eventSeq prevEvent
    revocation, prevEvent, eventSeq }

def unsignedHead (event : RevocationEvent) : RevocationHead where
  headId := deriveHeadId hashes chain event.eventSeq event.eventId
  latestEvent := event.eventId
  headSeq := event.eventSeq
  chainHash := chain.chainHash
  zone := chain.zone
  signature := .sentinel

def store (event : RevocationEvent) (head : RevocationHead) (traceId : String) :
    RevocationChain :=
  let stored := { chain with
    revocationIndex := chain.revocationIndex.insert event.revocation.targetId event.eventSeq
    events := chain.events ++ [event]
    head := some head }
  let appended := stored.audit traceId
    (.revocationAppended event.eventSeq event.revocation.targetId event.revocation.targetType)
  if 0 < event.eventSeq then
    appended.audit traceId (.headAdvanced (event.eventSeq - 1) event.eventSeq)
  else appended

def zoneMismatch : String :=
  "zone mismatch: chain=" ++ chain.zone ++ ", revocation=" ++ revocation.zone

/-- The rolling hash is advanced before the head is signed. -/
def append (headSigningKey : SigningKey) (traceId : String) :
    RevocationChain × Except ChainError UInt64 :=
  if revocation.zone ≠ chain.zone then
    (chain.audit traceId (.appendRejected (chain.zoneMismatch revocation)),
      .error (.chainIntegrity (chain.zoneMismatch revocation)))
  else if (chain.revocationIndex.get? revocation.targetId).isSome then
    (chain.audit traceId (.appendRejected ("duplicate target: " ++ toHex revocation.targetId)),
      .error (.duplicateTarget revocation.targetId))
  else
    let event := nextEvent hashes chain revocation
    let rolled := { chain with chainHash := extendHash hashes chain.chainHash event }
    let head := unsignedHead hashes rolled event
    match hashes.signPreimage headSigningKey (head.preimageBytes hashes) with
    | .error error => (rolled, .error (.signatureInvalid error.display))
    | .ok signature => (rolled.store event { head with signature } traceId, .ok event.eventSeq)

end Append

/-- The walk of `verify_chain`, for the events from position `index` on: the
previous event's id and the rolling hash so far are passed along. -/
def walkEvents (hashes : Hashes) :
    Nat → Option EngineObjectId → ContentHash → List RevocationEvent → Except ChainError ContentHash
  | _, _, rolling, [] => .ok rolling
  | index, previous, rolling, event :: rest =>
    let expectedSeq := UInt64.ofNat index
    if event.eventSeq ≠ expectedSeq then
      .error (.sequenceDiscontinuity expectedSeq event.eventSeq)
    else if event.prevEvent ≠ previous then
      .error (.hashLinkMismatch expectedSeq previous event.prevEvent)
    else
      walkEvents hashes (index + 1) (some event.eventId) (extendHash hashes rolling event) rest

def headSeqMismatch (headSeq lastSeq : UInt64) : String :=
  "head seq " ++ headSeq.toNat.repr ++ " does not match last event seq " ++ lastSeq.toNat.repr

def checkHead (events : List RevocationEvent) (rolling : ContentHash) :
    Option RevocationHead → Except ChainError Unit
  | none => .ok ()
  | some head =>
    let lastSeq := UInt64.ofNat (events.length - 1)
    if rolling ≠ head.chainHash then
      .error (.chainIntegrity "rolling chain hash does not match head")
    else if head.headSeq ≠ lastSeq then
      .error (.chainIntegrity (headSeqMismatch head.headSeq lastSeq))
    else .ok ()

def verifyChain (hashes : Hashes) (chain : RevocationChain) : Except ChainError Unit :=
  match chain.events with
  | [] =>
    if chain.head.isSome then
      .error (.chainIntegrity "empty chain must not have a head")
    else .ok ()
  | genesis :: rest =>
    if genesis.eventSeq ≠ 0 then
      .error (.invalidGenesis ("genesis seq must be 0, got " ++ genesis.eventSeq.toNat.repr))
    else if genesis.prevEvent.isSome then
      .error (.invalidGenesis "genesis must have prev_event = None")
    else do
      let rolling ← walkEvents hashes 0 none (hashes.contentHash genesisBytes) (genesis :: rest)
      checkHead (genesis :: rest) rolling chain.head

def checkRebuiltLink (index : Nat) (previous : Option EngineObjectId) (event : RevocationEvent) :
    Except ChainError Unit :=
  if event.prevEvent = previous then .ok ()
  else if index = 0 then .error (.invalidGenesis "genesis must have prev_event = None")
  else .error (.hashLinkMismatch event.eventSeq previous event.prevEvent)

/-- The loop of `rebuild_from_events`, which fills the index of `chain` and
advances its rolling hash. -/
def rebuildEvents (hashes : Hashes) :
    Nat → Option EngineObjectId → RevocationChain → List RevocationEvent →
      Except ChainError RevocationChain
  | _, _, chain, [] => .ok chain
  | index, previous, chain, event :: rest =>
    if event.eventSeq ≠ UInt64.ofNat index then
      .error (.sequenceDiscontinuity (UInt64.ofNat index) event.eventSeq)
    else
      match checkRebuiltLink index previous event with
      | .error error => .error error
      | .ok () =>
        if (chain.revocationIndex.get? event.revocation.targetId).isSome then
          .error (.duplicateTarget event.revocation.targetId)
        else
          rebuildEvents hashes (index + 1) (some event.eventId)
            { chain with
              chainHash := extendHash hashes chain.chainHash event
              revocationIndex :=
                chain.revocationIndex.insert event.revocation.targetId event.eventSeq }
            rest

def checkRebuiltHead (events : List RevocationEvent) (rolling : ContentHash) :
    Option RevocationHead → Except ChainError Unit
  | none => .ok ()
  | some head =>
    let lastSeq := UInt64.ofNat (events.length - 1)
    if events.isEmpty then .error (.chainIntegrity "empty chain must not have a head")
    else if head.headSeq ≠ lastSeq then
      .error (.chainIntegrity (headSeqMismatch head.headSeq lastSeq))
    else if head.chainHash ≠ rolling then
      .error (.chainIntegrity "head chain_hash does not match computed hash")
    else .ok ()

def rebuildFromEvents (hashes : Hashes) (zone : String) (events : List RevocationEvent)
    (head : Option RevocationHead) : Except ChainError RevocationChain := do
  let chain ← rebuildEvents hashes 0 none (new hashes zone) events
  checkRebuiltHead events chain.chainHash head
  .ok { chain with events, head }

end RevocationChain

end FrankenEngine.Revocations
