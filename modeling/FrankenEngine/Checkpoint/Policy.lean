import FrankenEngine.Authority.Signature

/-!
# Policy checkpoints

The quorum-signed checkpoints of `policy_checkpoint.rs` and the signature
arrays of `sorted_multisig.rs`. The zone of a checkpoint goes into its id, but
neither into its fields nor into what is signed. A signature array that is
deserialised need not be sorted, so it is a plain list here.
-/

set_option autoImplicit false

namespace FrankenEngine.Checkpoint

open Library Serde Authority

/-!
## Signature arrays
-/

structure SignerSignature where
  signer : VerificationKey
  signature : Signature
  deriving DecidableEq

inductive MultiSigError where
  | duplicateSignerKey (keyHex : String) (positions : Nat × Nat)
  | quorumNotMet (required valid total : Nat)
  | emptyArray
  | zeroQuorumThreshold
  deriving DecidableEq

def MultiSigError.display : MultiSigError → String
  | .duplicateSignerKey keyHex positions =>
    "duplicate signer key " ++ keyHex ++ " at positions " ++ positions.1.repr ++ " and " ++
      positions.2.repr
  | .quorumNotMet required valid total =>
    "quorum not met: " ++ valid.repr ++ "/" ++ total.repr ++ " valid, " ++ required.repr ++
      " required"
  | .emptyArray => "empty signature array"
  | .zeroQuorumThreshold => "quorum threshold is zero"

structure SortedSignatureArray where
  entries : List SignerSignature
  deriving DecidableEq

structure QuorumResult where
  quorumMet : Bool
  validCount : Nat
  invalidCount : Nat
  unauthorizedCount : Nat
  total : Nat
  threshold : Nat
  invalidSigners : List (VerificationKey × String)
  unauthorizedSigners : List VerificationKey

namespace SortedSignatureArray

def adjacentDuplicate : Nat → List SignerSignature → Option (Nat × VerificationKey)
  | index, first :: second :: rest =>
    if second.signer = first.signer then some (index, second.signer)
    else adjacentDuplicate (index + 1) (second :: rest)
  | _, _ => none

def fromUnsorted (entries : List SignerSignature) : Except MultiSigError SortedSignatureArray :=
  if entries.isEmpty then .error .emptyArray
  else
    let sorted := entries.insertionSort fun left right => left.signer ≤ right.signer
    match adjacentDuplicate 0 sorted with
    | some (index, signer) => .error (.duplicateSignerKey (toHex signer.raw) (index, index + 1))
    | none => .ok ⟨sorted⟩

section Quorum

variable (authorizedSigners : List VerificationKey)
  (verify : VerificationKey → Signature → Except SignatureError Unit)

def validEntries (entries : List SignerSignature) : List SignerSignature :=
  entries.filter fun entry =>
    authorizedSigners.contains entry.signer && (verify entry.signer entry.signature).isOk

def invalidSigners (entries : List SignerSignature) : List (VerificationKey × String) :=
  entries.filterMap fun entry =>
    if authorizedSigners.contains entry.signer then
      match verify entry.signer entry.signature with
      | .error error => some (entry.signer, error.display)
      | .ok () => none
    else none

def unauthorizedSigners (entries : List SignerSignature) : List VerificationKey :=
  (entries.filter fun entry => !authorizedSigners.contains entry.signer).map (·.signer)

def verifyQuorum (array : SortedSignatureArray) (threshold : Nat) :
    Except MultiSigError QuorumResult :=
  if threshold = 0 then .error .zeroQuorumThreshold
  else
    let validCount := (validEntries authorizedSigners verify array.entries).length
    let invalid := invalidSigners authorizedSigners verify array.entries
    let unauthorized := unauthorizedSigners authorizedSigners array.entries
    if threshold ≤ validCount then
      .ok { quorumMet := true, validCount, invalidCount := invalid.length
            unauthorizedCount := unauthorized.length, total := array.entries.length, threshold
            invalidSigners := invalid, unauthorizedSigners := unauthorized }
    else .error (.quorumNotMet threshold validCount array.entries.length)

end Quorum

end SortedSignatureArray

/-!
## Checkpoints
-/

inductive PolicyType where
  | runtimeExecution
  | capabilityLattice
  | extensionTrust
  | evidenceRetention
  | revocationGovernance
  deriving DecidableEq, Repr

namespace PolicyType

def display : PolicyType → String
  | .runtimeExecution => "runtime_execution"
  | .capabilityLattice => "capability_lattice"
  | .extensionTrust => "extension_trust"
  | .evidenceRetention => "evidence_retention"
  | .revocationGovernance => "revocation_governance"

instance : LinearOrder PolicyType :=
  LinearOrder.lift' PolicyType.ctorIdx fun left right same => by
    cases left <;> cases right <;> first | rfl | cases same

end PolicyType

structure PolicyHead where
  policyType : PolicyType
  policyHash : ContentHash
  policyVersion : UInt64
  deriving DecidableEq

/-- The fields of a checkpoint that its id and its signatures cover. -/
structure CheckpointContent where
  prevCheckpoint : Option EngineObjectId
  checkpointSeq : UInt64
  epochId : UInt64
  policyHeads : List PolicyHead
  createdAt : UInt64
  deriving DecidableEq

structure PolicyCheckpoint extends CheckpointContent where
  checkpointId : EngineObjectId
  quorumSignatures : SortedSignatureArray
  deriving DecidableEq

inductive CheckpointError where
  | missingPredecessor
  | nonMonotonicSequence (prevSeq currentSeq : UInt64)
  | genesisSequenceNotZero (actual : UInt64)
  | chainLinkageBroken (expected actual : EngineObjectId)
  | emptyPolicyHeads
  | quorumNotMet (required provided : Nat)
  | duplicatePolicyType (policyType : PolicyType)
  | idDerivationFailed (detail : String)
  | signatureInvalid (detail : String)
  | epochRegression (prevEpoch currentEpoch : UInt64)
  deriving DecidableEq

def CheckpointError.display : CheckpointError → String
  | .missingPredecessor => "non-genesis checkpoint must have a predecessor"
  | .nonMonotonicSequence prevSeq currentSeq =>
    "non-monotonic sequence: prev=" ++ prevSeq.toNat.repr ++ ", current=" ++
      currentSeq.toNat.repr
  | .genesisSequenceNotZero actual => "genesis sequence must be 0, got " ++ actual.toNat.repr
  | .chainLinkageBroken expected actual =>
    "chain linkage: expected " ++ toHex expected ++ ", got " ++ toHex actual
  | .emptyPolicyHeads => "policy heads must not be empty"
  | .quorumNotMet required provided =>
    "quorum not met: " ++ provided.repr ++ "/" ++ required.repr
  | .duplicatePolicyType policyType => "duplicate policy type: " ++ policyType.display
  | .idDerivationFailed detail => "ID derivation failed: " ++ detail
  | .signatureInvalid detail => "signature invalid: " ++ detail
  | .epochRegression prevEpoch currentEpoch =>
    "epoch regression: prev=epoch:" ++ prevEpoch.toNat.repr ++ ", current=epoch:" ++
      currentEpoch.toNat.repr

namespace CheckpointContent

def schemaDefinition : String := "FrankenEngine.PolicyCheckpoint.v1"

def headView (head : PolicyHead) : CanonicalValue :=
  .map [
    ("policy_hash", .bytes head.policyHash.bytes),
    ("policy_type", .string head.policyType.display),
    ("policy_version", .u64 head.policyVersion)]

def prevView : Option EngineObjectId → CanonicalValue
  | some id => .bytes id.bytes
  | none => .null

def unsignedView (content : CheckpointContent) : CanonicalValue :=
  .map [
    ("checkpoint_seq", .u64 content.checkpointSeq),
    ("created_at", .u64 content.createdAt),
    ("epoch_id", .u64 content.epochId),
    ("policy_heads", .array (content.policyHeads.map headView)),
    ("prev_checkpoint", prevView content.prevCheckpoint),
    ("quorum_signatures", .bytes Signature.sentinel.toBytes)]

/-- What the quorum signs. The zone is not part of it. -/
def preimageBytes (hashes : Hashes) (content : CheckpointContent) : Bytes :=
  hashes.signaturePreimage .checkpointArtifact schemaDefinition content.unsignedView

def zonePreimage (hashes : Hashes) (zone : String) (content : CheckpointContent) : Bytes :=
  idPreimage .checkpointArtifact zone (hashes.schemaId schemaDefinition)
    (encodeValue content.unsignedView)

def deriveId (hashes : Hashes) (zone : String) (content : CheckpointContent) :
    Except IdError EngineObjectId :=
  hashes.deriveId .checkpointArtifact zone (hashes.schemaId schemaDefinition)
    (encodeValue content.unsignedView)

end CheckpointContent

/-!
## Building
-/

structure CheckpointBuilder extends CheckpointContent where
  prevSeq : Option UInt64
  prevEpoch : Option UInt64
  zone : String

namespace CheckpointBuilder

def genesis (epochId createdAt : UInt64) (zone : String) : CheckpointBuilder where
  prevCheckpoint := none
  checkpointSeq := 0
  epochId
  policyHeads := []
  createdAt
  prevSeq := none
  prevEpoch := none
  zone

def after (prev : PolicyCheckpoint) (checkpointSeq epochId createdAt : UInt64) (zone : String) :
    CheckpointBuilder where
  prevCheckpoint := some prev.checkpointId
  checkpointSeq
  epochId
  policyHeads := []
  createdAt
  prevSeq := some prev.checkpointSeq
  prevEpoch := some prev.epochId
  zone

variable (builder : CheckpointBuilder)

def addPolicyHead (head : PolicyHead) : CheckpointBuilder :=
  { builder with policyHeads := builder.policyHeads ++ [head] }

def validateOrder : Except CheckpointError Unit :=
  match builder.prevCheckpoint with
  | none =>
    if builder.checkpointSeq ≠ 0 then .error (.genesisSequenceNotZero builder.checkpointSeq)
    else .ok ()
  | some _ =>
    match builder.prevSeq.filter (builder.checkpointSeq ≤ ·) with
    | some prevSeq => .error (.nonMonotonicSequence prevSeq builder.checkpointSeq)
    | none =>
      match builder.prevEpoch.filter (builder.epochId < ·) with
      | some prevEpoch => .error (.epochRegression prevEpoch builder.epochId)
      | none => .ok ()

def duplicateType (seen : List String) : List PolicyHead → Option PolicyType
  | [] => none
  | head :: rest =>
    if seen.contains head.policyType.display then some head.policyType
    else duplicateType (head.policyType.display :: seen) rest

def validateHeads : Except CheckpointError Unit :=
  if builder.policyHeads.isEmpty then .error .emptyPolicyHeads
  else
    match duplicateType [] builder.policyHeads with
    | some policyType => .error (.duplicatePolicyType policyType)
    | none => .ok ()

def content : CheckpointContent :=
  { builder.toCheckpointContent with
    policyHeads := builder.policyHeads.insertionSort fun left right =>
      left.policyType ≤ right.policyType }

def signAll (hashes : Hashes) (preimage : Bytes) :
    List SigningKey → Except CheckpointError (List SignerSignature)
  | [] => .ok []
  | key :: rest =>
    match hashes.signPreimage key preimage with
    | .error error => .error (.signatureInvalid ("signing failed: " ++ error.display))
    | .ok signature => do
        let others ← signAll hashes preimage rest
        .ok (⟨hashes.verificationKey key, signature⟩ :: others)

def assemble (content : CheckpointContent) (checkpointId : EngineObjectId)
    (entries : List SignerSignature) : Except CheckpointError PolicyCheckpoint :=
  match SortedSignatureArray.fromUnsorted entries with
  | .error error =>
    .error (.signatureInvalid ("multi-sig construction failed: " ++ error.display))
  | .ok quorumSignatures => .ok { content with checkpointId, quorumSignatures }

def build (hashes : Hashes) (builder : CheckpointBuilder) (signingKeys : List SigningKey) :
    Except CheckpointError PolicyCheckpoint := do
  builder.validateOrder
  builder.validateHeads
  match builder.content.deriveId hashes builder.zone with
  | .error error => .error (.idDerivationFailed error.display)
  | .ok checkpointId => do
      let entries ← signAll hashes (builder.content.preimageBytes hashes) signingKeys
      assemble builder.content checkpointId entries

end CheckpointBuilder

/-!
## Verification
-/

def verifyChainLinkage (prev current : PolicyCheckpoint) : Except CheckpointError Unit :=
  match current.prevCheckpoint with
  | none => .error .missingPredecessor
  | some prevId =>
    if prevId ≠ prev.checkpointId then .error (.chainLinkageBroken prev.checkpointId prevId)
    else if current.checkpointSeq ≤ prev.checkpointSeq then
      .error (.nonMonotonicSequence prev.checkpointSeq current.checkpointSeq)
    else if current.epochId < prev.epochId then
      .error (.epochRegression prev.epochId current.epochId)
    else .ok ()

def verifyCheckpointQuorum (hashes : Hashes) (checkpoint : PolicyCheckpoint)
    (quorumThreshold : Nat) (authorizedSigners : List VerificationKey) :
    Except CheckpointError Unit :=
  let preimage := checkpoint.preimageBytes hashes
  let verify := fun key signature => hashes.verifySignature key preimage signature
  match checkpoint.quorumSignatures.verifyQuorum authorizedSigners verify quorumThreshold with
  | .ok _ => .ok ()
  | .error (.quorumNotMet required valid _) => .error (.quorumNotMet required valid)
  | .error error => .error (.signatureInvalid ("quorum verification error: " ++ error.display))

end FrankenEngine.Checkpoint
