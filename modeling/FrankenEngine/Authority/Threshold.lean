import FrankenEngine.Authority.Signature

/-!
# Threshold signing

The policies, ceremonies and results of `threshold_signing.rs`. A ceremony
collects one partial signature per authorised share holder; a result is the
plain list that leaves it, and is verified without the ceremony.
-/

set_option autoImplicit false

namespace FrankenEngine.Authority

open Library

inductive ThresholdScope where
  | emergencyRevocation
  | keyRotation
  | authoritySetChange
  | policyCheckpoint
  deriving DecidableEq, Repr

namespace ThresholdScope

def asStr : ThresholdScope → String
  | .emergencyRevocation => "emergency_revocation"
  | .keyRotation => "key_rotation"
  | .authoritySetChange => "authority_set_change"
  | .policyCheckpoint => "policy_checkpoint"

instance : LinearOrder ThresholdScope :=
  LinearOrder.lift' ThresholdScope.ctorIdx fun left right same => by
    cases left <;> cases right <;> first | rfl | cases same

end ThresholdScope

structure ShareHolderId where
  raw : Digest
  deriving DecidableEq

instance : LinearOrder ShareHolderId :=
  LinearOrder.lift' ShareHolderId.raw fun left right same => by
    cases left
    cases right
    cases same
    rfl

def ShareHolderId.fromVerificationKey (key : VerificationKey) : ShareHolderId := ⟨key.raw⟩

inductive ThresholdError where
  | invalidThreshold (k n : UInt32) (detail : String)
  | insufficientThresholdShares (collected required : UInt32)
  | unauthorizedShareHolder (holder : ShareHolderId)
  | duplicateSubmission (holder : ShareHolderId)
  | partialSignatureInvalid (holder : ShareHolderId)
  | signingFailed (detail : String)
  | idDerivationFailed (detail : String)
  | ceremonyAlreadyFinalized
  | preimageMismatch
  | scopeNotThresholded (scope : ThresholdScope)
  | noScopedOperations
  deriving DecidableEq

structure ThresholdSigningPolicy where
  policyId : EngineObjectId
  principalId : PrincipalId
  thresholdK : UInt32
  totalN : UInt32
  authorizedShares : OrderedSet ShareHolderId
  scopedOperations : OrderedSet ThresholdScope
  epoch : UInt64
  zone : String

structure CreateThresholdPolicyInput where
  principalId : PrincipalId
  thresholdK : UInt32
  authorizedShares : OrderedSet ShareHolderId
  scopedOperations : OrderedSet ThresholdScope
  epoch : UInt64
  zone : String

namespace ThresholdSigningPolicy

def canonical (input : CreateThresholdPolicyInput) (totalN : UInt32) : Bytes :=
  input.principalId.bytes ++ beBytes 4 input.thresholdK.toNat ++ beBytes 4 totalN.toNat ++
    input.authorizedShares.keys.flatMap (fun share => share.raw.bytes) ++
    input.scopedOperations.keys.flatMap (fun scope => utf8 scope.asStr) ++
    utf8 input.zone ++ beBytes 8 input.epoch.toNat

def create (hashes : Hashes) (input : CreateThresholdPolicyInput) :
    Except ThresholdError ThresholdSigningPolicy :=
  let totalN := UInt32.ofNat input.authorizedShares.keys.length
  if input.thresholdK = 0 then
    .error (.invalidThreshold input.thresholdK totalN "threshold k must be > 0")
  else if totalN < input.thresholdK then
    .error (.invalidThreshold input.thresholdK totalN "threshold k must be <= n")
  else if totalN < 2 then
    .error (.invalidThreshold input.thresholdK totalN "need at least 2 share holders")
  else if input.scopedOperations.keys.isEmpty then .error .noScopedOperations
  else
    match hashes.deriveId .policyObject input.zone
        (hashes.schemaId "FrankenEngine.ThresholdSigningPolicy.v1") (canonical input totalN) with
    | .error error => .error (.idDerivationFailed error.display)
    | .ok policyId =>
      .ok { policyId, principalId := input.principalId, thresholdK := input.thresholdK, totalN
            authorizedShares := input.authorizedShares
            scopedOperations := input.scopedOperations
            epoch := input.epoch, zone := input.zone }

def requiresThreshold (policy : ThresholdSigningPolicy) (scope : ThresholdScope) : Bool :=
  (policy.scopedOperations.get? scope).isSome

end ThresholdSigningPolicy

structure PartialSignature where
  signer : ShareHolderId
  verificationKey : VerificationKey
  signature : Signature
  signedAt : UInt64
  deriving DecidableEq

inductive ThresholdEventType where
  | ceremonyInitiated (scope : ThresholdScope) (thresholdK totalAuthorized : UInt32)
  | partialSignatureSubmitted (signer : ShareHolderId) (signaturesCollected thresholdK : UInt32)
  | unauthorizedSubmission (signer : ShareHolderId)
  | ceremonyFinalized (participants : List ShareHolderId)

structure ThresholdEvent where
  eventType : ThresholdEventType
  ceremonyId : EngineObjectId
  zone : String

structure ThresholdCeremony where
  ceremonyId : EngineObjectId
  policyId : EngineObjectId
  scope : ThresholdScope
  thresholdK : UInt32
  preimageHash : ContentHash
  partialSignatures : OrderedMap ShareHolderId PartialSignature
  authorizedShares : OrderedSet ShareHolderId
  initiatedAt : UInt64
  zone : String
  finalized : Bool
  events : List ThresholdEvent

structure ThresholdResult where
  ceremonyId : EngineObjectId
  policyId : EngineObjectId
  scope : ThresholdScope
  preimageHash : ContentHash
  signatures : List PartialSignature
  participatingShares : List ShareHolderId
  thresholdK : UInt32
  deriving DecidableEq

/-- The loop over the collected signatures: the first invalid one is reported
under the name that stands beside it. -/
def verifyPartials (hashes : Hashes) (preimage : Bytes) :
    List (ShareHolderId × PartialSignature) → Except ThresholdError Unit
  | [] => .ok ()
  | (holder, held) :: rest =>
    match hashes.verifySignature held.verificationKey preimage held.signature with
    | .error _ => .error (.partialSignatureInvalid holder)
    | .ok () => verifyPartials hashes preimage rest

namespace ThresholdCeremony

variable (ceremony : ThresholdCeremony)

def emitEvent (eventType : ThresholdEventType) : ThresholdCeremony :=
  { ceremony with
    events := ceremony.events ++ [⟨eventType, ceremony.ceremonyId, ceremony.zone⟩] }

def new (hashes : Hashes) (policy : ThresholdSigningPolicy) (scope : ThresholdScope)
    (preimage : Bytes) (initiatedAt : UInt64) : Except ThresholdError ThresholdCeremony :=
  if policy.requiresThreshold scope then
    let preimageHash := hashes.contentHash preimage
    let canonical := policy.policyId.bytes ++ preimageHash.bytes ++ beBytes 8 initiatedAt.toNat
    match hashes.deriveId .evidenceRecord policy.zone
        (hashes.schemaId "FrankenEngine.ThresholdCeremony.v1") canonical with
    | .error error => .error (.idDerivationFailed error.display)
    | .ok ceremonyId =>
      let ceremony : ThresholdCeremony :=
        { ceremonyId, policyId := policy.policyId, scope, thresholdK := policy.thresholdK
          preimageHash, partialSignatures := .empty
          authorizedShares := policy.authorizedShares, initiatedAt, zone := policy.zone
          finalized := false, events := [] }
      .ok (ceremony.emitEvent (.ceremonyInitiated scope policy.thresholdK policy.totalN))
  else .error (.scopeNotThresholded scope)

def signaturesCollected : UInt32 :=
  UInt32.ofNat ceremony.partialSignatures.keys.length

def isThresholdMet : Bool :=
  ceremony.thresholdK ≤ ceremony.signaturesCollected

def collect (held : PartialSignature) : ThresholdCeremony :=
  let stored := { ceremony with
    partialSignatures := ceremony.partialSignatures.insert held.signer held }
  stored.emitEvent
    (.partialSignatureSubmitted held.signer stored.signaturesCollected ceremony.thresholdK)

def submitPartial (hashes : Hashes) (ceremony : ThresholdCeremony) (signerKey : SigningKey)
    (preimage : Bytes) (signedAt : UInt64) : ThresholdCeremony × Except ThresholdError Unit :=
  if ceremony.finalized then (ceremony, .error .ceremonyAlreadyFinalized)
  else if hashes.contentHash preimage ≠ ceremony.preimageHash then
    (ceremony, .error .preimageMismatch)
  else
    let key := hashes.verificationKey signerKey
    let holder := ShareHolderId.fromVerificationKey key
    if (ceremony.authorizedShares.get? holder).isNone then
      (ceremony.emitEvent (.unauthorizedSubmission holder),
        .error (.unauthorizedShareHolder holder))
    else if (ceremony.partialSignatures.get? holder).isSome then
      (ceremony, .error (.duplicateSubmission holder))
    else
      match hashes.signPreimage signerKey preimage with
      | .error error => (ceremony, .error (.signingFailed error.display))
      | .ok signature => (ceremony.collect ⟨holder, key, signature, signedAt⟩, .ok ())

def toResult : ThresholdResult where
  ceremonyId := ceremony.ceremonyId
  policyId := ceremony.policyId
  scope := ceremony.scope
  preimageHash := ceremony.preimageHash
  signatures := ceremony.partialSignatures.values
  participatingShares := ceremony.partialSignatures.keys
  thresholdK := ceremony.thresholdK

def finalize (hashes : Hashes) (ceremony : ThresholdCeremony) (preimage : Bytes) :
    ThresholdCeremony × Except ThresholdError ThresholdResult :=
  if ceremony.finalized then (ceremony, .error .ceremonyAlreadyFinalized)
  else if ceremony.isThresholdMet then
    match verifyPartials hashes preimage ceremony.partialSignatures.entries with
    | .error error => (ceremony, .error error)
    | .ok () =>
      let closed := { ceremony with finalized := true }
      (closed.emitEvent (.ceremonyFinalized ceremony.partialSignatures.keys),
        .ok ceremony.toResult)
  else
    (ceremony, .error (.insufficientThresholdShares ceremony.signaturesCollected
      ceremony.thresholdK))

end ThresholdCeremony

def ThresholdResult.verify (hashes : Hashes) (result : ThresholdResult) (preimage : Bytes) :
    Except ThresholdError Unit :=
  let collected := UInt32.ofNat result.signatures.length
  if hashes.contentHash preimage ≠ result.preimageHash then .error .preimageMismatch
  else if collected < result.thresholdK then
    .error (.insufficientThresholdShares collected result.thresholdK)
  else verifyPartials hashes preimage (result.signatures.map fun held => (held.signer, held))

end FrankenEngine.Authority
