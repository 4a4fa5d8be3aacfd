import FrankenEngine.Authority.Signature

/-!
# Capability tokens and delegation chains

The tokens of `capability_token.rs`: what is signed, how a builder makes one,
and how a presented token is verified. The attenuation chains of
`delegation_chain.rs` are verified by a loop over the links. It is a recursion
here that sees the links still to come, of which the next one names the delegate.
-/

set_option autoImplicit false

namespace FrankenEngine.Authority

open Library Serde

inductive RuntimeCapability where
  | vmDispatch
  | gcInvoke
  | irLowering
  | policyRead
  | policyWrite
  | evidenceEmit
  | decisionInvoke
  | networkEgress
  | leaseManagement
  | idempotencyDerive
  | extensionLifecycle
  | heapAllocate
  | envRead
  | processSpawn
  | fsRead
  | fsWrite
  deriving DecidableEq, Repr

namespace RuntimeCapability

def display : RuntimeCapability → String
  | .vmDispatch => "vm_dispatch"
  | .gcInvoke => "gc_invoke"
  | .irLowering => "ir_lowering"
  | .policyRead => "policy_read"
  | .policyWrite => "policy_write"
  | .evidenceEmit => "evidence_emit"
  | .decisionInvoke => "decision_invoke"
  | .networkEgress => "network_egress"
  | .leaseManagement => "lease_management"
  | .idempotencyDerive => "idempotency_derive"
  | .extensionLifecycle => "extension_lifecycle"
  | .heapAllocate => "heap_allocate"
  | .envRead => "env_read"
  | .processSpawn => "process_spawn"
  | .fsRead => "fs_read"
  | .fsWrite => "fs_write"

theorem ctorIdx_injective : Function.Injective RuntimeCapability.ctorIdx := by
  intro left right same
  cases left <;> cases right <;> first | rfl | cases same

instance : LinearOrder RuntimeCapability :=
  LinearOrder.lift' RuntimeCapability.ctorIdx ctorIdx_injective

end RuntimeCapability

def Hashes.principalId (hashes : Hashes) (key : VerificationKey) : PrincipalId :=
  hashes.contentHash key.raw.bytes

structure CheckpointRef where
  minCheckpointSeq : UInt64
  checkpointId : EngineObjectId
  deriving DecidableEq

structure RevocationFreshnessRef where
  minRevocationSeq : UInt64
  revocationHeadHash : ContentHash
  deriving DecidableEq

inductive TokenVersion where
  | v2
  deriving DecidableEq, Repr

def TokenVersion.display : TokenVersion → String
  | .v2 => "v2"

inductive TokenError where
  | signatureInvalid (detail : String)
  | audienceRejected (presenter : PrincipalId) (audienceSize : Nat)
  | notYetValid (currentTick notBefore : UInt64)
  | expired (currentTick expiry : UInt64)
  | checkpointBindingFailed (requiredSeq verifierSeq : UInt64)
  | revocationFreshnessStale (requiredSeq verifierSeq : UInt64)
  | idDerivationFailed (detail : String)
  | invertedTemporalWindow (notBefore expiry : UInt64)
  | emptyCapabilities
  deriving DecidableEq

structure CapabilityToken where
  version : TokenVersion
  jti : EngineObjectId
  issuer : VerificationKey
  audience : OrderedSet PrincipalId
  capabilities : OrderedSet RuntimeCapability
  nbf : UInt64
  expiry : UInt64
  epoch : UInt64
  checkpointBinding : Option CheckpointRef
  revocationFreshness : Option RevocationFreshnessRef
  signature : Signature
  zone : String

namespace CapabilityToken

def checkpointView : Option CheckpointRef → CanonicalValue
  | some binding => .map [("checkpoint_id", .bytes binding.checkpointId.bytes),
      ("min_checkpoint_seq", .u64 binding.minCheckpointSeq)]
  | none => .null

def freshnessView : Option RevocationFreshnessRef → CanonicalValue
  | some freshness => .map [("min_revocation_seq", .u64 freshness.minRevocationSeq),
      ("revocation_head_hash", .bytes freshness.revocationHeadHash.bytes)]
  | none => .null

def unsignedView (token : CapabilityToken) : CanonicalValue :=
  .map [
    ("audience", .array (token.audience.keys.map fun principal => .bytes principal.bytes)),
    ("capabilities",
      .array (token.capabilities.keys.map fun capability => .string capability.display)),
    ("checkpoint_binding", checkpointView token.checkpointBinding),
    ("epoch", .u64 token.epoch),
    ("expiry", .u64 token.expiry),
    ("issuer", .bytes token.issuer.raw.bytes),
    ("jti", .bytes token.jti.bytes),
    ("nbf", .u64 token.nbf),
    ("revocation_freshness", freshnessView token.revocationFreshness),
    ("signature", .bytes Signature.sentinel.toBytes),
    ("version", .string token.version.display),
    ("zone", .string token.zone)]

def schemaDefinition : String := "FrankenEngine.CapabilityToken.v2"

def preimageBytes (hashes : Hashes) (token : CapabilityToken) : Bytes :=
  hashes.signaturePreimage .capabilityToken schemaDefinition token.unsignedView

end CapabilityToken

structure VerificationContext where
  currentTick : UInt64
  verifierCheckpointSeq : UInt64
  verifierRevocationSeq : UInt64

def verifySignatureOf (hashes : Hashes) (token : CapabilityToken) : Except TokenError Unit :=
  match hashes.verifySignature token.issuer (token.preimageBytes hashes) token.signature with
  | .error error => .error (.signatureInvalid error.display)
  | .ok () => .ok ()

variable (token : CapabilityToken)

/-- A token without an audience is accepted from any presenter. -/
def verifyAudience (presenter : PrincipalId) : Except TokenError Unit :=
  if !token.audience.keys.isEmpty && (token.audience.get? presenter).isNone then
    .error (.audienceRejected presenter token.audience.keys.length)
  else .ok ()

def verifyWindow (ctx : VerificationContext) : Except TokenError Unit :=
  if ctx.currentTick < token.nbf then .error (.notYetValid ctx.currentTick token.nbf)
  else if token.expiry < ctx.currentTick then .error (.expired ctx.currentTick token.expiry)
  else .ok ()

def verifyCheckpointBinding (ctx : VerificationContext) : Except TokenError Unit :=
  match token.checkpointBinding with
  | none => .ok ()
  | some binding =>
    if ctx.verifierCheckpointSeq < binding.minCheckpointSeq then
      .error (.checkpointBindingFailed binding.minCheckpointSeq ctx.verifierCheckpointSeq)
    else .ok ()

def verifyRevocationFreshness (ctx : VerificationContext) : Except TokenError Unit :=
  match token.revocationFreshness with
  | none => .ok ()
  | some freshness =>
    if ctx.verifierRevocationSeq < freshness.minRevocationSeq then
      .error (.revocationFreshnessStale freshness.minRevocationSeq ctx.verifierRevocationSeq)
    else .ok ()

def verifyToken (hashes : Hashes) (token : CapabilityToken) (presenter : PrincipalId)
    (ctx : VerificationContext) : Except TokenError Unit := do
  verifySignatureOf hashes token
  verifyAudience token presenter
  verifyWindow token ctx
  verifyCheckpointBinding token ctx
  verifyRevocationFreshness token ctx

structure DelegationVerificationContext where
  currentTick : UInt64
  verifierCheckpointSeq : UInt64
  verifierRevocationSeq : UInt64
  maxChainDepth : Nat
  authorizedRoots : OrderedSet VerificationKey
  requiredZone : Option String

def DelegationVerificationContext.asTokenContext (context : DelegationVerificationContext) :
    VerificationContext where
  currentTick := context.currentTick
  verifierCheckpointSeq := context.verifierCheckpointSeq
  verifierRevocationSeq := context.verifierRevocationSeq

inductive DelegationError where
  | emptyChain
  | depthExceeded (maxDepth actualDepth : Nat)
  | unauthorizedRoot (rootIssuer : VerificationKey)
  | missingCheckpointBinding (index : Nat)
  | missingRevocationFreshnessBinding (index : Nat)
  | tokenVerificationFailed (index : Nat) (error : TokenError)
  | attenuationViolation (index parentCapabilityCount childCapabilityCount : Nat)
      (amplifiedCapabilities : List RuntimeCapability)
  | zoneMismatch (index : Nat) (expectedZone actualZone : String)
  | revokedLink (index : Nat) (tokenId : EngineObjectId)
  | missingCapabilityAtLeaf (required : RuntimeCapability)
      (leafCapabilities : OrderedSet RuntimeCapability)

structure DelegationLinkSummary where
  index : Nat
  tokenId : EngineObjectId
  issuer : PrincipalId
  delegate : PrincipalId
  capabilityCount : Nat
  zone : String
  notBeforeTick : UInt64
  expiryTick : UInt64

structure AuthorizationProof where
  chainHash : ContentHash
  authorizedCapability : RuntimeCapability
  rootIssuer : PrincipalId
  leafDelegate : PrincipalId
  verifiedAtTick : UInt64
  chainSummary : List DelegationLinkSummary

abbrev RevocationOracle := EngineObjectId → Bool

/-- Whom a link is delegated to: the issuer of the next link, or the leaf delegate. -/
def delegateOf (hashes : Hashes) (leafDelegate : PrincipalId) :
    List CapabilityToken → PrincipalId
  | next :: _ => hashes.principalId next.issuer
  | [] => leafDelegate

def amplified (parent child : OrderedSet RuntimeCapability) : List RuntimeCapability :=
  child.keys.filter fun capability => (parent.get? capability).isNone

def checkAttenuation (index : Nat) (token : CapabilityToken) :
    List CapabilityToken → Except DelegationError Unit
  | [] => .ok ()
  | child :: _ =>
    if (amplified token.capabilities child.capabilities).isEmpty then .ok ()
    else
      .error (.attenuationViolation (index + 1) token.capabilities.keys.length
        child.capabilities.keys.length (amplified token.capabilities child.capabilities))

def linkSummary (hashes : Hashes) (index : Nat) (token : CapabilityToken)
    (delegate : PrincipalId) : DelegationLinkSummary where
  index
  tokenId := token.jti
  issuer := hashes.principalId token.issuer
  delegate
  capabilityCount := token.capabilities.keys.length
  zone := token.zone
  notBeforeTick := token.nbf
  expiryTick := token.expiry

section Links

variable (hashes : Hashes) (leafDelegate : PrincipalId) (context : DelegationVerificationContext)
  (oracle : RevocationOracle) (expectedZone : String)

/-- One turn of the loop, for the link at `index` with `rest` behind it. -/
def verifyLink (index : Nat) (token : CapabilityToken) (rest : List CapabilityToken) :
    Except DelegationError DelegationLinkSummary :=
  if token.zone ≠ expectedZone then .error (.zoneMismatch index expectedZone token.zone)
  else if token.checkpointBinding.isNone then .error (.missingCheckpointBinding index)
  else if token.revocationFreshness.isNone then
    .error (.missingRevocationFreshnessBinding index)
  else if oracle token.jti then .error (.revokedLink index token.jti)
  else
    let delegate := delegateOf hashes leafDelegate rest
    match verifyToken hashes token delegate context.asTokenContext with
    | .error error => .error (.tokenVerificationFailed index error)
    | .ok () =>
      match checkAttenuation index token rest with
      | .error error => .error error
      | .ok () => .ok (linkSummary hashes index token delegate)

def verifyLinks : Nat → List CapabilityToken → Except DelegationError (List DelegationLinkSummary)
  | _, [] => .ok []
  | index, token :: rest => do
      let summary ← verifyLink hashes leafDelegate context oracle expectedZone index token rest
      let summaries ← verifyLinks (index + 1) rest
      .ok (summary :: summaries)

end Links

def chainMaterial (links : List CapabilityToken) (leafDelegate : PrincipalId) : Bytes :=
  links.flatMap (fun token =>
    token.jti.bytes ++ token.issuer.raw.bytes ++ utf8 token.zone ++ [0xff] ++
      token.capabilities.keys.flatMap fun capability => utf8 capability.display ++ [0x1f]) ++
    leafDelegate.bytes

/-- The checks and the result behind the loop, for a chain with the given last link. -/
def authorize (hashes : Hashes) (root leaf : CapabilityToken) (links : List CapabilityToken)
    (required : RuntimeCapability) (leafDelegate : PrincipalId)
    (context : DelegationVerificationContext) (summary : List DelegationLinkSummary) :
    Except DelegationError AuthorizationProof :=
  if (leaf.capabilities.get? required).isNone then
    .error (.missingCapabilityAtLeaf required leaf.capabilities)
  else
    .ok { chainHash := hashes.contentHash (chainMaterial links leafDelegate)
          authorizedCapability := required
          rootIssuer := hashes.principalId root.issuer
          leafDelegate
          verifiedAtTick := context.currentTick
          chainSummary := summary }

def verifyChain (hashes : Hashes) (links : List CapabilityToken) (required : RuntimeCapability)
    (leafDelegate : PrincipalId) (context : DelegationVerificationContext)
    (oracle : RevocationOracle) : Except DelegationError AuthorizationProof :=
  match links with
  | [] => .error .emptyChain
  | root :: rest =>
    if context.maxChainDepth < (root :: rest).length then
      .error (.depthExceeded context.maxChainDepth (root :: rest).length)
    else if (context.authorizedRoots.get? root.issuer).isNone then
      .error (.unauthorizedRoot root.issuer)
    else do
      let expectedZone := context.requiredZone.getD root.zone
      let summary ←
        verifyLinks hashes leafDelegate context oracle expectedZone 0 (root :: rest)
      authorize hashes root ((root :: rest).getLast (List.cons_ne_nil root rest)) (root :: rest)
        required leafDelegate context summary

end FrankenEngine.Authority
