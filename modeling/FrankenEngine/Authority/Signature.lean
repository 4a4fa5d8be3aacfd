import FrankenEngine.HashTiers
import FrankenEngine.Serde.Codec

/-!
# Object identifiers and signatures

The domain-separated identifiers of `engine_object_id.rs` and the keys, signing
and verification of `signature_preimage.rs`. Both hash functions are
parameters. The scheme is symmetric: the verification key is the key of the
message authentication code, and signing derives it from the signing key.
-/

set_option autoImplicit false

namespace FrankenEngine.Authority

open Library Serde

/-- The hash tiers together with the hash that identifiers are made of. -/
structure Hashes extends HashTiers where
  deterministicHash : Bytes → Digest

inductive ObjectDomain where
  | policyObject
  | evidenceRecord
  | revocation
  | signedManifest
  | attestation
  | capabilityToken
  | checkpointArtifact
  | recoveryArtifact
  | keyBundle
  deriving DecidableEq, Repr

def ObjectDomain.tag : ObjectDomain → String
  | .policyObject => "FrankenEngine.PolicyObject.v1"
  | .evidenceRecord => "FrankenEngine.EvidenceRecord.v1"
  | .revocation => "FrankenEngine.Revocation.v1"
  | .signedManifest => "FrankenEngine.SignedManifest.v1"
  | .attestation => "FrankenEngine.Attestation.v1"
  | .capabilityToken => "FrankenEngine.CapabilityToken.v1"
  | .checkpointArtifact => "FrankenEngine.CheckpointArtifact.v1"
  | .recoveryArtifact => "FrankenEngine.RecoveryArtifact.v1"
  | .keyBundle => "FrankenEngine.KeyBundle.v1"

abbrev EngineObjectId := Digest

abbrev SchemaId := Digest

abbrev PrincipalId := Digest

def hexDigit (value : Nat) : Char := "0123456789abcdef".toList.getD value '0'

def toHex (digest : Digest) : String :=
  String.ofList (digest.bytes.flatMap fun byte =>
    [hexDigit (byte.toNat / 16), hexDigit (byte.toNat % 16)])

def hexPrefix (digest : Digest) (count : Nat) : String :=
  String.ofList ((digest.bytes.take count).flatMap fun byte =>
    [hexDigit (byte.toNat / 16), hexDigit (byte.toNat % 16)])

inductive IdError where
  | emptyCanonicalBytes
  deriving DecidableEq, Repr

def IdError.display : IdError → String
  | .emptyCanonicalBytes => "canonical bytes are empty"

/-- The preimage of an identifier: tag and zone behind their lengths, the schema
and the content. -/
def idPreimage (domain : ObjectDomain) (zone : String) (schemaId : SchemaId)
    (canonicalBytes : Bytes) : Bytes :=
  textFrame domain.tag ++ textFrame zone ++ schemaId.bytes ++ canonicalBytes

namespace Hashes

variable (hashes : Hashes)

def schemaHash (definition : String) : SchemaHash := hashes.contentHash (utf8 definition)

def schemaId (definition : String) : SchemaId := hashes.deterministicHash (utf8 definition)

def deriveId (domain : ObjectDomain) (zone : String) (schemaId : SchemaId)
    (canonicalBytes : Bytes) : Except IdError EngineObjectId :=
  if canonicalBytes.isEmpty then .error .emptyCanonicalBytes
  else .ok (hashes.deterministicHash (idPreimage domain zone schemaId canonicalBytes))

end Hashes

structure SigningKey where
  raw : Digest
  deriving DecidableEq

structure VerificationKey where
  raw : Digest
  deriving DecidableEq

instance : LinearOrder VerificationKey :=
  LinearOrder.lift' VerificationKey.raw fun left right same => by
    cases left
    cases right
    cases same
    rfl

/-- The 64 bytes of a signature, kept as two halves. -/
structure Signature where
  lower : Digest
  upper : Digest
  deriving DecidableEq

def Signature.toBytes (signature : Signature) : Bytes :=
  signature.lower.bytes ++ signature.upper.bytes

/-- The value of signature fields in an unsigned view: 64 zero bytes. -/
def Signature.sentinel : Signature := ⟨.zero, .zero⟩

inductive SignatureError where
  | verificationFailed (signer : VerificationKey) (reason : String)
  | invalidSigningKey
  | invalidVerificationKey
  deriving DecidableEq

def SignatureError.display : SignatureError → String
  | .verificationFailed signer reason =>
    "verification failed for signer " ++ toHex signer.raw ++ ": " ++ reason
  | .invalidSigningKey => "signing key is all zeros"
  | .invalidVerificationKey => "verification key is all zeros"

namespace Hashes

variable (hashes : Hashes)

def verificationKey (key : SigningKey) : VerificationKey :=
  ⟨hashes.contentHash (utf8 "vk-derive:" ++ key.raw.bytes)⟩

def ipad : Digest := ⟨List.replicate 32 0x36, rfl⟩

def opad : Digest := ⟨List.replicate 32 0x5C, rfl⟩

def computeVerificationHash (key : VerificationKey) (preimage : Bytes) : Signature :=
  let inner := hashes.contentHash ((ipad.xor key.raw).bytes ++ preimage)
  let outer := hashes.contentHash ((opad.xor key.raw).bytes ++ inner.bytes)
  ⟨inner, outer⟩

def signPreimage (key : SigningKey) (preimage : Bytes) : Except SignatureError Signature :=
  if key.raw = .zero then .error .invalidSigningKey
  else .ok (hashes.computeVerificationHash (hashes.verificationKey key) preimage)

/-- The comparison of the 64 bytes takes constant time in the source. -/
def verifySignature (key : VerificationKey) (preimage : Bytes) (signature : Signature) :
    Except SignatureError Unit :=
  if key.raw = .zero then .error .invalidVerificationKey
  else if signature = hashes.computeVerificationHash key preimage then .ok ()
  else .error (.verificationFailed key "signature does not match preimage")

/-- What is signed: the domain tag, the schema and the unsigned view. -/
def signaturePreimage (domain : ObjectDomain) (definition : String) (unsignedView : CanonicalValue) :
    Bytes :=
  utf8 domain.tag ++ (hashes.schemaHash definition).bytes ++ encodeValue unsignedView

theorem verifySignature_ok_iff {key : VerificationKey} {preimage : Bytes} {signature : Signature} :
    hashes.verifySignature key preimage signature = .ok () ↔
      key.raw ≠ .zero ∧ signature = hashes.computeVerificationHash key preimage := by
  unfold verifySignature
  split
  · next blank => simp [blank]
  · next present =>
    split
    · next same => simp [present, same]
    · next different => simp [different]

theorem signPreimage_ok_iff {key : SigningKey} {preimage : Bytes} {signature : Signature} :
    hashes.signPreimage key preimage = .ok signature ↔
      key.raw ≠ .zero ∧
        hashes.computeVerificationHash (hashes.verificationKey key) preimage = signature := by
  unfold signPreimage
  split
  · next blank => simp [blank]
  · next present => simp [present]

def polynomialHash (bytes : Bytes) : Digest :=
  ⟨beBytes 32 (bytes.foldl (fun value byte => value * 257 + byte.toNat + 1) 0),
    length_beBytes 32 _⟩

def polynomial : Hashes where
  contentHash := polynomialHash
  computeKeyed _ := polynomialHash
  deterministicHash := polynomialHash

end Hashes

end FrankenEngine.Authority
