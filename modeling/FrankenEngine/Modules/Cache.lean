import FrankenEngine.Authority.Signature
import FrankenEngine.Library.Chars
import Mathlib.Data.Prod.Lex

/-!
# The module cache

The cache of `module_cache.rs`. Its keys bind a module to a version: source
hash, policy version and trust revision. Beside the entries it keeps the latest
version and the revocation of each module, which calls and the snapshots of
other caches update. The published copy of the snapshot is renewed with every
change, so that reading it is taking the snapshot.
-/

set_option autoImplicit false

namespace FrankenEngine.Modules

open Library Serde

structure ModuleVersionFingerprint where
  sourceHash : ContentHash
  policyVersion : UInt64
  trustRevision : UInt64
  deriving DecidableEq

structure ModuleCacheKey where
  moduleId : String
  version : ModuleVersionFingerprint
  deriving DecidableEq

namespace ModuleCacheKey

def rank (key : ModuleCacheKey) : String ×ₗ ContentHash ×ₗ Nat ×ₗ Nat :=
  toLex (key.moduleId, toLex (key.version.sourceHash,
    toLex (key.version.policyVersion.toNat, key.version.trustRevision.toNat)))

theorem rank_injective : Function.Injective rank := by
  intro left right same
  obtain ⟨leftId, leftHash, leftPolicy, leftTrust⟩ := left
  obtain ⟨rightId, rightHash, rightPolicy, rightTrust⟩ := right
  simp only [rank, toLex_inj, Prod.mk.injEq, UInt64.toNat_inj] at same
  obtain ⟨rfl, rfl, rfl, rfl⟩ := same
  rfl

instance : LinearOrder ModuleCacheKey := LinearOrder.lift' rank rank_injective

end ModuleCacheKey

structure ModuleCacheEntry where
  key : ModuleCacheKey
  artifactHash : ContentHash
  resolvedSpecifier : String
  insertedSeq : UInt64
  deriving DecidableEq

structure CacheInsertRequest where
  moduleId : String
  version : ModuleVersionFingerprint
  artifactHash : ContentHash
  resolvedSpecifier : String

structure CacheContext where
  traceId : String
  decisionId : String
  policyId : String

structure CacheEvent where
  seq : UInt64
  traceId : String
  decisionId : String
  policyId : String
  component : String
  event : String
  outcome : String
  errorCode : String
  moduleId : String
  detail : String
  deriving DecidableEq

inductive CacheErrorCode where
  | moduleRevoked
  | versionRegression
  | emptyModuleId
  deriving DecidableEq, Repr

def CacheErrorCode.stableCode : CacheErrorCode → String
  | .moduleRevoked => "FE-MODCACHE-0001"
  | .versionRegression => "FE-MODCACHE-0002"
  | .emptyModuleId => "FE-MODCACHE-0003"

structure CacheError where
  code : CacheErrorCode
  message : String
  event : CacheEvent
  deriving DecidableEq

structure CacheSnapshot where
  entries : List ModuleCacheEntry
  latestVersions : OrderedMap String ModuleVersionFingerprint
  revokedModules : OrderedSet String
  stateHash : ContentHash

structure ModuleCache where
  entries : OrderedMap ModuleCacheKey ModuleCacheEntry := .empty
  latestVersions : OrderedMap String ModuleVersionFingerprint := .empty
  revokedModules : OrderedSet String := .empty
  events : List CacheEvent := []
  nextEventSeq : UInt64 := 0

def ModuleVersionFingerprint.canonicalValue (version : ModuleVersionFingerprint) :
    CanonicalValue :=
  .map [
    ("source_hash", .string (Authority.toHex version.sourceHash)),
    ("policy_version", .u64 version.policyVersion),
    ("trust_revision", .u64 version.trustRevision)]

def ModuleCacheKey.canonicalValue (key : ModuleCacheKey) : CanonicalValue :=
  .map [("module_id", .string key.moduleId), ("version", key.version.canonicalValue)]

def ModuleCacheEntry.canonicalValue (entry : ModuleCacheEntry) : CanonicalValue :=
  .map [
    ("key", entry.key.canonicalValue),
    ("artifact_hash", .string (Authority.toHex entry.artifactHash)),
    ("resolved_specifier", .string entry.resolvedSpecifier),
    ("inserted_seq", .u64 entry.insertedSeq)]

def cacheVersionOrder (left right : ModuleVersionFingerprint) : Ordering :=
  (compare left.policyVersion right.policyVersion).then
    ((compare left.trustRevision right.trustRevision).then
      (compare left.sourceHash right.sourceHash))

namespace ModuleCache

section Snapshot

variable (tiers : HashTiers) (cache : ModuleCache)

def stateHash : ContentHash :=
  tiers.contentHash (encodeValue (.map [
    ("entries", .array (cache.entries.values.map ModuleCacheEntry.canonicalValue)),
    ("latest_versions", .map (cache.latestVersions.entries.map fun entry =>
      (entry.1, entry.2.canonicalValue))),
    ("revoked_modules", .array (cache.revokedModules.keys.map CanonicalValue.string))]))

def snapshot : CacheSnapshot where
  entries := cache.entries.values
  latestVersions := cache.latestVersions
  revokedModules := cache.revokedModules
  stateHash := cache.stateHash tiers

end Snapshot

def isRevoked (cache : ModuleCache) (moduleId : String) : Bool :=
  (cache.revokedModules.get? moduleId).isSome

def eventOf (cache : ModuleCache) (event outcome errorCode moduleId detail : String)
    (context : CacheContext) : CacheEvent where
  seq := cache.nextEventSeq
  traceId := context.traceId
  decisionId := context.decisionId
  policyId := context.policyId
  component := "module_cache"
  event
  outcome
  errorCode
  moduleId
  detail

def pushEvent (cache : ModuleCache) (event outcome errorCode moduleId detail : String)
    (context : CacheContext) : ModuleCache :=
  { cache with
    nextEventSeq :=
      if cache.nextEventSeq + 1 = 0 then cache.nextEventSeq else cache.nextEventSeq + 1
    events := cache.events ++ [cache.eventOf event outcome errorCode moduleId detail context] }

def error (cache : ModuleCache) (code : CacheErrorCode) (message event outcome moduleId : String)
    (context : CacheContext) : ModuleCache × Except CacheError Unit :=
  (cache.pushEvent event outcome code.stableCode moduleId message context,
    .error { code, message
             event := cache.eventOf event outcome code.stableCode moduleId message context })

def pruneStaleEntries (cache : ModuleCache) (moduleId : String) : ModuleCache :=
  if cache.isRevoked moduleId then
    { cache with entries := cache.entries.retain fun key _ => key.moduleId ≠ moduleId }
  else
    match cache.latestVersions.get? moduleId with
    | none => cache
    | some latest =>
      { cache with
        entries := cache.entries.retain fun key _ =>
          key.moduleId ≠ moduleId ∨ key.version = latest }

def removeModuleEntriesWhere (cache : ModuleCache) (moduleId : String)
    (test : ModuleCacheEntry → Bool) : ModuleCache × Nat :=
  ({ cache with
      entries := cache.entries.retain fun key entry => !(key.moduleId = moduleId && test entry) },
    (cache.entries.entries.filter fun entry =>
      entry.1.moduleId = moduleId && test entry.2).length)

def recordVersion (cache : ModuleCache) (moduleId : String) (version : ModuleVersionFingerprint) :
    ModuleCache :=
  { cache with latestVersions := cache.latestVersions.insert moduleId version }

def get (cache : ModuleCache) (moduleId : String) (version : ModuleVersionFingerprint) :
    Option ModuleCacheEntry :=
  if cache.isRevoked moduleId then none
  else
    match cache.latestVersions.get? moduleId with
    | none => none
    | some latest =>
      if latest ≠ version then none else cache.entries.get? ⟨moduleId, version⟩

def isRegression (version latest : ModuleVersionFingerprint) : Bool :=
  version.policyVersion < latest.policyVersion || version.trustRevision < latest.trustRevision

def regressionMessage (moduleId : String) (latest version : ModuleVersionFingerprint) : String :=
  "version regression for module '" ++ moduleId ++ "' (latest policy=" ++
    latest.policyVersion.toNat.repr ++ ", trust=" ++ latest.trustRevision.toNat.repr ++
    ", got policy=" ++ version.policyVersion.toNat.repr ++ ", trust=" ++
    version.trustRevision.toNat.repr ++ ")"

def storeEntry (cache : ModuleCache) (request : CacheInsertRequest) (context : CacheContext) :
    ModuleCache :=
  let key : ModuleCacheKey := ⟨request.moduleId, request.version⟩
  let recorded := cache.recordVersion request.moduleId request.version
  let held : ModuleCache :=
    { recorded with
      entries := recorded.entries.insert key
        { key, artifactHash := request.artifactHash
          resolvedSpecifier := request.resolvedSpecifier, insertedSeq := cache.nextEventSeq } }
  (held.pruneStaleEntries request.moduleId).pushEvent "cache_insert" "allow" "none"
    request.moduleId "cache entry inserted" context

def insert (cache : ModuleCache) (request : CacheInsertRequest) (context : CacheContext) :
    ModuleCache × Except CacheError Unit :=
  if Chars.trim request.moduleId.toList = [] then
    cache.error .emptyModuleId "module_id must not be empty" "cache_insert" "deny" "<empty>" context
  else if cache.isRevoked request.moduleId then
    cache.error .moduleRevoked ("module '" ++ request.moduleId ++ "' is revoked") "cache_insert"
      "deny" request.moduleId context
  else
    match cache.latestVersions.get? request.moduleId with
    | none => (cache.storeEntry request context, .ok ())
    | some latest =>
      if isRegression request.version latest then
        cache.error .versionRegression
          (regressionMessage request.moduleId latest request.version) "cache_insert" "deny"
          request.moduleId context
      else (cache.storeEntry request context, .ok ())

def invalidateSourceUpdate (cache : ModuleCache) (moduleId : String) (newSourceHash : ContentHash)
    (context : CacheContext) : ModuleCache :=
  let latest := (cache.latestVersions.get? moduleId).getD ⟨newSourceHash, 0, 0⟩
  let recorded := cache.recordVersion moduleId { latest with sourceHash := newSourceHash }
  let (pruned, removed) := recorded.removeModuleEntriesWhere moduleId fun entry =>
    entry.key.version.sourceHash ≠ newSourceHash
  pruned.pushEvent "cache_invalidate_source_update" "allow" "none" moduleId
    ("removed " ++ removed.repr ++ " stale source entries") context

/-- The version that invalidation starts from: the latest, or one with an unknown source. -/
def latestOrUnknown (tiers : HashTiers) (cache : ModuleCache) (moduleId : String) :
    ModuleVersionFingerprint :=
  (cache.latestVersions.get? moduleId).getD ⟨tiers.contentHash (utf8 "unknown-source"), 0, 0⟩

/-- The given policy version replaces the latest, whether it is newer or not. -/
def invalidatePolicyChange (tiers : HashTiers) (cache : ModuleCache) (moduleId : String)
    (newPolicyVersion : UInt64) (context : CacheContext) : ModuleCache :=
  let latest := cache.latestOrUnknown tiers moduleId
  let recorded := cache.recordVersion moduleId { latest with policyVersion := newPolicyVersion }
  let (pruned, removed) := recorded.removeModuleEntriesWhere moduleId fun entry =>
    entry.key.version.policyVersion ≠ newPolicyVersion
  pruned.pushEvent "cache_invalidate_policy_change" "allow" "none" moduleId
    ("removed " ++ removed.repr ++ " stale policy entries") context

def raiseTrust (latest : ModuleVersionFingerprint) (trustRevision : UInt64) :
    ModuleVersionFingerprint :=
  { latest with
    trustRevision :=
      if latest.trustRevision ≤ trustRevision then trustRevision else latest.trustRevision }

def invalidateTrustRevocation (tiers : HashTiers) (cache : ModuleCache) (moduleId : String)
    (newTrustRevision : UInt64) (context : CacheContext) : ModuleCache :=
  let revoked := { cache with revokedModules := cache.revokedModules.insert moduleId () }
  let latest := revoked.latestOrUnknown tiers moduleId
  let recorded := revoked.recordVersion moduleId (raiseTrust latest newTrustRevision)
  let (pruned, removed) := recorded.removeModuleEntriesWhere moduleId fun _ => true
  pruned.pushEvent "cache_invalidate_trust_revocation" "allow" "none" moduleId
    ("removed " ++ removed.repr ++ " entries and marked module revoked") context

def restoreTrust (tiers : HashTiers) (cache : ModuleCache) (moduleId : String)
    (trustRevision : UInt64) (context : CacheContext) : ModuleCache :=
  let restored := { cache with revokedModules := cache.revokedModules.erase moduleId }
  let latest := restored.latestOrUnknown tiers moduleId
  (restored.recordVersion moduleId (raiseTrust latest trustRevision)).pushEvent
    "cache_restore_trust" "allow" "none" moduleId "trust restored for module" context

/-- Take the version of a peer unless the own one is at least as high in the lexical order. -/
def adoptVersion (held : OrderedMap String ModuleVersionFingerprint) (moduleId : String)
    (peerVersion : ModuleVersionFingerprint) : OrderedMap String ModuleVersionFingerprint :=
  match held.get? moduleId with
  | some own =>
    if cacheVersionOrder own peerVersion ≠ .lt then held else held.insert moduleId peerVersion
  | none => held.insert moduleId peerVersion

def adoptEntry (cache : ModuleCache) (entry : ModuleCacheEntry) : ModuleCache :=
  if cache.isRevoked entry.key.moduleId then cache
  else if cache.latestVersions.get? entry.key.moduleId = some entry.key.version then
    match cache.entries.get? entry.key with
    | some _ => cache
    | none => { cache with entries := cache.entries.insert entry.key entry }
  else cache

def mergeSnapshot (cache : ModuleCache) (snapshot : CacheSnapshot) (context : CacheContext) :
    ModuleCache :=
  let updated : ModuleCache :=
    { cache with
      latestVersions := snapshot.latestVersions.entries.foldl
        (fun held entry => adoptVersion held entry.1 entry.2) cache.latestVersions
      revokedModules := snapshot.revokedModules.keys.foldl
        (fun held moduleId => held.insert moduleId ()) cache.revokedModules }
  let filled := snapshot.entries.foldl adoptEntry updated
  (filled.latestVersions.keys.foldl pruneStaleEntries filled).pushEvent "cache_merge_snapshot"
    "allow" "none" "<fleet>" "snapshot merged and stale entries pruned" context

end ModuleCache

end FrankenEngine.Modules
