import FrankenEngine.Authority.Signature
import FrankenEngine.Library.Words

/-!
# Idempotency keys

The key derivation and the dedup store of `idempotency_key.rs`. The keyed hash
is a parameter. Keys are looked up by the hex text of their hash alone; the
epoch of a key is only compared when it is claimed.
-/

set_option autoImplicit false

namespace FrankenEngine.Remote

open Library

structure IdempotencyKey where
  keyHash : Digest
  epoch : UInt64
  deriving DecidableEq

def IdempotencyKey.toHex (key : IdempotencyKey) : String := Authority.toHex key.keyHash

structure KeyDerivationInput where
  computationName : String
  inputHash : ContentHash
  traceId : String
  attemptNumber : UInt32
  deriving DecidableEq

def KeyDerivationInput.preimage (input : KeyDerivationInput) (epoch : UInt64) : Bytes :=
  textFrame input.computationName ++ input.inputHash.bytes ++ textFrame input.traceId ++
    beBytes 4 input.attemptNumber.toNat ++ wordFrame epoch

def deriveIdempotencyKey (tiers : HashTiers) (epochSessionKey : Bytes) (epoch : UInt64)
    (input : KeyDerivationInput) : IdempotencyKey where
  keyHash := tiers.computeKeyed epochSessionKey (input.preimage epoch)
  epoch

inductive DedupStatus where
  | inProgress
  | completed (resultHash : ContentHash)
  | failed (errorCode : String)
  deriving DecidableEq

structure DedupEntry where
  status : DedupStatus
  computationName : String
  createdAtTicks : UInt64
  epoch : UInt64
  deriving DecidableEq

inductive DedupResult where
  | new
  | cachedResult (resultHash : ContentHash)
  | duplicateInProgress
  | previouslyFailed (errorCode : String)
  deriving DecidableEq

def DedupResult.display : DedupResult → String
  | .new => "new"
  | .cachedResult _ => "cached"
  | .duplicateInProgress => "duplicate_in_progress"
  | .previouslyFailed _ => "previously_failed"

def DedupStatus.answer : DedupStatus → DedupResult
  | .completed resultHash => .cachedResult resultHash
  | .inProgress => .duplicateInProgress
  | .failed errorCode => .previouslyFailed errorCode

structure IdempotencyEvent where
  idempotencyKeyHash : String
  computationName : String
  attempt : UInt32
  dedupResult : String
  traceId : String
  epochId : UInt64
  event : String
  deriving DecidableEq

inductive IdempotencyError where
  | epochMismatch (keyEpoch currentEpoch : UInt64)
  | maxRetriesExceeded (computationName : String) (maxRetries attempt : UInt32)
  | entryNotFound (keyHex : String)
  deriving DecidableEq

structure RetryConfig where
  maxRetries : UInt32 := 3
  entryTtlTicks : UInt64 := 600
  deriving DecidableEq

structure IdempotencyStore where
  currentEpoch : UInt64
  sessionKey : Bytes
  retryConfigs : OrderedMap String RetryConfig
  defaultRetryConfig : RetryConfig
  entries : OrderedMap String DedupEntry
  events : List IdempotencyEvent
  resultCounts : OrderedMap String UInt64

namespace IdempotencyStore

def new (epoch : UInt64) (sessionKey : Bytes) : IdempotencyStore where
  currentEpoch := epoch
  sessionKey
  retryConfigs := .empty
  defaultRetryConfig := {}
  entries := .empty
  events := []
  resultCounts := .empty

variable (store : IdempotencyStore)

def setRetryConfig (computationName : String) (config : RetryConfig) : IdempotencyStore :=
  { store with retryConfigs := store.retryConfigs.insert computationName config }

def retryConfig (computationName : String) : RetryConfig :=
  (store.retryConfigs.get? computationName).getD store.defaultRetryConfig

def deriveKey (tiers : HashTiers) (store : IdempotencyStore) (input : KeyDerivationInput) :
    IdempotencyKey :=
  deriveIdempotencyKey tiers store.sessionKey store.currentEpoch input

def evictExpired (currentTicks : UInt64) (computationName : String) : IdempotencyStore :=
  let ttl := (store.retryConfig computationName).entryTtlTicks
  { store with
    entries := store.entries.retain fun _ entry =>
      if entry.computationName = computationName then
        saturatingSub currentTicks entry.createdAtTicks < ttl
      else true }

def evictAllExpired (currentTicks : UInt64) : IdempotencyStore :=
  let defaultTtl := store.defaultRetryConfig.entryTtlTicks
  { store with
    entries := store.entries.retain fun _ entry =>
      let ttl := ((store.retryConfigs.get? entry.computationName).map (·.entryTtlTicks)).getD
        defaultTtl
      saturatingSub currentTicks entry.createdAtTicks < ttl }

def emitCheck (keyHex : String) (input : KeyDerivationInput) (result : DedupResult) :
    IdempotencyStore :=
  { store with
    events := store.events ++
      [{ idempotencyKeyHash := keyHex
         computationName := input.computationName
         attempt := input.attemptNumber
         dedupResult := result.display
         traceId := input.traceId
         epochId := store.currentEpoch
         event := "dedup_check" }]
    resultCounts := store.resultCounts.insert result.display
      ((store.resultCounts.get? result.display).getD 0 + 1) }

def checkAndClaim (key : IdempotencyKey) (input : KeyDerivationInput) (currentTicks : UInt64) :
    IdempotencyStore × Except IdempotencyError DedupResult :=
  if key.epoch ≠ store.currentEpoch then
    (store, .error (.epochMismatch key.epoch store.currentEpoch))
  else
    let config := store.retryConfig input.computationName
    if config.maxRetries < input.attemptNumber then
      (store, .error (.maxRetriesExceeded input.computationName config.maxRetries
        input.attemptNumber))
    else
      let keyHex := key.toHex
      let evicted := store.evictExpired currentTicks input.computationName
      match evicted.entries.get? keyHex with
      | some entry => (evicted.emitCheck keyHex input entry.status.answer, .ok entry.status.answer)
      | none =>
        let claimed := { evicted with
          entries := evicted.entries.insert keyHex
            { status := .inProgress
              computationName := input.computationName
              createdAtTicks := currentTicks
              epoch := store.currentEpoch } }
        (claimed.emitCheck keyHex input .new, .ok .new)

/-- Mark an entry. What it was before does not matter, and neither does the epoch of the key. -/
def mark (key : IdempotencyKey) (status : DedupStatus) :
    IdempotencyStore × Except IdempotencyError Unit :=
  let keyHex := key.toHex
  match store.entries.get? keyHex with
  | none => (store, .error (.entryNotFound keyHex))
  | some entry => ({ store with entries := store.entries.insert keyHex { entry with status } }, .ok ())

def markCompleted (key : IdempotencyKey) (resultHash : ContentHash) :
    IdempotencyStore × Except IdempotencyError Unit :=
  store.mark key (.completed resultHash)

def markFailed (key : IdempotencyKey) (errorCode : String) :
    IdempotencyStore × Except IdempotencyError Unit :=
  store.mark key (.failed errorCode)

def advanceEpoch (newEpoch : UInt64) (newSessionKey : Bytes) : IdempotencyStore :=
  { store with
    entries := store.entries.retain fun _ entry => entry.epoch = newEpoch
    currentEpoch := newEpoch
    sessionKey := newSessionKey }

/-!
### Runs
-/

inductive Call where
  | checkAndClaim (key : IdempotencyKey) (input : KeyDerivationInput) (currentTicks : UInt64)
  | markCompleted (key : IdempotencyKey) (resultHash : ContentHash)
  | markFailed (key : IdempotencyKey) (errorCode : String)
  | evictAllExpired (currentTicks : UInt64)
  | advanceEpoch (newEpoch : UInt64) (newSessionKey : Bytes)

inductive Outcome where
  | checked (result : Except IdempotencyError DedupResult)
  | marked (result : Except IdempotencyError Unit)
  | done

def perform : Call → IdempotencyStore × Outcome
  | .checkAndClaim key input currentTicks =>
    let answered := store.checkAndClaim key input currentTicks
    (answered.1, .checked answered.2)
  | .markCompleted key resultHash =>
    let marked := store.markCompleted key resultHash
    (marked.1, .marked marked.2)
  | .markFailed key errorCode =>
    let marked := store.markFailed key errorCode
    (marked.1, .marked marked.2)
  | .evictAllExpired currentTicks => (store.evictAllExpired currentTicks, .done)
  | .advanceEpoch newEpoch newSessionKey => (store.advanceEpoch newEpoch newSessionKey, .done)

end IdempotencyStore

end FrankenEngine.Remote
