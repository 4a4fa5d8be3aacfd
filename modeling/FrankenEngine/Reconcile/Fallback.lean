import FrankenEngine.Library.OrderedMap
import FrankenEngine.Reconcile.IbltProperties

/-!
# The deterministic fallback

When a table cannot be peeled, both sides exchange their hashes in full. The
differences are taken at once, or bucket by bucket of the first byte. Every first
byte lies in exactly one range, whatever their number, so the ranges of a set put
together and sorted are the set.
-/

set_option autoImplicit false

namespace FrankenEngine.Reconcile

open Library

inductive FallbackTrigger where
  | peelFailed (remainingCells : Nat)
  | verificationFailed (objectHash reason : String)
  | timeout (elapsedMs sloMs : UInt64)
  | mmrConsistencyFailure (details : String)
  deriving DecidableEq

structure FallbackEvidence where
  fallbackId : String
  trigger : FallbackTrigger
  originalReconciliationId : String
  scopeSize : Nat
  differencesFound : Nat
  objectsTransferred : Nat
  durationMs : UInt64
  epochId : UInt64
  traceId : String
  deriving DecidableEq

structure FallbackResult where
  objectsToFetch : List Digest
  objectsToSend : List Digest
  evidence : FallbackEvidence
  deriving DecidableEq

structure FallbackRequest where
  localHashes : Finset Digest
  remoteHashes : Finset Digest
  trigger : FallbackTrigger
  reconciliationId : String
  peer : String
  traceId : String

structure FallbackProtocol where
  currentEpoch : UInt64
  events : List FallbackEvidence
  eventCounts : OrderedMap String Nat
  fallbackSeq : Nat

namespace FallbackProtocol

def new (epoch : UInt64) : FallbackProtocol where
  currentEpoch := epoch
  events := []
  eventCounts := .empty
  fallbackSeq := 0

/-- `*entry(event).or_insert(0) += amount`. -/
def recordCount (counts : OrderedMap String Nat) (event : String) (amount : Nat) :
    OrderedMap String Nat :=
  counts.insert event ((counts.get? event).getD 0 + amount)

def evidenceOf (protocol : FallbackProtocol) (req : FallbackRequest) (fallbackSeq : Nat)
    (toSend toFetch : List Digest) : FallbackEvidence where
  fallbackId := "fb-" ++ req.traceId ++ "-" ++ fallbackSeq.repr
  trigger := req.trigger
  originalReconciliationId := req.reconciliationId ++ ":" ++ req.peer
  scopeSize := max req.localHashes.card req.remoteHashes.card
  differencesFound := toSend.length + toFetch.length
  objectsTransferred := toSend.length + toFetch.length
  durationMs := 0
  epochId := protocol.currentEpoch
  traceId := req.traceId

def execute (protocol : FallbackProtocol) (req : FallbackRequest) :
    FallbackProtocol × FallbackResult :=
  let fallbackSeq := protocol.fallbackSeq + 1
  let objectsToSend := (req.localHashes \ req.remoteHashes).sort (· ≤ ·)
  let objectsToFetch := (req.remoteHashes \ req.localHashes).sort (· ≤ ·)
  let evidence := protocol.evidenceOf req fallbackSeq objectsToSend objectsToFetch
  ({ protocol with
      fallbackSeq
      events := protocol.events ++ [evidence]
      eventCounts := recordCount protocol.eventCounts "fallback_executed" 1 },
    { objectsToFetch, objectsToSend, evidence })

def firstByte (hash : Digest) : Nat :=
  (hash.bytes.get ⟨0, by rw [hash.width]; decide⟩).toNat

/-- The bytes of range `r`. The last range takes what division leaves over. -/
def inRange (numRanges r : Nat) (hash : Digest) : Bool :=
  let rangeSize := 256 / numRanges
  let lo := r * rangeSize
  let hi := if r = numRanges - 1 then 256 else lo + rangeSize
  lo ≤ firstByte hash && firstByte hash < hi

structure Collected where
  toSend : List Digest
  toFetch : List Digest
  rangesSkipped : Nat

/-- The body of the loop over the ranges: equal ranges are skipped. -/
def collectRange (req : FallbackRequest) (numRanges : Nat) (collected : Collected) (r : Nat) :
    Collected :=
  let localRange := req.localHashes.filter fun hash => inRange numRanges r hash
  let remoteRange := req.remoteHashes.filter fun hash => inRange numRanges r hash
  if localRange = remoteRange then
    { collected with rangesSkipped := collected.rangesSkipped + 1 }
  else
    { collected with
      toSend := collected.toSend ++ (localRange \ remoteRange).sort (· ≤ ·)
      toFetch := collected.toFetch ++ (remoteRange \ localRange).sort (· ≤ ·) }

def collect (req : FallbackRequest) (numRanges : Nat) : Collected :=
  (List.range numRanges).foldl (collectRange req numRanges)
    { toSend := [], toFetch := [], rangesSkipped := 0 }

def executeIncremental (protocol : FallbackProtocol) (req : FallbackRequest) (numRanges : UInt8) :
    FallbackProtocol × FallbackResult :=
  if numRanges ≤ 1 then protocol.execute req
  else
    let fallbackSeq := protocol.fallbackSeq + 1
    let collected := collect req numRanges.toNat
    let objectsToSend := Iblt.sorted collected.toSend
    let objectsToFetch := Iblt.sorted collected.toFetch
    let evidence := protocol.evidenceOf req fallbackSeq objectsToSend objectsToFetch
    let skipped :=
      recordCount protocol.eventCounts "fallback_ranges_skipped" collected.rangesSkipped
    ({ protocol with
        fallbackSeq
        events := protocol.events ++ [evidence]
        eventCounts := recordCount skipped "fallback_executed" 1 },
      { objectsToFetch, objectsToSend, evidence })

open List

def rangeOf (numRanges : Nat) (hash : Digest) : Nat :=
  min (firstByte hash / (256 / numRanges)) (numRanges - 1)

theorem firstByte_lt (hash : Digest) : firstByte hash < 256 := UInt8.toNat_lt _

theorem rangeOf_lt {numRanges : Nat} (several : 1 < numRanges) (hash : Digest) :
    rangeOf numRanges hash < numRanges := by
  unfold rangeOf
  omega

theorem inRange_iff {numRanges r : Nat} (few : numRanges ≤ 256) (inside : r < numRanges)
    (hash : Digest) : inRange numRanges r hash = true ↔ rangeOf numRanges hash = r := by
  have positive : 0 < 256 / numRanges := Nat.div_pos few (by omega)
  have below : r * (256 / numRanges) ≤ firstByte hash ↔
      r ≤ firstByte hash / (256 / numRanges) := (Nat.le_div_iff_mul_le positive).symm
  have above : firstByte hash < r * (256 / numRanges) + 256 / numRanges ↔
      firstByte hash / (256 / numRanges) < r + 1 := by
    rw [Nat.div_lt_iff_lt_mul positive, Nat.succ_mul]
  have byte := firstByte_lt hash
  unfold inRange rangeOf
  split
  next last =>
    rw [Bool.and_eq_true, decide_eq_true_iff, decide_eq_true_iff, below]
    omega
  next =>
    rw [Bool.and_eq_true, decide_eq_true_iff, decide_eq_true_iff, below, above]
    omega

def byRange (numRanges : Nat) (hashes : Finset Digest) (ranges : List Nat) : List Digest :=
  ranges.flatMap fun r => (hashes.filter fun hash => inRange numRanges r hash).sort (· ≤ ·)

theorem sorted_byRange {numRanges : Nat} (several : 1 < numRanges) (few : numRanges ≤ 256)
    (hashes : Finset Digest) :
    Iblt.sorted (byRange numRanges hashes (range numRanges)) = hashes.sort (· ≤ ·) := by
  have member : ∀ r ∈ range numRanges, ∀ hash : Digest,
      hash ∈ (hashes.filter fun hash => inRange numRanges r hash).sort (· ≤ ·) ↔
        hash ∈ hashes ∧ rangeOf numRanges hash = r := by
    intro r listed hash
    rw [Finset.mem_sort, Finset.mem_filter, inRange_iff few (mem_range.mp listed)]
  have distinct : (byRange numRanges hashes (range numRanges)).Nodup := by
    refine nodup_flatMap.mpr ⟨fun r _ => Finset.sort_nodup _ _, ?_⟩
    refine Pairwise.imp_of_mem ?_ nodup_range
    intro left right leftListed rightListed different hash inLeft inRight
    have own := ((member left leftListed hash).mp inLeft).2
    exact different (own.symm.trans ((member right rightListed hash).mp inRight).2)
  refine sorted_eq_sort ?_
  refine (perm_ext_iff_of_nodup distinct hashes.nodup_toList).mpr fun hash => ?_
  rw [Finset.mem_toList, byRange, mem_flatMap]
  constructor
  · rintro ⟨r, listed, inside⟩
    exact ((member r listed hash).mp inside).1
  · intro present
    have listed := mem_range.mpr (rangeOf_lt several hash)
    exact ⟨rangeOf numRanges hash, listed, (member _ listed hash).mpr ⟨present, rfl⟩⟩

theorem filter_sdiff_filter (ours theirs : Finset Digest) (test : Digest → Bool) :
    (ours.filter fun hash => test hash) \ (theirs.filter fun hash => test hash) =
      (ours \ theirs).filter fun hash => test hash := by
  ext hash
  simp only [Finset.mem_sdiff, Finset.mem_filter]
  tauto

theorem foldl_collectRange (req : FallbackRequest) (numRanges : Nat) (ranges : List Nat)
    (collected : Collected) : (ranges.foldl (collectRange req numRanges) collected).toSend =
        collected.toSend ++ byRange numRanges (req.localHashes \ req.remoteHashes) ranges ∧
      (ranges.foldl (collectRange req numRanges) collected).toFetch =
        collected.toFetch ++ byRange numRanges (req.remoteHashes \ req.localHashes) ranges := by
  induction ranges generalizing collected with
  | nil => simp [byRange]
  | cons r rest ih =>
    obtain ⟨send, fetch⟩ := ih (collectRange req numRanges collected r)
    rw [foldl_cons, send, fetch]
    simp only [byRange, flatMap_cons, ← filter_sdiff_filter]
    unfold collectRange
    dsimp only
    split
    next same => simp [same]
    next => simp [append_assoc]

/-- Whatever the number of ranges, the incremental fallback returns what the plain one returns. -/
theorem executeIncremental_eq_execute (protocol : FallbackProtocol) (req : FallbackRequest)
    (numRanges : UInt8) :
    (protocol.executeIncremental req numRanges).2 = (protocol.execute req).2 ∧
      (protocol.executeIncremental req numRanges).2.objectsToSend.Nodup ∧
      (protocol.executeIncremental req numRanges).2.objectsToFetch.Nodup := by
  have same : (protocol.executeIncremental req numRanges).2 = (protocol.execute req).2 := by
    unfold executeIncremental
    split
    · rfl
    next more =>
      have several : 1 < numRanges.toNat := Nat.lt_of_not_le more
      have few : numRanges.toNat ≤ 256 := Nat.le_of_lt (UInt8.toNat_lt numRanges)
      obtain ⟨send, fetch⟩ := foldl_collectRange req numRanges.toNat (List.range numRanges.toNat)
        { toSend := [], toFetch := [], rangesSkipped := 0 }
      have sendSorted : Iblt.sorted (collect req numRanges.toNat).toSend =
          (req.localHashes \ req.remoteHashes).sort (· ≤ ·) := by
        rw [collect, send, List.nil_append, sorted_byRange several few]
      have fetchSorted : Iblt.sorted (collect req numRanges.toNat).toFetch =
          (req.remoteHashes \ req.localHashes).sort (· ≤ ·) := by
        rw [collect, fetch, List.nil_append, sorted_byRange several few]
      simp only [sendSorted, fetchSorted, execute]
  rw [same]
  exact ⟨rfl, Finset.sort_nodup _ _, Finset.sort_nodup _ _⟩

end FallbackProtocol

end FrankenEngine.Reconcile
