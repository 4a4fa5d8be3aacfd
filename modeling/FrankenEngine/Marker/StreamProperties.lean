import FrankenEngine.Authority.Signature
import FrankenEngine.Marker.PreimageProperties

/-!
# Tamper evidence of the marker stream

Two chains that end in the same head agree marker by marker up to what the
preimages leave out, and that is the reason of an emergency override alone.
-/

set_option autoImplicit false

namespace FrankenEngine.Marker

open Library List Option

variable (tiers : HashTiers)

/-!
## Linked chains
-/

def lastHash (markers : List DecisionMarker) : ContentHash :=
  (markers.getLast?.map (·.markerHash)).getD .zero

/-- Every marker has a higher id than the one before it, names its hash, and
carries the hash of its own content. -/
inductive Linked : List DecisionMarker → Prop where
  | nil : Linked []
  | snoc {markers : List DecisionMarker} {marker : DecisionMarker} :
      Linked markers → (∀ previous ∈ markers.getLast?, previous.markerId < marker.markerId) →
      marker.prevMarkerHash = lastHash markers →
      marker.markerHash = computeMarkerHash tiers marker → Linked (markers ++ [marker])

@[simp] theorem lastHash_snoc (markers : List DecisionMarker) (marker : DecisionMarker) :
    lastHash (markers ++ [marker]) = marker.markerHash := by
  simp [lastHash]

@[simp] theorem recomputeRollingHash_snoc (markers : List DecisionMarker) (marker : DecisionMarker) :
    recomputeRollingHash tiers (markers ++ [marker]) =
      computeRollingHash tiers (recomputeRollingHash tiers markers) marker.markerId
        marker.markerHash := by
  rw [recomputeRollingHash, foldl_append]
  rfl

def hashedInputs (markers : List DecisionMarker) : Set Bytes :=
  { bytes | (∃ marker ∈ markers, bytes = markerPreimage marker) ∨
    ∃ before marker after, markers = before ++ marker :: after ∧
      bytes = rollingPreimage (recomputeRollingHash tiers before) marker.markerId
        marker.markerHash }

variable {inputs : Set Bytes} {markers : List DecisionMarker} {marker : DecisionMarker}
  {stream : DecisionMarkerStream} {checkpointKey : Bytes}

theorem hashedInputs_subset (own : ∀ marker ∈ markers, markerPreimage marker ∈ inputs)
    (rolling : ∀ before marker after, markers = before ++ marker :: after →
      rollingPreimage (recomputeRollingHash tiers before) marker.markerId marker.markerHash ∈
        inputs) : hashedInputs tiers markers ⊆ inputs := by
  rintro bytes (⟨marker, member, found⟩ | ⟨before, marker, after, split, found⟩)
  · rw [found]
    exact own marker member
  · rw [found]
    exact rolling before marker after split

theorem hashedInputs_snoc_subset (markers : List DecisionMarker) (marker : DecisionMarker) :
    hashedInputs tiers markers ⊆ hashedInputs tiers (markers ++ [marker]) := by
  apply hashedInputs_subset
  · intro held member
    exact Or.inl ⟨held, mem_append_left _ member, rfl⟩
  · intro before held after split
    exact Or.inr ⟨before, held, after ++ [marker], by rw [split]; simp, rfl⟩

theorem markerPreimage_mem_hashedInputs (markers : List DecisionMarker) (marker : DecisionMarker) :
    markerPreimage marker ∈ hashedInputs tiers (markers ++ [marker]) :=
  Or.inl ⟨marker, by simp, rfl⟩

theorem rollingPreimage_mem_hashedInputs (markers : List DecisionMarker) (marker : DecisionMarker) :
    rollingPreimage (recomputeRollingHash tiers markers) marker.markerId marker.markerHash ∈
      hashedInputs tiers (markers ++ [marker]) :=
  Or.inr ⟨markers, marker, [], rfl, rfl⟩

/-- The same marker up to the parts of its decision that are not displayed. -/
def SameDisplay (left right : DecisionMarker) : Prop :=
  left.decisionType.display = right.decisionType.display ∧
    right = { left with decisionType := right.decisionType }

variable {tiers}

theorem Linked.of_snoc (linked : Linked tiers (markers ++ [marker])) :
    Linked tiers markers ∧ (∀ previous ∈ markers.getLast?, previous.markerId < marker.markerId) ∧
      marker.prevMarkerHash = lastHash markers ∧
      marker.markerHash = computeMarkerHash tiers marker := by
  generalize whole : markers ++ [marker] = chain at linked
  cases linked with
  | nil => exact absurd whole (by simp)
  | snoc linked order link hashed =>
    obtain ⟨rfl, last⟩ := append_inj' whole rfl
    cases last
    exact ⟨linked, order, link, hashed⟩

private theorem not_ends_at_origin (free : tiers.CollisionFree inputs)
    (covered : hashedInputs tiers (markers ++ [marker]) ⊆ inputs)
    (hashed : marker.markerHash = computeMarkerHash tiers marker)
    (rolling : recomputeRollingHash tiers (markers ++ [marker]) = .zero)
    (last : lastHash (markers ++ [marker]) = .zero) : False := by
  rw [recomputeRollingHash_snoc] at rolling
  rw [lastHash_snoc, hashed] at last
  exact rollingPreimage_ne_markerPreimage _ _ _ _ (free
    (covered (rollingPreimage_mem_hashedInputs tiers markers marker))
    (covered (markerPreimage_mem_hashedInputs tiers markers marker)) (rolling.trans last.symm))

theorem Linked.agree {left right : List DecisionMarker} (free : tiers.CollisionFree inputs)
    (leftCovered : hashedInputs tiers left ⊆ inputs)
    (rightCovered : hashedInputs tiers right ⊆ inputs)
    (leftBounded : ∀ marker ∈ left, marker.Bounded)
    (rightBounded : ∀ marker ∈ right, marker.Bounded) (leftLinked : Linked tiers left)
    (rightLinked : Linked tiers right)
    (rolling : recomputeRollingHash tiers left = recomputeRollingHash tiers right)
    (last : lastHash left = lastHash right) : Forall₂ SameDisplay left right := by
  induction leftLinked generalizing right with
  | nil =>
    cases rightLinked with
    | nil => exact .nil
    | snoc _ _ _ hashed =>
      exact (not_ends_at_origin free rightCovered hashed rolling.symm last.symm).elim
  | @snoc left leftMarker leftLinked _ leftLink leftHashed ih =>
    cases rightLinked with
    | nil => exact (not_ends_at_origin free leftCovered leftHashed rolling last).elim
    | @snoc right rightMarker rightLinked _ rightLink rightHashed =>
      have leftBound := leftBounded leftMarker (by simp)
      have rightBound := rightBounded rightMarker (by simp)
      rw [lastHash_snoc, lastHash_snoc] at last
      have content : markerPreimage leftMarker = markerPreimage rightMarker := by
        apply free (leftCovered (markerPreimage_mem_hashedInputs tiers left leftMarker))
          (rightCovered (markerPreimage_mem_hashedInputs tiers right rightMarker))
        rw [leftHashed, rightHashed] at last
        exact last
      obtain ⟨displays, same⟩ := markerPreimage_inj leftBound rightBound content
      have links : lastHash left = lastHash right := by
        rw [← leftLink, ← rightLink, same]
      have earlier : recomputeRollingHash tiers left = recomputeRollingHash tiers right := by
        rw [recomputeRollingHash_snoc, recomputeRollingHash_snoc] at rolling
        have steps := free (leftCovered (rollingPreimage_mem_hashedInputs tiers left leftMarker))
          (rightCovered (rollingPreimage_mem_hashedInputs tiers right rightMarker)) rolling
        rw [rollingPreimage, rollingPreimage, append_assoc, append_assoc] at steps
        exact (framed_bytes trivial trivial steps).1
      apply rel_append (ih ((hashedInputs_snoc_subset tiers left leftMarker).trans leftCovered)
        ((hashedInputs_snoc_subset tiers right rightMarker).trans rightCovered)
        (fun marker member => leftBounded marker (mem_append_left _ member))
        (fun marker member => rightBounded marker (mem_append_left _ member))
        rightLinked earlier links)
      refine .cons ⟨displays, ?_⟩ .nil
      rw [same, last]

/-!
## What the verifier accepts
-/

open DecisionMarkerStream

theorem verifyMarker_ok_iff {previous : Option DecisionMarker} :
    verifyMarker tiers previous marker = .ok () ↔
      (∀ prev ∈ previous, prev.markerId < marker.markerId) ∧
      marker.prevMarkerHash = (previous.map (·.markerHash)).getD .zero ∧
      marker.markerHash = computeMarkerHash tiers marker := by
  cases previous with
  | none =>
    simp only [verifyMarker, ok_bind, else_ok_iff, not_not, and_true]
    simp
  | some prev =>
    simp only [verifyMarker, error_bind, ok_bind, else_ok_iff, not_not, and_true, UInt64.not_le]
    simp

theorem verifyMarkers_snoc {previous : Option DecisionMarker} :
    verifyMarkers tiers previous (markers ++ [marker]) = .ok () ↔
      verifyMarkers tiers previous markers = .ok () ∧
      verifyMarker tiers (markers.getLast?.or previous) marker = .ok () := by
  induction markers generalizing previous with
  | nil => simp [verifyMarkers, seq_ok_iff]
  | cons first rest ih =>
    have last : (first :: rest).getLast?.or previous = rest.getLast?.or (some first) := by
      cases rest <;> simp [getLast?_cons]
    rw [cons_append, verifyMarkers, verifyMarkers, seq_ok_iff, seq_ok_iff, ih, and_assoc, last]

theorem verifyMarkers_ok_iff :
    verifyMarkers tiers none markers = .ok () ↔ Linked tiers markers := by
  induction markers using reverseRecOn with
  | nil => exact ⟨fun _ => .nil, fun _ => rfl⟩
  | append_singleton markers marker ih =>
    rw [verifyMarkers_snoc, ih, or_none, verifyMarker_ok_iff]
    constructor
    · rintro ⟨linked, order, link, hashed⟩
      exact .snoc linked order link hashed
    · exact Linked.of_snoc

variable (tiers) in
def chainHeadOf (checkpointKey : Bytes) (markers : List DecisionMarker) : Option AuditChainHead :=
  markers.getLast?.map fun latest =>
    { headMarkerId := latest.markerId
      latestMarkerHash := latest.markerHash
      rollingChainHash := recomputeRollingHash tiers markers
      signedHeadHash := signChainHead tiers checkpointKey latest.markerId latest.markerHash
        (recomputeRollingHash tiers markers) }

theorem verifyChain_ok_iff :
    stream.verifyChain tiers = .ok () ↔ stream.markers ≠ [] ∧ Linked tiers stream.markers := by
  rw [verifyChain, ← verifyMarkers_ok_iff]
  cases stream.markers with
  | nil | cons => simp

theorem verifyHead_ok_iff (nonempty : stream.markers ≠ []) : stream.verifyHead tiers = .ok () ↔
      stream.chainHead = chainHeadOf tiers stream.checkpointKey stream.markers := by
  have last := getLast?_eq_some_getLast nonempty
  rw [verifyHead, chainHeadOf, last, map_some]
  cases stream.chainHead with
  | none => simp
  | some head =>
    obtain ⟨id, hash, rolling, signed⟩ := head
    dsimp only
    split
    next differ =>
      simp only [reduceCtorEq, false_iff, some.injEq, AuditChainHead.mk.injEq]
      tauto
    next same =>
      simp only [true_iff, some.injEq, AuditChainHead.mk.injEq]
      tauto

/-!
## Streams built by appending
-/

structure MarkerInput.Bounded (input : MarkerInput) : Prop where
  decisionType : input.decisionType.Bounded
  decisionId : FitsWord input.decisionId
  policyId : ∀ text ∈ input.policyId, FitsWord text
  correlationId : FitsWord input.correlationId.raw
  traceContext : ∀ context ∈ input.traceContext, context.Bounded
  principalId : ∀ text ∈ input.principalId, FitsWord text
  zoneId : ∀ text ∈ input.zoneId, FitsWord text
  errorCode : ∀ text ∈ input.errorCode, FitsWord text
  actor : FitsWord input.actor
  payloadSummary : FitsWord input.payloadSummary

variable (tiers) in
structure Built (checkpointKey : Bytes) (stream : DecisionMarkerStream) : Prop where
  key : stream.checkpointKey = checkpointKey
  linked : Linked tiers stream.markers
  rolling : stream.rollingChainHash = recomputeRollingHash tiers stream.markers
  head : stream.chainHead = chainHeadOf tiers checkpointKey stream.markers
  nextId : stream.nextMarkerId.toNat = stream.markers.length + 1
  lastId : ∀ last ∈ stream.markers.getLast?, last.markerId.toNat = stream.markers.length
  bounded : ∀ marker ∈ stream.markers, marker.Bounded

variable (tiers) in
theorem emitCheckpoint_eq (stream : DecisionMarkerStream) (markerId : UInt64) :
    ∃ checkpoints, emitCheckpoint tiers stream markerId = { stream with checkpoints } := by
  unfold emitCheckpoint
  split
  · exact ⟨stream.checkpoints, rfl⟩
  · exact ⟨_, rfl⟩

theorem append_eq (tiers : HashTiers) (stream : DecisionMarkerStream) (input : MarkerInput) :
    let marker := stream.buildMarker tiers input
    let rollingChainHash := computeRollingHash tiers stream.rollingChainHash stream.nextMarkerId
      marker.markerHash
    ∃ events checkpoints, stream.append tiers input = { stream with
      markers := stream.markers ++ [marker]
      nextMarkerId := stream.nextMarkerId + 1
      rollingChainHash
      chainHead := some
        { headMarkerId := stream.nextMarkerId
          latestMarkerHash := marker.markerHash
          rollingChainHash
          signedHeadHash := signChainHead tiers stream.checkpointKey stream.nextMarkerId
            marker.markerHash rollingChainHash }
      events
      checkpoints } := by
  intro marker rollingChainHash
  have latest : (stream.markers ++ [marker]).getLast? = some marker := getLast?_concat ..
  have id : marker.markerId = stream.nextMarkerId := rfl
  unfold append updateChainHead
  simp only [marker] at latest id
  simp only [latest, id]
  split
  · obtain ⟨checkpoints, emitted⟩ := emitCheckpoint_eq tiers _ _
    exact ⟨_, checkpoints, emitted⟩
  · exact ⟨_, _, rfl⟩

theorem built_new (checkpointInterval : UInt64) (checkpointKey : Bytes) :
    Built tiers checkpointKey (DecisionMarkerStream.new checkpointInterval checkpointKey) where
  key := rfl
  linked := .nil
  rolling := rfl
  head := rfl
  nextId := rfl
  lastId := by
    intro last member
    cases member
  bounded := by
    intro marker member
    cases member

theorem Built.append (built : Built tiers checkpointKey stream) {input : MarkerInput}
    (bounded : input.Bounded) (room : stream.markers.length + 2 < 2 ^ 64) :
    Built tiers checkpointKey (stream.append tiers input) := by
  obtain ⟨events, checkpoints, appended⟩ := append_eq tiers stream input
  rw [appended]
  constructor
  · exact built.key
  · refine .snoc built.linked ?_ rfl rfl
    intro last member
    show last.markerId < stream.nextMarkerId
    rw [UInt64.lt_iff_toNat_lt, built.lastId last member, built.nextId]
    exact Nat.lt_succ_self _
  · rw [recomputeRollingHash_snoc, built.rolling]
    rfl
  · rw [chainHeadOf, getLast?_concat, map_some, recomputeRollingHash_snoc, built.rolling,
      built.key]
    rfl
  · rw [UInt64.toNat_add, built.nextId, length_append, length_singleton]
    exact Nat.mod_eq_of_lt room
  · rw [getLast?_concat, length_append, length_singleton]
    rintro last ⟨⟩
    exact built.nextId
  · intro marker member
    rcases mem_append.mp member with earlier | last
    · exact built.bounded marker earlier
    · obtain rfl := mem_singleton.mp last
      exact ⟨bounded.decisionType, bounded.decisionId, bounded.policyId, bounded.correlationId,
        bounded.traceContext, bounded.principalId, bounded.zoneId, bounded.errorCode,
        bounded.actor, bounded.payloadSummary⟩

variable (tiers) in
theorem built_ofInputs (checkpointInterval : UInt64) (checkpointKey : Bytes)
    {inputs : List MarkerInput} (bounded : ∀ input ∈ inputs, input.Bounded)
    (room : inputs.length + 1 < 2 ^ 64) :
    Built tiers checkpointKey (ofInputs tiers checkpointInterval checkpointKey inputs) ∧
      (ofInputs tiers checkpointInterval checkpointKey inputs).markers.length = inputs.length := by
  induction inputs using reverseRecOn with
  | nil => exact ⟨built_new checkpointInterval checkpointKey, rfl⟩
  | append_singleton inputs input ih =>
    rw [length_append, length_singleton] at room
    obtain ⟨built, length⟩ := ih
      (fun earlier member => bounded earlier (mem_append_left _ member)) (by omega)
    have whole : ofInputs tiers checkpointInterval checkpointKey (inputs ++ [input]) =
        (ofInputs tiers checkpointInterval checkpointKey inputs).append tiers input := by
      rw [ofInputs, foldl_append]
      rfl
    obtain ⟨_, _, appended⟩ := append_eq tiers
      (ofInputs tiers checkpointInterval checkpointKey inputs) input
    rw [whole]
    refine ⟨built.append (bounded input (by simp)) (by omega), ?_⟩
    rw [appended, length_append, length_append, length, length_singleton, length_singleton]

/-!
## Tampering
-/

variable (tiers) in
/-- A marker list that verifies against the recorded chain head is the recorded
list, unless a hash collision was found. -/
def TamperEvident (stream : DecisionMarkerStream) : Prop :=
  ∀ altered : List DecisionMarker, (∀ marker ∈ altered, marker.Bounded) →
    tiers.CollisionFree (hashedInputs tiers stream.markers ∪ hashedInputs tiers altered) →
    verifyChain tiers { stream with markers := altered } = .ok () →
    verifyHead tiers { stream with markers := altered } = .ok () →
    altered = stream.markers

theorem chainHeadOf_inj {left right : List DecisionMarker} (nonempty : left ≠ [])
    (same : chainHeadOf tiers checkpointKey left = chainHeadOf tiers checkpointKey right) :
    recomputeRollingHash tiers left = recomputeRollingHash tiers right ∧
      lastHash left = lastHash right := by
  have last := getLast?_eq_some_getLast nonempty
  rw [chainHeadOf, chainHeadOf, last, map_some] at same
  rw [lastHash, lastHash, last]
  cases found : right.getLast? with
  | none =>
    rw [found] at same
    cases same
  | some latest =>
    rw [found, map_some, some.injEq, AuditChainHead.mk.injEq] at same
    exact ⟨same.2.2.1, same.2.1⟩

theorem Built.sameDisplay (built : Built tiers checkpointKey stream) {altered : List DecisionMarker}
    (bounded : ∀ marker ∈ altered, marker.Bounded)
    (free : tiers.CollisionFree (hashedInputs tiers stream.markers ∪ hashedInputs tiers altered))
    (chain : verifyChain tiers { stream with markers := altered } = .ok ())
    (head : verifyHead tiers { stream with markers := altered } = .ok ()) :
    Forall₂ SameDisplay stream.markers altered := by
  obtain ⟨nonempty, linked⟩ := verifyChain_ok_iff.mp chain
  have recorded := (verifyHead_ok_iff nonempty).mp head
  dsimp only at recorded nonempty linked
  rw [built.head, built.key] at recorded
  obtain ⟨rolling, last⟩ := chainHeadOf_inj nonempty recorded.symm
  exact Linked.agree free Set.subset_union_left Set.subset_union_right built.bounded bounded
    built.linked linked rolling.symm last.symm

theorem eq_of_sameDisplay {original altered : List DecisionMarker}
    (same : Forall₂ SameDisplay original altered)
    (plain : ∀ marker ∈ original, ¬ marker.decisionType.IsOverride) : altered = original := by
  induction same with
  | nil => rfl
  | @cons marker other originals others display _ ih =>
    have decisions := display_eq_of_not_isOverride (plain marker mem_cons_self) display.1
    rw [ih fun later member => plain later (mem_cons_of_mem _ member), display.2, ← decisions]

def otherReason : DecisionType → DecisionType
  | .emergencyOverride reason => .emergencyOverride (if reason = "" then "x" else "")
  | decision => decision

theorem otherReason_display (decision : DecisionType) :
    decision.display = (otherReason decision).display := by
  cases decision <;> rfl

theorem otherReason_bounded {decision : DecisionType} (bounded : decision.Bounded) :
    (otherReason decision).Bounded := by
  cases decision with
  | emergencyOverride reason =>
    show FitsWord _
    split <;> decide +kernel
  | securityAction | policyTransition | revocationEvent | epochTransition | guardrailTriggered =>
    exact bounded

theorem otherReason_ne {decision : DecisionType} (overrides : decision.IsOverride) :
    otherReason decision ≠ decision := by
  intro same
  cases decision with
  | emergencyOverride reason =>
    have reasons := DecisionType.emergencyOverride.inj same
    split at reasons
    next empty =>
      rw [empty] at reasons
      exact absurd reasons (by decide)
    next full => exact full reasons.symm
  | securityAction | policyTransition | revocationEvent | epochTransition | guardrailTriggered =>
    exact overrides

def rewriteReason (marker : DecisionMarker) : DecisionMarker :=
  { marker with decisionType := otherReason marker.decisionType }

theorem markerPreimage_rewriteReason (marker : DecisionMarker) :
    markerPreimage (rewriteReason marker) = markerPreimage marker :=
  markerPreimage_congr (otherReason_display marker.decisionType)

theorem lastHash_rewriteReason (markers : List DecisionMarker) :
    lastHash (markers.map rewriteReason) = lastHash markers := by
  rw [lastHash, lastHash, getLast?_map, Option.map_map]
  rfl

theorem recomputeRollingHash_rewriteReason (markers : List DecisionMarker) :
    recomputeRollingHash tiers (markers.map rewriteReason) = recomputeRollingHash tiers markers := by
  rw [recomputeRollingHash, foldl_map]
  rfl

theorem chainHeadOf_rewriteReason (checkpointKey : Bytes) (markers : List DecisionMarker) :
    chainHeadOf tiers checkpointKey (markers.map rewriteReason) =
      chainHeadOf tiers checkpointKey markers := by
  rw [chainHeadOf, chainHeadOf, recomputeRollingHash_rewriteReason, getLast?_map, Option.map_map]
  rfl

theorem hashedInputs_rewriteReason_subset (markers : List DecisionMarker) :
    hashedInputs tiers (markers.map rewriteReason) ⊆ hashedInputs tiers markers := by
  apply hashedInputs_subset
  · intro held member
    obtain ⟨marker, original, rfl⟩ := mem_map.mp member
    exact Or.inl ⟨marker, original, markerPreimage_rewriteReason marker⟩
  · intro before held after split
    obtain ⟨before, rest, rfl, rfl, tail⟩ := map_eq_append_iff.mp split
    obtain ⟨marker, after, rfl, rfl, rfl⟩ := map_eq_cons_iff.mp tail
    exact Or.inr ⟨before, marker, after, rfl, by rw [recomputeRollingHash_rewriteReason]; rfl⟩

theorem Linked.rewriteReason (linked : Linked tiers markers) :
    Linked tiers (markers.map rewriteReason) := by
  induction linked with
  | nil => exact .nil
  | @snoc markers marker _ order link hashed ih =>
    rw [map_append, map_singleton]
    refine .snoc ih ?_ ?_ ?_
    · intro previous member
      rw [getLast?_map] at member
      obtain ⟨original, held, rfl⟩ := map_eq_some_iff.mp member
      exact order original held
    · rw [lastHash_rewriteReason]
      exact link
    · rw [computeMarkerHash, markerPreimage_rewriteReason]
      exact hashed

theorem Built.exists_undetected (built : Built tiers checkpointKey stream)
    (member : marker ∈ stream.markers) (overrides : marker.decisionType.IsOverride) :
    verifyChain tiers { stream with markers := stream.markers.map rewriteReason } = .ok () ∧
      verifyHead tiers { stream with markers := stream.markers.map rewriteReason } = .ok () ∧
      (∀ altered ∈ stream.markers.map rewriteReason, altered.Bounded) ∧
      stream.markers.map rewriteReason ≠ stream.markers := by
  have nonempty : stream.markers.map rewriteReason ≠ [] := by
    intro empty
    rw [map_eq_nil_iff.mp empty] at member
    cases member
  refine ⟨verifyChain_ok_iff.mpr ⟨nonempty, built.linked.rewriteReason⟩,
    (verifyHead_ok_iff nonempty).mpr ?_, ?_, ?_⟩
  · dsimp only
    rw [chainHeadOf_rewriteReason, built.key, built.head]
  · intro altered held
    obtain ⟨marker, original, rfl⟩ := mem_map.mp held
    have bounded := built.bounded marker original
    exact { bounded with decisionType := otherReason_bounded bounded.decisionType }
  · intro same
    have fixed := map_eq_map_iff.mp (same.trans (map_id' _).symm) marker member
    exact otherReason_ne overrides (congrArg DecisionMarker.decisionType fixed)

theorem tamperEvident_iff (tiers : HashTiers) (checkpointInterval : UInt64) (checkpointKey : Bytes)
    (inputs : List MarkerInput) (bounded : ∀ input ∈ inputs, input.Bounded)
    (room : inputs.length + 1 < 2 ^ 64)
    (free : tiers.CollisionFree
      (hashedInputs tiers (ofInputs tiers checkpointInterval checkpointKey inputs).markers)) :
    TamperEvident tiers (ofInputs tiers checkpointInterval checkpointKey inputs) ↔
      ∀ marker ∈ (ofInputs tiers checkpointInterval checkpointKey inputs).markers,
        ¬ marker.decisionType.IsOverride := by
  obtain ⟨built, -⟩ := built_ofInputs tiers checkpointInterval checkpointKey bounded room
  constructor
  · intro evident marker member overrides
    obtain ⟨chain, head, alteredBounded, differs⟩ := built.exists_undetected member overrides
    refine differs (evident _ alteredBounded ?_ chain head)
    rw [Set.union_eq_left.mpr (hashedInputs_rewriteReason_subset _)]
    exact free
  · intro plain altered alteredBounded both chain head
    exact eq_of_sameDisplay (built.sameDisplay alteredBounded both chain head) plain

def drillInput (decisionType : DecisionType) : MarkerInput where
  timestampTicks := 100
  epochId := 1
  decisionType := decisionType
  decisionId := "d-1"
  policyId := none
  correlationId := ⟨"c-1"⟩
  traceContext := none
  principalId := none
  zoneId := none
  errorCode := none
  evidenceEntryHash := .zero
  actor := "ops"
  payloadSummary := "drill"
  fullPayload := none
  traceId := "t-1"

theorem drillInput_bounded {decisionType : DecisionType} (bounded : decisionType.Bounded) :
    (drillInput decisionType).Bounded where
  decisionType := bounded
  decisionId := by show FitsWord "d-1"; decide +kernel
  policyId := by rintro text ⟨⟩
  correlationId := by show FitsWord "c-1"; decide +kernel
  traceContext := by rintro context ⟨⟩
  principalId := by rintro text ⟨⟩
  zoneId := by rintro text ⟨⟩
  errorCode := by rintro text ⟨⟩
  actor := by show FitsWord "ops"; decide +kernel
  payloadSummary := by show FitsWord "drill"; decide +kernel

theorem hashedInputs_subset_listed (markers : List DecisionMarker) : hashedInputs tiers markers ⊆
      {bytes | bytes ∈ markers.map markerPreimage ++ (markers.inits.zip markers).map fun place =>
        rollingPreimage (recomputeRollingHash tiers place.1) place.2.markerId
          place.2.markerHash} := by
  apply hashedInputs_subset
  · intro held member
    exact mem_append_left _ (mem_map_of_mem member)
  · intro before held after split
    have place := mem_zip_inits_iff.mpr ⟨after, split⟩
    exact mem_append_right _ (mem_map.mpr ⟨(before, held), place, rfl⟩)

theorem tamperEvident_guardrails :
    let tiers := Authority.Hashes.polynomial.toHashTiers
    let stream := ofInputs tiers 8 [7]
      [drillInput (.guardrailTriggered "g"), drillInput (.guardrailTriggered "h")]
    stream.markers.length = 2 ∧ TamperEvident tiers stream := by
  intro tiers stream
  refine ⟨by decide +kernel, (tamperEvident_iff tiers 8 [7] _ ?_ (by decide) ?_).mpr ?_⟩
  · intro input member
    rcases mem_pair.mp member with rfl | rfl
    · exact drillInput_bounded (by show FitsWord "g"; decide +kernel)
    · exact drillInput_bounded (by show FitsWord "h"; decide +kernel)
  · refine Set.InjOn.mono (hashedInputs_subset_listed stream.markers) ?_
    intro left leftMember right rightMember
    exact inj_on_of_nodup_map (by decide +kernel) leftMember rightMember
  · decide +kernel

/-- Emergency overrides whose reasons are rewritten pass both checks. -/
theorem verify_accepts_rewritten_reason :
    let tiers := Authority.Hashes.polynomial.toHashTiers
    let stream := ofInputs tiers 8 [7]
      [drillInput (.guardrailTriggered "g"), drillInput (.emergencyOverride "drill")]
    let altered := stream.markers.map rewriteReason
    tiers.CollisionFree (hashedInputs tiers stream.markers ∪ hashedInputs tiers altered) ∧
      verifyChain tiers { stream with markers := altered } = .ok () ∧
      verifyHead tiers { stream with markers := altered } = .ok () ∧
      altered ≠ stream.markers := by
  intro tiers stream altered
  refine ⟨?_, by decide +kernel, by decide +kernel, by decide +kernel⟩
  rw [Set.union_eq_left.mpr (hashedInputs_rewriteReason_subset _)]
  refine Set.InjOn.mono (hashedInputs_subset_listed stream.markers) ?_
  intro left leftMember right rightMember
  exact inj_on_of_nodup_map (by decide +kernel) leftMember rightMember

end FrankenEngine.Marker
