import FrankenEngine.Mmr.RangeProperties
import Mathlib.Data.Nat.Pairing

/-!
# Completeness and soundness of the compact proofs
-/

set_option autoImplicit false

namespace FrankenEngine.Mmr

open Library List MerkleMountainRange Function

variable {Hash : Type} {hashing : NodeHashing Hash}

/-!
## The two walks
-/

variable {leaves hashes : List Hash} {oldLength : Nat}

/-- The prover's walk collects exactly what the verifier's walk consumes, and
both end at the same peak with its hash. -/
theorem climb_complete {mmr : MerkleMountainRange Hash} (represents : Represents hashing mmr leaves)
    {height index : Nat} (inside : (index + 1) * 2 ^ height ≤ leaves.length) :
    ∃ path : List Hash, ∃ peak ∈ peaks leaves.length,
      (∀ collected, climb (forestSize leaves.length) (mmr.collectSibling hashing)
          (nodePos height index) height collected =
        .ok (nodePos peak.1 peak.2, collected ++ path)) ∧
      ∀ rest, climb (forestSize leaves.length) (consumeSibling hashing)
          (nodePos height index) height (nodeHash hashing leaves height index, path ++ rest) =
        .ok (nodePos peak.1 peak.2, nodeHash hashing leaves peak.1 peak.2, rest) := by
  induction height, index, inside using node_induction with
  | peak height index inside top =>
    refine ⟨[], (height, index), top, ?_, ?_⟩
    · intro collected
      rw [climb_peak top, append_nil]
    · intro rest
      exact climb_peak top _
  | left height half inside paired ih =>
    obtain ⟨path, peak, top, collects, consumes⟩ := ih
    have sibling : (2 * half + 1 + 1) * 2 ^ height ≤ leaves.length := by
      have regroup : (2 * half + 1 + 1) * 2 ^ height = (half + 1) * 2 ^ (height + 1) := by ring
      omega
    refine ⟨nodeHash hashing leaves height (2 * half + 1) :: path, peak, top, ?_, ?_⟩
    · intro collected
      rw [climb_left paired, collectSibling, Sibling.pos,
        represents.nodeAt_eq sibling, ok_bind, collects, append_assoc, singleton_append]
    · intro rest
      rw [climb_left paired]
      exact consumes rest
  | right height half inside paired ih =>
    obtain ⟨path, peak, top, collects, consumes⟩ := ih
    have sibling : (2 * half + 1) * 2 ^ height ≤ leaves.length :=
      Nat.le_trans (Nat.mul_le_mul_right _ (Nat.le_succ _)) inside
    refine ⟨nodeHash hashing leaves height (2 * half) :: path, peak, top, ?_, ?_⟩
    · intro collected
      rw [climb_right, collectSibling, Sibling.pos,
        represents.nodeAt_eq sibling, ok_bind, collects, append_assoc, singleton_append]
    · intro rest
      rw [climb_right]
      exact consumes rest

/-- Whatever hashes the verifier consumes, its walk ends at the peak over the
node, and arriving there with the right hash means starting from the right one. -/
theorem climb_sound (injective : Injective2 hashing.hashPair) {height index : Nat}
    (inside : (index + 1) * 2 ^ height ≤ leaves.length) {current : Hash}
    {outcome : Nat × Hash × List Hash}
    (walked : climb (forestSize leaves.length) (consumeSibling hashing) (nodePos height index) height
      (current, hashes) = .ok outcome) :
    ∃ peak ∈ peaks leaves.length, outcome.1 = nodePos peak.1 peak.2 ∧
      (outcome.2.1 = nodeHash hashing leaves peak.1 peak.2 →
        current = nodeHash hashing leaves height index) := by
  induction height, index, inside using node_induction generalizing current hashes with
  | peak height index inside top =>
    rw [climb_peak top] at walked
    cases walked
    exact ⟨_, top, rfl, id⟩
  | left height half inside paired ih =>
    rw [climb_left paired] at walked
    cases hashes with
    | nil => cases walked
    | cons hash rest =>
      obtain ⟨peak, top, position, arrived⟩ := ih walked
      refine ⟨peak, top, position, ?_⟩
      intro right
      exact (injective (arrived right)).1
  | right height half inside paired ih =>
    rw [climb_right] at walked
    cases hashes with
    | nil => cases walked
    | cons hash rest =>
      obtain ⟨peak, top, position, arrived⟩ := ih walked
      refine ⟨peak, top, position, ?_⟩
      intro right
      exact (injective (arrived right)).2

/-!
## Gathering the peaks
-/

theorem gatherPeaks_complete (known : Nat → Option Hash) (reason : String) (value : Nat → Hash)
    (positions : List Nat)
    (agrees : ∀ pos ∈ positions, ∀ hash, known pos = some hash → hash = value pos) :
    gatherPeaks known reason positions
        ((positions.filter fun pos => (known pos).isNone).map value) =
      .ok (positions.map value) := by
  induction positions with
  | nil => rfl
  | cons pos positions ih =>
    have later := ih fun other member => agrees other (mem_cons_of_mem _ member)
    cases found : known pos with
    | some hash =>
      have same := agrees pos mem_cons_self hash found
      rw [filter_cons_of_neg (by simp [found])]
      simp only [gatherPeaks, found, later, ok_bind, same, map_cons]
    | none =>
      rw [filter_cons_of_pos (by simp [found])]
      simp only [map_cons, gatherPeaks, found, later, ok_bind]

theorem gatherPeaks_sound {known : Nat → Option Hash} {reason : String} {positions : List Nat}
    {gathered : List Hash} (accepted : gatherPeaks known reason positions hashes = .ok gathered) :
    Forall₂ (fun pos hash => ∀ value, known pos = some value → hash = value)
      positions gathered := by
  induction positions generalizing hashes gathered with
  | nil =>
    cases accepted
    exact .nil
  | cons pos positions ih =>
    unfold gatherPeaks at accepted
    split at accepted
    next hash _ found =>
      obtain ⟨rest, later, same⟩ := bind_ok accepted
      cases same
      refine .cons ?_ (ih later)
      intro value again
      exact Option.some.inj (found.symm.trans again)
    next => cases accepted
    next hash _ missing =>
      obtain ⟨rest, later, same⟩ := bind_ok accepted
      cases same
      refine .cons ?_ (ih later)
      intro value found
      rw [missing] at found
      cases found

theorem nodePos_injective : Injective fun node : Nat × Nat => nodePos node.1 node.2 := by
  intro left right same
  obtain ⟨heights, indices⟩ := nodePos_inj same
  exact Prod.ext heights indices

theorem survivingPeak_of_mem (value : Nat × Nat → Hash) {peak : Nat × Nat}
    (member : peak ∈ peaks oldLength) :
    survivingPeak (peakPositions (mmrSize oldLength)) ((peaks oldLength).map value)
      (nodePos peak.1 peak.2) = some (value peak) := by
  have listed : nodePos peak.1 peak.2 ∈ peakPositions (mmrSize oldLength) := by
    rw [peakPositions_mmrSize]
    exact mem_map_of_mem member
  have found := getElem?_idxOf listed
  rw [survivingPeak, if_pos (contains_iff_mem.mpr listed)]
  rw [peakPositions_mmrSize, getElem?_map] at found ⊢
  obtain ⟨other, held, same⟩ := Option.map_eq_some_iff.mp found
  rw [held, Option.map_some, nodePos_injective same]

theorem of_survivingPeak {value : Nat × Nat → Hash} {pos : Nat} {hash : Hash}
    (found : survivingPeak (peakPositions (mmrSize oldLength)) ((peaks oldLength).map value) pos =
      some hash) :
    ∃ peak ∈ peaks oldLength, pos = nodePos peak.1 peak.2 ∧ hash = value peak := by
  cases listed : (peakPositions (mmrSize oldLength)).contains pos with
  | false =>
    rw [survivingPeak, listed] at found
    cases found
  | true =>
    rw [contains_iff_mem, peakPositions_mmrSize] at listed
    obtain ⟨peak, member, rfl⟩ := mem_map.mp listed
    rw [survivingPeak_of_mem value member] at found
    exact ⟨peak, member, rfl, (Option.some.inj found).symm⟩

theorem survivingPeak_isNone (value : Nat × Nat → Hash) (pos : Nat) :
    (survivingPeak (peakPositions (mmrSize oldLength)) ((peaks oldLength).map value) pos).isNone =
      !(peakPositions (mmrSize oldLength)).contains pos := by
  cases listed : (peakPositions (mmrSize oldLength)).contains pos with
  | false =>
    rw [survivingPeak, listed]
    rfl
  | true =>
    rw [contains_iff_mem, peakPositions_mmrSize] at listed
    obtain ⟨peak, member, rfl⟩ := mem_map.mp listed
    rw [survivingPeak_of_mem value member]
    rfl

theorem checkRoot_ok [DecidableEq Hash] {expected computed : Hash} :
    checkRoot expected computed = .ok () ↔ computed = expected := by
  unfold checkRoot
  split
  next differ => simpa using differ
  next same => simpa using same

theorem known_eq_of_root (injective : Injective2 hashing.hashPair)
    {known : Nat → Option Hash} {reason : String} {gathered : List Hash}
    (accepted : gatherPeaks known reason (peakPositions (mmrSize leaves.length)) hashes =
      .ok gathered)
    (root : bagPeaks hashing gathered = bagPeaks hashing (peakHashes hashing leaves))
    {peak : Nat × Nat} (top : peak ∈ peaks leaves.length) {value : Hash}
    (found : known (nodePos peak.1 peak.2) = some value) :
    value = nodeHash hashing leaves peak.1 peak.2 := by
  have sound := gatherPeaks_sound accepted
  rw [peakPositions_mmrSize] at sound
  have length : gathered.length = (peakHashes hashing leaves).length := by
    rw [← sound.length_eq, peakHashes, length_map, length_map]
  rw [bagPeaks_injective injective length root, peakHashes, forall₂_map_left_iff,
    forall₂_map_right_iff, forall₂_same] at sound
  exact (sound peak top value found).symm

/-!
## Inclusion
-/

section Verification

variable [DecidableEq Hash]

variable {leaves : List Hash} {mmr : MerkleMountainRange Hash} {proof : MmrProof Hash}
  {oldLength : Nat}

theorem Represents.verifyInclusion_inclusionProof (represents : Represents hashing mmr leaves)
    {index : Nat} (inside : index < leaves.length) :
    ∃ proof, mmr.inclusionProof hashing index = .ok proof ∧
      verifyInclusion hashing leaves[index] index proof = .ok () := by
  have leafInside : (index + 1) * 2 ^ 0 ≤ leaves.length := by
    rw [Nat.pow_zero, Nat.mul_one]
    exact inside
  have nonempty : leaves ≠ [] := ne_nil_of_length_pos (Nat.zero_lt_of_lt inside)
  obtain ⟨path, peak, top, collects, consumes⟩ := climb_complete represents leafInside
  have leafHash : nodeHash hashing leaves 0 index = leaves[index] := by
    simp [nodeHash, subtree, leafAt, inside]
  have peakHash := represents.nodeAt_eq (inside_of_mem_peaks top)
  have root := represents.rootHash_eq nonempty
  have size : mmrSize mmr.numLeaves = mmr.size := by
    rw [mmrSize_eq, represents.numLeaves, represents.size]
  have more : ¬ mmr.numLeaves ≤ index := by
    rw [represents.numLeaves]
    omega
  rw [leafHash, ← represents.size] at consumes
  rw [← represents.size] at collects
  let otherPeaks := (peakPositions mmr.size).filter (· ≠ nodePos peak.1 peak.2)
  refine ⟨⟨.inclusion, index, path ++ otherPeaks.map (mmr.nodeAt hashing),
    bagPeaks hashing (peakHashes hashing leaves), mmr.numLeaves, mmr.epochId⟩, ?_, ?_⟩
  · rw [inclusionProof, if_neg more, leafToPos_eq, collects, ok_bind, root]
    rfl
  · rw [verifyInclusion, if_neg (not_not.mpr rfl), if_neg more]
    dsimp only
    rw [size, leafToPos_eq, consumes, ok_bind]
    have gathered := gatherPeaks_complete
      (fun pos => if pos = nodePos peak.1 peak.2 then
        some (nodeHash hashing leaves peak.1 peak.2) else none)
      "not enough proof hashes for peaks" (mmr.nodeAt hashing) (peakPositions mmr.size) (by
        intro pos _ hash found
        split at found
        next same =>
          cases found
          rw [same, peakHash]
        next => cases found)
    have others : ((peakPositions mmr.size).filter fun pos =>
        (if pos = nodePos peak.1 peak.2 then
          some (nodeHash hashing leaves peak.1 peak.2) else none).isNone) = otherPeaks := by
      apply filter_congr
      intro pos _
      split <;> simp_all
    rw [others] at gathered
    rw [gathered, ok_bind, checkRoot_ok, ← represents.peaks_eq]
    rfl

theorem Represents.eq_of_verifyInclusion (injective : Injective2 hashing.hashPair)
    (represents : Represents hashing mmr leaves) {index : Nat} (inside : index < leaves.length)
    {hash : Hash} (length : proof.streamLength = leaves.length)
    (rooted : mmr.rootHash hashing = .ok proof.rootHash)
    (accepted : verifyInclusion hashing hash index proof = .ok ()) : hash = leaves[index] := by
  have leafInside : (index + 1) * 2 ^ 0 ≤ leaves.length := by
    rw [Nat.pow_zero, Nat.mul_one]
    exact inside
  rw [represents.rootHash_eq (represents.nonempty_of_rootHash rooted)] at rooted
  simp only [verifyInclusion, else_ok_iff, bind_ok_iff, checkRoot_ok] at accepted
  obtain ⟨-, -, ⟨pos, current, hashes⟩, walked, gathered, collected, computed⟩ := accepted
  rw [length, leafToPos_eq, mmrSize_eq] at walked
  rw [length] at collected
  have root := computed.trans (Except.ok.inj rooted).symm
  obtain ⟨peak, top, position, arrived⟩ := climb_sound injective leafInside walked
  have peakHash := known_eq_of_root injective collected root top (if_pos position.symm)
  have leafHash := arrived peakHash
  simpa [nodeHash, subtree, leafAt, inside] using leafHash

/-!
## Consistency
-/

theorem verifyConsistency_ok_iff {oldRoot : Hash} :
    verifyConsistency hashing oldRoot proof = .ok () ↔
      proof.proofType = .consistency ∧ proof.markerIndex ≠ 0 ∧
      (peakPositions (mmrSize proof.markerIndex)).length ≤ proof.proofHashes.length ∧
      bagPeaks hashing (proof.proofHashes.take (peakPositions (mmrSize proof.markerIndex)).length) =
        oldRoot ∧
      ∃ newPeaks, gatherPeaks
          (survivingPeak (peakPositions (mmrSize proof.markerIndex))
            (proof.proofHashes.take (peakPositions (mmrSize proof.markerIndex)).length))
          "not enough proof hashes for new peaks" (peakPositions (mmrSize proof.streamLength))
          (proof.proofHashes.drop (peakPositions (mmrSize proof.markerIndex)).length) =
            .ok newPeaks ∧
        bagPeaks hashing newPeaks = proof.rootHash := by
  simp only [verifyConsistency, else_ok_iff, bind_ok_iff, checkRoot_ok, not_not, Nat.not_lt, ne_eq]

/-- The verifier accepts the peaks of any old stream that has the same hashes
as the new one at the peaks both have. -/
theorem Represents.verifyConsistency_of_agree {old new : List Hash}
    (represents : Represents hashing mmr new) (nonempty : old ≠ [])
    (agree : ∀ peak ∈ peaks old.length, peak ∈ peaks new.length →
      nodeHash hashing old peak.1 peak.2 = nodeHash hashing new peak.1 peak.2) :
    verifyConsistency hashing (bagPeaks hashing (peakHashes hashing old))
      { proofType := .consistency
        markerIndex := old.length
        proofHashes := peakHashes hashing old ++ ((peakPositions mmr.size).filter fun pos =>
          !(peakPositions (mmrSize old.length)).contains pos).map (mmr.nodeAt hashing)
        rootHash := bagPeaks hashing (peakHashes hashing new)
        streamLength := new.length
        epochId := mmr.epochId } = .ok () := by
  have count : (peakPositions (mmrSize old.length)).length = (peakHashes hashing old).length := by
    rw [peakPositions_mmrSize, peakHashes, length_map, length_map]
  have size : mmrSize new.length = mmr.size := by
    rw [mmrSize_eq, represents.size]
  rw [verifyConsistency_ok_iff]
  rw [count, take_left, drop_left, size]
  refine ⟨rfl, length_eq_zero_iff.not.mpr nonempty, by simp, rfl, _, ?_,
    congrArg _ represents.peaks_eq⟩
  have gathered := gatherPeaks_complete
    (survivingPeak (peakPositions (mmrSize old.length)) (peakHashes hashing old))
    "not enough proof hashes for new peaks" (mmr.nodeAt hashing) (peakPositions mmr.size) (by
      intro pos member hash found
      obtain ⟨peak, oldPeak, rfl, rfl⟩ := of_survivingPeak found
      rw [represents.peakPositions_eq] at member
      have newPeak := (mem_map_of_injective nodePos_injective).mp member
      rw [represents.nodeAt_eq (inside_of_mem_peaks newPeak)]
      exact agree peak oldPeak newPeak)
  simp only [peakHashes, survivingPeak_isNone] at gathered
  exact gathered

theorem Represents.verifyConsistency_consistencyProof (represents : Represents hashing mmr leaves)
    (positive : 1 ≤ oldLength) (bound : oldLength ≤ leaves.length) :
    ∃ proof, mmr.consistencyProof hashing oldLength = .ok proof ∧
      verifyConsistency hashing (bagPeaks hashing (peakHashes hashing (leaves.take oldLength)))
        proof = .ok () := by
  have taken : (leaves.take oldLength).length = oldLength := length_take_of_le bound
  have agree : ∀ peak ∈ peaks (leaves.take oldLength).length,
      nodeHash hashing (leaves.take oldLength) peak.1 peak.2 =
        nodeHash hashing leaves peak.1 peak.2 := by
    intro peak member
    conv_rhs => rw [← take_append_drop oldLength leaves]
    exact (nodeHash_append _ (inside_of_mem_peaks member)).symm
  have oldHashes : (peakPositions (mmrSize oldLength)).map (mmr.nodeAt hashing) =
      peakHashes hashing (leaves.take oldLength) := by
    rw [peakPositions_mmrSize, represents.map_nodeAt (fun node member =>
      Nat.le_trans (inside_of_mem_peaks member) bound), peakHashes, taken]
    apply map_congr_left
    intro peak member
    exact (agree peak (by rwa [taken])).symm
  have nonempty : leaves.take oldLength ≠ [] := ne_nil_of_length_pos (by omega)
  have accepted := represents.verifyConsistency_of_agree nonempty fun peak member _ =>
    agree peak member
  have root := represents.rootHash_eq (ne_nil_of_length_pos (by omega))
  have some : ¬ oldLength = 0 := by omega
  have notMore : ¬ mmr.numLeaves < oldLength := by
    rw [represents.numLeaves]
    omega
  refine ⟨_, ?_, accepted⟩
  rw [consistencyProof, if_neg some, if_neg notMore, root, taken, ← oldHashes,
    ← map_append, ← represents.numLeaves]
  rfl

theorem prefix_of_verifyConsistency (injective : Injective2 hashing.hashPair)
    {old new : List Hash} (survives : ∀ peak ∈ peaks old.length, peak ∈ peaks new.length)
    (oldLength : proof.markerIndex = old.length) (newLength : proof.streamLength = new.length)
    (rooted : bagPeaks hashing (peakHashes hashing new) = proof.rootHash)
    (accepted : verifyConsistency hashing (bagPeaks hashing (peakHashes hashing old)) proof =
      .ok ()) : old <+: new := by
  obtain ⟨-, -, enough, oldRooted, newPeaks, gathered, newRooted⟩ :=
    verifyConsistency_ok_iff.mp accepted
  rw [oldLength] at enough oldRooted gathered
  have oldPeaks : proof.proofHashes.take (peakPositions (mmrSize old.length)).length =
      peakHashes hashing old := by
    apply bagPeaks_injective injective _ oldRooted
    rw [length_take_of_le enough, peakPositions_mmrSize, peakHashes, length_map, length_map]
  rw [oldPeaks, newLength] at gathered
  have sameLeaf : ∀ i < old.length, i < new.length ∧ leafAt hashing old i = leafAt hashing new i := by
    intro i inside
    obtain ⟨peak, oldPeak, covers⟩ := exists_mem_peaks_covers inside
    have newPeak := survives peak oldPeak
    have sameHash := known_eq_of_root injective gathered (newRooted.trans rooted.symm) newPeak
      (survivingPeak_of_mem _ oldPeak)
    exact ⟨Nat.lt_of_lt_of_le covers.2 (inside_of_mem_peaks newPeak),
      subtree_injective injective sameHash covers⟩
  rw [prefix_iff_getElem?]
  intro i inside
  obtain ⟨newInside, same⟩ := sameLeaf i inside
  rw [leafAt, leafAt, getD_eq_getElem _ _ inside, getD_eq_getElem _ _ newInside] at same
  rw [getElem?_eq_getElem newInside, same]

/-- A peak that the new range has swallowed can be replaced: the verifier never
looks below the new peaks. -/
theorem exists_forged_history {newLength : Nat} {honest forged : Hash} (distinct : honest ≠ forged)
    (represents : Represents hashing mmr (replicate newLength honest)) {swallowed : Nat × Nat}
    (oldPeak : swallowed ∈ peaks oldLength) (gone : swallowed ∉ peaks newLength) :
    ∃ old : List Hash, old.length = oldLength ∧ ¬ old <+: replicate newLength honest ∧
      ∃ proof : MmrProof Hash, proof.proofType = .consistency ∧ proof.markerIndex = oldLength ∧
        proof.streamLength = newLength ∧
        proof.rootHash = bagPeaks hashing (peakHashes hashing (replicate newLength honest)) ∧
        verifyConsistency hashing (bagPeaks hashing (peakHashes hashing old)) proof = .ok () := by
  have changed : swallowed.2 * 2 ^ swallowed.1 < oldLength := by
    have inside := inside_of_mem_peaks oldPeak
    have positive := Nat.two_pow_pos swallowed.1
    rw [Nat.add_mul, Nat.one_mul] at inside
    omega
  have underSwallowed : Covers swallowed (swallowed.2 * 2 ^ swallowed.1) := by
    refine ⟨Nat.le_refl _, ?_⟩
    rw [Nat.add_mul, Nat.one_mul]
    exact Nat.lt_add_of_pos_right (Nat.two_pow_pos _)
  let old := (replicate oldLength honest).set (swallowed.2 * 2 ^ swallowed.1) forged
  have length : old.length = oldLength := by simp [old]
  refine ⟨old, length, ?_, ?_⟩
  · intro initial
    have held : forged ∈ old := mem_set (by rwa [length_replicate]) forged
    exact distinct (eq_of_mem_replicate (initial.subset held)).symm
  · have agree : ∀ peak ∈ peaks old.length,
        peak ∈ peaks (replicate newLength honest).length →
        nodeHash hashing old peak.1 peak.2 =
          nodeHash hashing (replicate newLength honest) peak.1 peak.2 := by
      intro peak shared newPeak
      rw [length] at shared
      rw [length_replicate] at newPeak
      apply subtree_congr
      intro leaf covers
      have untouched : swallowed.2 * 2 ^ swallowed.1 ≠ leaf := by
        rintro rfl
        exact gone (peak_unique shared oldPeak covers underSwallowed ▸ newPeak)
      have oldInside := Nat.lt_of_lt_of_le covers.2 (inside_of_mem_peaks shared)
      have newInside := Nat.lt_of_lt_of_le covers.2 (inside_of_mem_peaks newPeak)
      simp [leafAt, old, untouched, oldInside, newInside]
    have nonempty : old ≠ [] := ne_nil_of_length_pos (by omega)
    exact ⟨_, rfl, length, length_replicate, rfl,
      represents.verifyConsistency_of_agree nonempty agree⟩

variable (hashing) in
/-- What `verify_consistency` promises for streams of these lengths: an accepted
proof against the root of the new stream shows that the old one is its prefix. -/
def ConsistencySound (epochId oldLength newLength : Nat) : Prop :=
  ∀ (old new : List Hash) (oldRoot : Hash) (proof : MmrProof Hash),
    old.length = oldLength → new.length = newLength →
    proof.proofType = .consistency → proof.markerIndex = oldLength →
    proof.streamLength = newLength →
    (MerkleMountainRange.ofLeaves hashing epochId old).rootHash hashing = .ok oldRoot →
    (MerkleMountainRange.ofLeaves hashing epochId new).rootHash hashing = .ok proof.rootHash →
    verifyConsistency hashing oldRoot proof = .ok () →
    old <+: new

theorem peakPositions_subset_iff {newLength : Nat} :
    (∀ pos ∈ peakPositions (mmrSize oldLength), pos ∈ peakPositions (mmrSize newLength)) ↔
      ∀ peak ∈ peaks oldLength, peak ∈ peaks newLength := by
  rw [peakPositions_mmrSize, peakPositions_mmrSize]
  exact map_subset_iff _ nodePos_injective

def pairing : NodeHashing Nat := ⟨Nat.pair, 0⟩

theorem pairing_injective : Injective2 pairing.hashPair := by
  intro left left' right right' same
  exact Nat.pair_eq_pair.mp same

theorem consistencySound_iff [Nontrivial Hash] (injective : Function.Injective2 hashing.hashPair)
    (epochId oldLength newLength : Nat) (nonempty : 0 < newLength) :
    ConsistencySound hashing epochId oldLength newLength ↔
      ∀ pos ∈ peakPositions (mmrSize oldLength), pos ∈ peakPositions (mmrSize newLength) := by
  rw [peakPositions_subset_iff]
  constructor
  · intro sound peak oldPeak
    by_contra gone
    obtain ⟨honest, forged, distinct⟩ := exists_pair_ne Hash
    have represents := represents_ofLeaves hashing epochId
      (List.replicate newLength honest)
    obtain ⟨old, length, notPrefix, proof, kind, marker, stream, rooted, accepted⟩ :=
      exists_forged_history distinct represents oldPeak gone
    have oldNonempty : old ≠ [] := by
      rintro rfl
      subst length
      cases oldPeak
    have newRoot := represents.rootHash_eq (List.ne_nil_of_length_pos (by simpa using nonempty))
    rw [← rooted] at newRoot
    exact notPrefix (sound old _ _ proof length List.length_replicate kind marker stream
      ((represents_ofLeaves hashing epochId old).rootHash_eq oldNonempty) newRoot accepted)
  · intro survives old new oldRoot proof oldLen newLen _ marker stream oldRooted newRooted accepted
    subst oldLen newLen
    have oldRepresents := represents_ofLeaves hashing epochId old
    have newRepresents := represents_ofLeaves hashing epochId new
    rw [oldRepresents.rootHash_eq (oldRepresents.nonempty_of_rootHash oldRooted)] at oldRooted
    rw [newRepresents.rootHash_eq (newRepresents.nonempty_of_rootHash newRooted)] at newRooted
    cases oldRooted
    exact prefix_of_verifyConsistency injective survives marker stream (Except.ok.inj newRooted)
      accepted

theorem consistencySound_four_six : ConsistencySound pairing 0 4 6 :=
  (consistencySound_iff pairing_injective 0 4 6 (by decide)).mpr (by decide +kernel)

/-- The old stream `[7]` never was a prefix of `[3, 1]`, but its only peak is no
peak of the new range any more. -/
theorem verifyConsistency_accepts_forged_history :
    (MerkleMountainRange.ofLeaves pairing 0 [7]).rootHash pairing = .ok 7 ∧
      (MerkleMountainRange.ofLeaves pairing 0 [3, 1]).rootHash pairing = .ok 13 ∧
      verifyConsistency pairing 7 ⟨.consistency, 1, [7, 13], 13, 2, 0⟩ = .ok () ∧
      ¬ [7] <+: [3, 1] := by
  decide +kernel

/-!
## Results for a range built from its leaves
-/

theorem proofs_complete (hashing : NodeHashing Hash) (epochId : Nat) (leaves : List Hash)
    (nonempty : leaves ≠ []) :
    (∀ (index : Nat) (inside : index < leaves.length), ∃ proof,
        (MerkleMountainRange.ofLeaves hashing epochId leaves).inclusionProof hashing index =
          .ok proof ∧ verifyInclusion hashing leaves[index] index proof = .ok ()) ∧
    ∀ oldLength, 1 ≤ oldLength → oldLength ≤ leaves.length →
      ∃ proof oldRoot,
        (MerkleMountainRange.ofLeaves hashing epochId leaves).consistencyProof hashing oldLength =
          .ok proof ∧
        (MerkleMountainRange.ofLeaves hashing epochId (leaves.take oldLength)).rootHash hashing =
          .ok oldRoot ∧
        verifyConsistency hashing oldRoot proof = .ok () := by
  have represents := represents_ofLeaves hashing epochId leaves
  constructor
  · intro index inside
    exact represents.verifyInclusion_inclusionProof inside
  · intro oldLength positive bound
    obtain ⟨proof, generated, accepted⟩ :=
      represents.verifyConsistency_consistencyProof positive bound
    have taken : leaves.take oldLength ≠ [] := by
      intro empty
      rcases List.take_eq_nil_iff.mp empty with none | none
      · omega
      · exact nonempty none
    exact ⟨proof, _, generated, (represents_ofLeaves hashing epochId _).rootHash_eq taken, accepted⟩

theorem proofs_complete_three : ([3, 1, 4] : List Nat) ≠ [] ∧
    (∃ proof,
      (MerkleMountainRange.ofLeaves pairing 0 [3, 1, 4]).inclusionProof pairing 1 = .ok proof ∧
      verifyInclusion pairing 1 1 proof = .ok ()) ∧
    ∃ proof oldRoot,
      (MerkleMountainRange.ofLeaves pairing 0 [3, 1, 4]).consistencyProof pairing 1 = .ok proof ∧
      (MerkleMountainRange.ofLeaves pairing 0 [3]).rootHash pairing = .ok oldRoot ∧
      verifyConsistency pairing oldRoot proof = .ok () :=
  ⟨by decide, (proofs_complete pairing 0 [3, 1, 4] (by decide)).1 1 (by decide),
    (proofs_complete pairing 0 [3, 1, 4] (by decide)).2 1 (by decide) (by decide)⟩

theorem verifyInclusion_sound (hashing : NodeHashing Hash)
    (injective : Function.Injective2 hashing.hashPair) (epochId : Nat) (leaves : List Hash)
    (index : Nat) (inside : index < leaves.length) (hash : Hash) (proof : MmrProof Hash)
    (length : proof.streamLength = leaves.length)
    (rooted : (MerkleMountainRange.ofLeaves hashing epochId leaves).rootHash hashing =
      .ok proof.rootHash)
    (accepted : verifyInclusion hashing hash index proof = .ok ()) : hash = leaves[index] :=
  (represents_ofLeaves hashing epochId leaves).eq_of_verifyInclusion injective inside length rooted
    accepted

theorem verifyInclusion_sound_three :
    verifyInclusion pairing 4 2 ⟨.inclusion, 2, [13], 186, 3, 0⟩ = .ok () ∧ 4 = [3, 1, 4][2] := by
  have accepted : verifyInclusion pairing 4 2 ⟨.inclusion, 2, [13], 186, 3, 0⟩ = .ok () := by
    decide +kernel
  have rooted : (MerkleMountainRange.ofLeaves pairing 0 [3, 1, 4]).rootHash pairing = .ok 186 := by
    decide +kernel
  exact ⟨accepted, verifyInclusion_sound pairing pairing_injective 0 [3, 1, 4] 2 (by decide) 4 _ rfl
    rooted accepted⟩

end Verification

/-- The root commits to the leaves, for a known number of them. -/
theorem eq_of_rootHash_eq (injective : Injective2 hashing.hashPair) (epochId otherEpochId : Nat)
    {left right : List Hash} (length : left.length = right.length)
    (same : (ofLeaves hashing epochId left).rootHash hashing =
      (ofLeaves hashing otherEpochId right).rootHash hashing) : left = right := by
  by_cases empty : left = []
  · subst empty
    exact (eq_nil_of_length_eq_zero length.symm).symm
  have present : right ≠ [] := ne_nil_of_length_pos (length ▸ length_pos_iff.mpr empty)
  rw [(represents_ofLeaves hashing epochId left).rootHash_eq empty,
    (represents_ofLeaves hashing otherEpochId right).rootHash_eq present] at same
  have hashes := bagPeaks_injective injective (by simp [peakHashes, length]) (Except.ok.inj same)
  rw [peakHashes, peakHashes, length, map_inj_left] at hashes
  refine ext_getElem length fun i inLeft inRight => ?_
  obtain ⟨peak, top, covers⟩ := exists_mem_peaks_covers inRight
  have leaf := subtree_injective injective (hashes peak top) covers
  rwa [leafAt, leafAt, getD_eq_getElem _ _ inLeft, getD_eq_getElem _ _ inRight] at leaf

theorem eq_of_rootHash_eq_three :
    (ofLeaves pairing 0 [3, 1, 4]).rootHash pairing = .ok 186 ∧
      (ofLeaves pairing 7 [4, 1, 3].reverse).rootHash pairing = .ok 186 ∧
      [3, 1, 4] = [4, 1, 3].reverse := by
  have left : (ofLeaves pairing 0 [3, 1, 4]).rootHash pairing = .ok 186 := by decide +kernel
  have right : (ofLeaves pairing 7 [4, 1, 3].reverse).rootHash pairing = .ok 186 := by
    decide +kernel
  exact ⟨left, right, eq_of_rootHash_eq pairing_injective 0 7 rfl (left.trans right.symm)⟩

end FrankenEngine.Mmr
