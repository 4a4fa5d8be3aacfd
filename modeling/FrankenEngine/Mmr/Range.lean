import FrankenEngine.HashTiers
import FrankenEngine.Library.Forest

/-!
# The Merkle Mountain Range and its proofs

The position helpers of `mmr_proof.rs`, `MerkleMountainRange`, the two proof
generators and the two verifiers, over any type of hashes with a function that
hashes two children and the all-zero hash. Positions and lengths are natural
numbers: the source's `u64` values count nodes held in memory.
-/

set_option autoImplicit false

namespace FrankenEngine.Mmr

open Library

/-- `64 - n.leading_zeros()`. -/
def bitLength (n : Nat) : Nat := if n = 0 then 0 else Nat.log2 n + 1

def isAllOnes (n : Nat) : Bool := decide (0 < n) && (n &&& (n + 1)) == 0

theorem two_le_msb {n : Nat} (large : 2 ≤ n) : 2 ≤ 2 ^ (bitLength n - 1) := by
  rw [bitLength, if_neg (by omega), Nat.add_sub_cancel]
  have exponent : 1 ≤ Nat.log2 n := (Nat.le_log2 (by omega)).mpr large
  exact Nat.pow_le_pow_right (by decide : 0 < 2) exponent

/-- The loop of the source holds `n = pos + 1` and strips its highest bit by
`n - msb + 1`; the recursion is on the position that the new `n` stands for. -/
def posHeight (pos : Nat) : Nat :=
  if isAllOnes (pos + 1) then countOnes (pos + 1) - 1
  else posHeight (pos + 1 - 2 ^ (bitLength (pos + 1) - 1))
termination_by pos
decreasing_by
  rename_i mixed
  have large : 2 ≤ pos + 1 := by
    by_contra small
    have first : pos = 0 := by omega
    rw [first] at mixed
    exact mixed rfl
  have msb := two_le_msb large
  omega

def leafToPos (leafIndex : Nat) : Nat := 2 * leafIndex - countOnes leafIndex

def mmrSize (numLeaves : Nat) : Nat :=
  if numLeaves = 0 then 0 else 2 * numLeaves - countOnes numLeaves

def largestTree (remaining : Nat) : Nat :=
  let h := bitLength remaining
  if remaining < 2 ^ h - 1 then 2 ^ (h - 1) - 1 else 2 ^ h - 1

theorem largestTree_pos {remaining : Nat} (positive : remaining ≠ 0) :
    0 < largestTree remaining := by
  by_cases single : remaining = 1
  · rw [single]
    decide
  · have msb := two_le_msb (show 2 ≤ remaining by omega)
    have wider : 2 ^ (bitLength remaining - 1) ≤ 2 ^ bitLength remaining :=
      Nat.pow_le_pow_right (by decide) (Nat.sub_le _ _)
    unfold largestTree
    dsimp only
    split <;> omega

def peakPositionsFrom (offset remaining : Nat) : List Nat :=
  if remaining = 0 then []
  else
    let treeSize := largestTree remaining
    (offset + treeSize - 1) :: peakPositionsFrom (offset + treeSize) (remaining - treeSize)
termination_by remaining
decreasing_by
  have positive := largestTree_pos ‹_›
  omega

def peakPositions (size : Nat) : List Nat := peakPositionsFrom 0 size

/-!
## Sizes and leaf positions
-/

theorem leafToPos_eq (leafIndex : Nat) : leafToPos leafIndex = nodePos 0 leafIndex := by
  rw [nodePos_zero_left]
  rfl

theorem mmrSize_eq (numLeaves : Nat) : mmrSize numLeaves = forestSize numLeaves := by
  unfold mmrSize forestSize
  split
  next empty => rw [empty, countOnes_zero]
  next => rfl

/-!
## Heights
-/

theorem bitLength_eq {n : Nat} (width : Nat) (low : 2 ^ width ≤ n) (high : n < 2 ^ (width + 1)) :
    bitLength n = width + 1 := by
  have positive : n ≠ 0 := by
    omega
  rw [bitLength, if_neg positive, (Nat.log2_eq_iff positive).mpr ⟨low, high⟩]

theorem two_pow_succ (width : Nat) : 0 < 2 ^ width ∧ 2 ^ (width + 1) = 2 ^ width * 2 :=
  ⟨Nat.two_pow_pos width, Nat.pow_succ 2 width⟩

theorem isAllOnes_pow_sub_one (width : Nat) : isAllOnes (2 ^ (width + 1) - 1) = true := by
  obtain ⟨positive, doubled⟩ := two_pow_succ width
  have next : 2 ^ (width + 1) - 1 + 1 = 2 ^ (width + 1) := by omega
  have nonzero : 0 < 2 ^ (width + 1) - 1 := by omega
  rw [isAllOnes, next, Nat.and_comm, Nat.and_two_pow_sub_one_eq_mod, Nat.mod_self]
  rw [decide_eq_true nonzero]
  rfl

theorem isAllOnes_pow_add {width low : Nat} (small : low + 1 < 2 ^ width) :
    isAllOnes (2 ^ width + low) = false := by
  have here : (2 ^ width + low).testBit width = true := by
    rw [Nat.testBit_two_pow_add_eq, Nat.testBit_lt_two_pow (by omega)]
    rfl
  have next : (2 ^ width + (low + 1)).testBit width = true := by
    rw [Nat.testBit_two_pow_add_eq, Nat.testBit_lt_two_pow small]
    rfl
  have shared : ((2 ^ width + low) &&& (2 ^ width + low + 1)) ≠ 0 := by
    intro none
    have bit := Nat.testBit_and (2 ^ width + low) (2 ^ width + low + 1) width
    rw [none, here, Nat.add_assoc, next, Nat.zero_testBit] at bit
    exact absurd bit (by decide)
  rw [isAllOnes, beq_eq_false_iff_ne.mpr shared, Bool.and_false]

theorem posHeight_nodePos (height index : Nat) : posHeight (nodePos height index) = height := by
  induction index using Nat.strongRecOn with
  | ind index ih =>
    cases index with
    | zero =>
      rw [posHeight, nodePos_zero_right, isAllOnes_pow_sub_one, if_pos rfl,
        countOnes_pow_sub_one, Nat.add_sub_cancel]
    | succ index =>
      obtain ⟨width, low, split, small⟩ :
          ∃ width low, index + 1 = 2 ^ width + low ∧ low < 2 ^ width := by
        refine ⟨Nat.log 2 (index + 1), index + 1 - 2 ^ Nat.log 2 (index + 1), ?_, ?_⟩
        · have below := Nat.pow_log_le_self 2 (show index + 1 ≠ 0 by omega)
          omega
        · have above := Nat.lt_pow_succ_log_self (show 1 < 2 by decide) (index + 1)
          omega
      have total := Nat.two_pow_pos (width + height + 1)
      -- the highest bit of the position is the perfect tree before it
      have shifted : nodePos height (index + 1) + 1 =
          2 ^ (width + height + 1) + nodePos height low := by
        rw [split, nodePos_pow_add small]
        omega
      have under : nodePos height low + 1 < 2 ^ (width + height + 1) := by
        have inside : nodePos height low < forestSize (1 * 2 ^ (width + height)) := by
          rw [nodePos_lt_forestSize_iff, Nat.one_mul, Nat.pow_add]
          exact Nat.mul_le_mul_right _ small
        have size := forestSize_add_countOnes (1 * 2 ^ (width + height))
        rw [countOnes_mul_pow, countOnes_one] at size
        omega
      have length : bitLength (nodePos height (index + 1) + 1) = width + height + 1 + 1 :=
        bitLength_eq _ (by omega) (by rw [Nat.pow_succ]; omega)
      rw [posHeight, length, shifted, isAllOnes_pow_add under, if_neg Bool.false_ne_true,
        Nat.add_sub_cancel, Nat.add_sub_cancel_left]
      exact ih low (by omega)

theorem nodePos_eq_add_iff {height index other : Nat} :
    nodePos height other = nodePos height index + (2 ^ (height + 1) - 1) ↔
      other = index + 1 ∧ index % 2 = 0 := by
  constructor
  · intro apart
    obtain ⟨positive, doubled⟩ := two_pow_succ height
    have after : index < other := by
      apply (nodePos_strictMono height).lt_iff_lt.mp
      omega
    have reach := (nodePos_strictMono height).monotone (show index + 1 ≤ other from after)
    rcases Nat.mod_two_eq_zero_or_one index with even | odd
    · have step := nodePos_add_le_succ height index
      have same : nodePos height other = nodePos height (index + 1) := by omega
      exact ⟨(nodePos_strictMono height).injective same, even⟩
    · have step : nodePos height index + (2 ^ (height + 1) - 1) < nodePos height (index + 1) :=
        nodePos_add_lt_succ_of_odd odd
      omega
  · rintro ⟨rfl, even⟩
    have shape : index = 2 * (index / 2) := by omega
    rw [shape]
    exact nodePos_sibling height (index / 2)

theorem posHeight_eq_iff {pos height : Nat} :
    posHeight pos = height ↔ ∃ index, pos = nodePos height index := by
  constructor
  · intro same
    obtain ⟨actual, index, shape⟩ := exists_nodePos pos
    rw [shape, posHeight_nodePos] at same
    exact ⟨index, by rw [shape, same]⟩
  · rintro ⟨index, rfl⟩
    exact posHeight_nodePos height index

/-!
## Peaks
-/

theorem largestTree_eq {remaining width : Nat} (low : 2 ^ (width + 1) - 1 ≤ remaining)
    (high : remaining < 2 ^ (width + 2) - 1) : largestTree remaining = 2 ^ (width + 1) - 1 := by
  obtain ⟨positive, doubled⟩ := two_pow_succ width
  have redoubled : 2 ^ (width + 2) = 2 ^ (width + 1) * 2 := Nat.pow_succ 2 (width + 1)
  unfold largestTree
  by_cases full : remaining = 2 ^ (width + 1) - 1
  · rw [bitLength_eq width (by omega) (by omega)]
    rw [if_neg (by omega)]
  · rw [bitLength_eq (width + 1) (by omega) (by omega)]
    rw [if_pos (by omega), Nat.add_sub_cancel]

theorem forestSize_two_pow (width : Nat) : forestSize (1 * 2 ^ width) = 2 ^ (width + 1) - 1 := by
  have size := forestSize_add_countOnes (1 * 2 ^ width)
  rw [countOnes_mul_pow, countOnes_one] at size
  omega

theorem peakPositionsFrom_tree (start : Nat) {width rest : Nat} (small : rest < 2 ^ width) :
    peakPositionsFrom start (forestSize (1 * 2 ^ width + rest)) =
      (start + (2 ^ (width + 1) - 2)) ::
        peakPositionsFrom (start + (2 ^ (width + 1) - 1)) (forestSize rest) := by
  obtain ⟨positive, doubled⟩ := two_pow_succ width
  have redoubled : 2 ^ (width + 2) = 2 ^ (width + 1) * 2 := Nat.pow_succ 2 (width + 1)
  have tree := forestSize_two_pow width
  have size := forestSize_mul_pow_add 1 small
  have less : forestSize rest < forestSize (1 * 2 ^ width) := forestSize_strictMono (by omega)
  have largest : largestTree (forestSize (1 * 2 ^ width + rest)) = 2 ^ (width + 1) - 1 :=
    largestTree_eq (by omega) (by omega)
  rw [peakPositionsFrom, if_neg (by omega), largest]
  dsimp only
  congr 1
  · omega
  · congr 1
    omega

theorem forestSize_add_tree {width index : Nat} (even : index % 2 = 0) :
    forestSize (index * 2 ^ width) + (2 ^ (width + 1) - 1) =
      forestSize ((index + 1) * 2 ^ width) := by
  obtain ⟨positive, doubled⟩ := two_pow_succ width
  have closed : nodePos width index + 1 = _ := nodePos_succ_of_even even
  rw [← closed, nodePos]
  omega

theorem peakPositionsFrom_eq (leaves width : Nat) :
    peakPositionsFrom (forestSize (leaves / 2 ^ width * 2 ^ width))
        (forestSize (leaves % 2 ^ width)) =
      (peaksBelow leaves width).map fun node => nodePos node.1 node.2 := by
  induction width with
  | zero =>
    have empty : forestSize (leaves % 2 ^ 0) = 0 := by
      rw [Nat.pow_zero, Nat.mod_one, forestSize, countOnes_zero]
    rw [peakPositionsFrom, if_pos empty]
    rfl
  | succ width ih =>
    have small : leaves % 2 ^ width < 2 ^ width := Nat.mod_lt _ (Nat.two_pow_pos width)
    have low : leaves % 2 ^ (width + 1) =
        leaves / 2 ^ width % 2 * 2 ^ width + leaves % 2 ^ width := by
      rw [Nat.mod_pow_succ, Nat.add_comm, Nat.mul_comm]
    have high : leaves / 2 ^ (width + 1) * 2 ^ (width + 1) =
        leaves / 2 ^ width / 2 * 2 * 2 ^ width := by
      rw [Nat.pow_succ, ← Nat.div_div_eq_div_mul, Nat.mul_assoc, Nat.mul_comm (2 ^ width) 2]
    rw [peaksBelow, low, high]
    split
    next odd =>
      have start : leaves / 2 ^ width / 2 * 2 = leaves / 2 ^ width - 1 := by omega
      have ends : leaves / 2 ^ width - 1 + 1 = leaves / 2 ^ width := by omega
      have behind : forestSize ((leaves / 2 ^ width - 1) * 2 ^ width) + (2 ^ (width + 1) - 1) = _ :=
        forestSize_add_tree
        (show (leaves / 2 ^ width - 1) % 2 = 0 by omega)
      rw [ends] at behind
      rw [odd, start, peakPositionsFrom_tree _ small, behind, ih, List.map_cons, nodePos]
    next even =>
      have start : leaves / 2 ^ width / 2 * 2 = leaves / 2 ^ width := by omega
      have none : leaves / 2 ^ width % 2 = 0 := by omega
      rw [start, none, Nat.zero_mul, Nat.zero_add, ih]

theorem peakPositions_mmrSize (leaves : Nat) :
    peakPositions (mmrSize leaves) = (peaks leaves).map fun node => nodePos node.1 node.2 := by
  have whole := peakPositionsFrom_eq leaves leaves
  rw [Nat.div_eq_of_lt Nat.lt_two_pow_self, Nat.mod_eq_of_lt Nat.lt_two_pow_self,
    Nat.zero_mul] at whole
  have origin : forestSize 0 = 0 := by rw [forestSize, countOnes_zero]
  rw [origin] at whole
  rw [mmrSize_eq]
  exact whole

/-!
## Hashes and proofs
-/

structure NodeHashing (Hash : Type) where
  hashPair : Hash → Hash → Hash
  zero : Hash

def contentHashing (tiers : HashTiers) : NodeHashing ContentHash where
  hashPair left right := tiers.contentHash (left.bytes ++ right.bytes)
  zero := .zero

inductive ProofError (Hash : Type) where
  | indexOutOfRange (index streamLength : Nat)
  | rootMismatch (expected computed : Hash)
  | invalidProof (reason : String)
  | emptyStream
  | consistencyFailure (oldLength newLength : Nat) (reason : String)
  deriving DecidableEq, Repr

inductive ProofType where
  | inclusion
  | consistency
  deriving DecidableEq, Repr

structure MmrProof (Hash : Type) where
  proofType : ProofType
  /-- The leaf of an inclusion proof, the old length of a consistency proof. -/
  markerIndex : Nat
  proofHashes : List Hash
  rootHash : Hash
  streamLength : Nat
  epochId : Nat
  deriving DecidableEq, Repr

structure MerkleMountainRange (Hash : Type) where
  nodes : List Hash
  numLeaves : Nat
  epochId : Nat
  deriving DecidableEq, Repr

variable {Hash : Type}

/-!
## Siblings
-/

def siblingOffset (height : Nat) : Nat := 2 ^ (height + 1) - 1

def hasLeftSibling (pos height : Nat) : Bool :=
  decide (siblingOffset height ≤ pos) && posHeight (pos - siblingOffset height) == height

def hasRightSibling (size pos height : Nat) : Bool :=
  decide (pos + siblingOffset height < size) && posHeight (pos + siblingOffset height) == height

inductive Sibling where
  | right (pos : Nat)
  | left (pos : Nat)
  deriving DecidableEq, Repr

/-- A right sibling is tried first, as in the source's loops. -/
def siblingOf (size pos height : Nat) : Option Sibling :=
  if hasRightSibling size pos height then some (.right (pos + siblingOffset height))
  else if hasLeftSibling pos height then some (.left (pos - siblingOffset height))
  else none

def Sibling.pos : Sibling → Nat
  | .right pos => pos
  | .left pos => pos

def Sibling.parentPos (pos : Nat) : Sibling → Nat
  | .right sibling => sibling + 1
  | .left _ => pos + 1

theorem hasLeftSibling_iff {pos height : Nat} : hasLeftSibling pos height = true ↔
    siblingOffset height ≤ pos ∧ posHeight (pos - siblingOffset height) = height := by
  simp [hasLeftSibling]

theorem hasRightSibling_iff {size pos height : Nat} : hasRightSibling size pos height = true ↔
    pos + siblingOffset height < size ∧ posHeight (pos + siblingOffset height) = height := by
  simp [hasRightSibling]

private theorem siblingOf_cases {size pos height : Nat} {sibling : Sibling}
    (found : siblingOf size pos height = some sibling) :
    (pos + siblingOffset height < size ∧ sibling.parentPos pos = pos + siblingOffset height + 1) ∨
      (siblingOffset height ≤ pos ∧ sibling.parentPos pos = pos + 1) := by
  unfold siblingOf at found
  split at found
  next right =>
    cases found
    exact Or.inl ⟨(hasRightSibling_iff.mp right).1, rfl⟩
  next =>
    split at found
    next left =>
      cases found
      exact Or.inr ⟨(hasLeftSibling_iff.mp left).1, rfl⟩
    next => cases found

/-- The walk from a node to its peak, shared by prover and verifier: `visit` is
what each of them does with a sibling. Returns the position of the peak. -/
def climb {State Error : Type} (size : Nat) (visit : State → Sibling → Except Error State)
    (pos height : Nat) (state : State) : Except Error (Nat × State) :=
  match found : siblingOf size pos height with
  | some sibling => do
      let next ← visit state sibling
      climb size visit (sibling.parentPos pos) (height + 1) next
  | none => .ok (pos, state)
termination_by max size pos + 2 - 2 ^ (height + 1)
decreasing_by
  have positive := Nat.two_pow_pos height
  rcases siblingOf_cases found with ⟨reach, parent⟩ | ⟨reach, parent⟩ <;>
    rw [parent] <;> unfold siblingOffset at * <;> omega

/-!
## The range
-/

section Hashing

variable (hashing : NodeHashing Hash)

/-- Bagging from the right: the last peak, hashed under each peak before it. -/
def bagPeaks : List Hash → Hash
  | [] => hashing.zero
  | [peak] => peak
  | peaks => peaks.dropLast.reverse.foldl (fun root peak => hashing.hashPair peak root)
      (peaks.getLastD hashing.zero)

/-- The merge loop of `append`: as long as the last node has a left sibling of
its height, their parent is pushed. -/
def mergeSiblings (nodes : List Hash) (currentPos height : Nat) : List Hash :=
  if hasLeftSibling currentPos height then
    mergeSiblings
      (nodes ++ [hashing.hashPair (nodes.getD (currentPos - siblingOffset height) hashing.zero)
        (nodes.getD currentPos hashing.zero)])
      nodes.length (height + 1)
  else nodes
termination_by max nodes.length (currentPos + 1) + 1 - 2 ^ (height + 1)
decreasing_by
  rename_i merged
  have reach := (hasLeftSibling_iff.mp merged).1
  have positive := Nat.two_pow_pos height
  unfold siblingOffset at reach
  rw [List.length_append, List.length_singleton]
  omega

namespace MerkleMountainRange

def new (epochId : Nat) : MerkleMountainRange Hash :=
  { nodes := [], numLeaves := 0, epochId := epochId }

variable (mmr : MerkleMountainRange Hash)

def size : Nat := mmr.nodes.length

def nodeAt (pos : Nat) : Hash := mmr.nodes.getD pos hashing.zero

def append (leafHash : Hash) : MerkleMountainRange Hash :=
  { mmr with
    nodes := mergeSiblings hashing (mmr.nodes ++ [leafHash]) mmr.nodes.length 0
    numLeaves := mmr.numLeaves + 1 }

def peaks : List Hash :=
  (peakPositions mmr.size).map (mmr.nodeAt hashing)

def rootHash : Except (ProofError Hash) Hash :=
  if mmr.numLeaves = 0 then .error .emptyStream else .ok (bagPeaks hashing (mmr.peaks hashing))

def collectSibling (proofHashes : List Hash) (sibling : Sibling) :
    Except (ProofError Hash) (List Hash) :=
  .ok (proofHashes ++ [mmr.nodeAt hashing sibling.pos])

def inclusionProof (leafIndex : Nat) : Except (ProofError Hash) (MmrProof Hash) :=
  if mmr.numLeaves ≤ leafIndex then .error (.indexOutOfRange leafIndex mmr.numLeaves)
  else do
    let (pos, siblings) ← climb mmr.size (mmr.collectSibling hashing) (leafToPos leafIndex) 0 []
    let otherPeaks := (peakPositions mmr.size).filter (· ≠ pos)
    let root ← mmr.rootHash hashing
    .ok
      { proofType := .inclusion
        markerIndex := leafIndex
        proofHashes := siblings ++ otherPeaks.map (mmr.nodeAt hashing)
        rootHash := root
        streamLength := mmr.numLeaves
        epochId := mmr.epochId }

def consistencyProof (oldLength : Nat) : Except (ProofError Hash) (MmrProof Hash) :=
  if oldLength = 0 then .error .emptyStream
  else if mmr.numLeaves < oldLength then
    .error (.consistencyFailure oldLength mmr.numLeaves "old length exceeds current stream")
  else do
    let oldPositions := peakPositions (mmrSize oldLength)
    let addedPositions := (peakPositions mmr.size).filter fun pos => !oldPositions.contains pos
    let root ← mmr.rootHash hashing
    .ok
      { proofType := .consistency
        markerIndex := oldLength
        proofHashes := (oldPositions ++ addedPositions).map (mmr.nodeAt hashing)
        rootHash := root
        streamLength := mmr.numLeaves
        epochId := mmr.epochId }

def ofLeaves (epochId : Nat) (leaves : List Hash) : MerkleMountainRange Hash :=
  leaves.foldl (append hashing) (new epochId)

end MerkleMountainRange

/-!
## Verification
-/

def consumeSibling (state : Hash × List Hash) (sibling : Sibling) :
    Except (ProofError Hash) (Hash × List Hash) :=
  match state.2, sibling with
  | [], _ => .error (.invalidProof "not enough proof hashes")
  | hash :: rest, .right _ => .ok (hashing.hashPair state.1 hash, rest)
  | hash :: rest, .left _ => .ok (hashing.hashPair hash state.1, rest)

/-- The peak hashes in order: a known peak as it is, every other one from the
remaining proof hashes. -/
def gatherPeaks (known : Nat → Option Hash) (reason : String) :
    List Nat → List Hash → Except (ProofError Hash) (List Hash)
  | [], _ => .ok []
  | pos :: positions, hashes =>
    match known pos, hashes with
    | some hash, hashes => do
        let rest ← gatherPeaks known reason positions hashes
        .ok (hash :: rest)
    | none, [] => .error (.invalidProof reason)
    | none, hash :: hashes => do
        let rest ← gatherPeaks known reason positions hashes
        .ok (hash :: rest)

def survivingPeak (oldPositions : List Nat) (oldPeaks : List Hash) (pos : Nat) : Option Hash :=
  if oldPositions.contains pos then oldPeaks[oldPositions.idxOf pos]? else none

variable [DecidableEq Hash]

def checkRoot (expected computed : Hash) : Except (ProofError Hash) Unit :=
  if computed ≠ expected then .error (.rootMismatch expected computed) else .ok ()

def verifyInclusion (markerHash : Hash) (leafIndex : Nat) (proof : MmrProof Hash) :
    Except (ProofError Hash) Unit :=
  if proof.proofType ≠ .inclusion then .error (.invalidProof "expected inclusion proof")
  else if proof.streamLength ≤ leafIndex then
    .error (.indexOutOfRange leafIndex proof.streamLength)
  else do
    let size := mmrSize proof.streamLength
    let (pos, current, hashes) ←
      climb size (consumeSibling hashing) (leafToPos leafIndex) 0 (markerHash, proof.proofHashes)
    let peakHashes ← gatherPeaks (fun peak => if peak = pos then some current else none)
      "not enough proof hashes for peaks" (peakPositions size) hashes
    checkRoot proof.rootHash (bagPeaks hashing peakHashes)

def verifyConsistency (oldRoot : Hash) (proof : MmrProof Hash) : Except (ProofError Hash) Unit :=
  if proof.proofType ≠ .consistency then .error (.invalidProof "expected consistency proof")
  else if proof.markerIndex = 0 then .error .emptyStream
  else
    let oldPositions := peakPositions (mmrSize proof.markerIndex)
    if proof.proofHashes.length < oldPositions.length then
      .error (.invalidProof "not enough proof hashes for old peaks")
    else
      let oldPeaks := proof.proofHashes.take oldPositions.length
      if bagPeaks hashing oldPeaks ≠ oldRoot then
        .error (.consistencyFailure proof.markerIndex proof.streamLength
          "old root does not match reconstructed peaks")
      else do
        let newPeaks ← gatherPeaks (survivingPeak oldPositions oldPeaks)
          "not enough proof hashes for new peaks" (peakPositions (mmrSize proof.streamLength))
          (proof.proofHashes.drop oldPositions.length)
        checkRoot proof.rootHash (bagPeaks hashing newPeaks)

end Hashing

end FrankenEngine.Mmr
