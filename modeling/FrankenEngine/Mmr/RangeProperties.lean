import FrankenEngine.Library.Result
import FrankenEngine.Mmr.Range

/-!
# The range as a forest of leaf hashes

Appending keeps every node at its post-order position with the hash of the
leaves under it. The walk of both sides follows the nodes of the forest, and
bagging is injective for a fixed number of peaks.
-/

set_option autoImplicit false

namespace FrankenEngine.Mmr

open Library MerkleMountainRange List

variable {height index : Nat}

theorem nodePos_inj {height' index' : Nat} (same : nodePos height index = nodePos height' index') :
    height = height' ∧ index = index' := by
  have heights : height = height' := by
    rw [← posHeight_nodePos height index, same, posHeight_nodePos]
  subst heights
  exact ⟨rfl, (nodePos_strictMono height).injective same⟩

theorem hasLeftSibling_nodePos :
    hasLeftSibling (nodePos height index) height = true ↔ index % 2 = 1 := by
  rw [hasLeftSibling_iff, posHeight_eq_iff, siblingOffset]
  constructor
  · rintro ⟨reach, other, found⟩
    have apart : nodePos height index = nodePos height other + (2 ^ (height + 1) - 1) := by omega
    have siblings := nodePos_eq_add_iff.mp apart
    omega
  · intro odd
    have apart : nodePos height index = nodePos height (index - 1) + (2 ^ (height + 1) - 1) :=
      nodePos_eq_add_iff.mpr (by omega)
    exact ⟨by omega, index - 1, by omega⟩

theorem hasRightSibling_nodePos {leaves : Nat} :
    hasRightSibling (forestSize leaves) (nodePos height index) height = true ↔
      index % 2 = 0 ∧ (index + 2) * 2 ^ height ≤ leaves := by
  rw [hasRightSibling_iff, posHeight_eq_iff, siblingOffset]
  constructor
  · rintro ⟨inside, other, found⟩
    obtain ⟨rfl, even⟩ := nodePos_eq_add_iff.mp found.symm
    rw [found, nodePos_lt_forestSize_iff] at inside
    exact ⟨even, inside⟩
  · rintro ⟨even, inside⟩
    have apart : nodePos height (index + 1) = nodePos height index + (2 ^ (height + 1) - 1) :=
      nodePos_eq_add_iff.mpr ⟨rfl, even⟩
    rw [← apart, nodePos_lt_forestSize_iff]
    exact ⟨inside, index + 1, rfl⟩

section Climb

variable {State Error : Type} {leaves : Nat} {visit : State → Sibling → Except Error State}

variable {height : Nat}

theorem climb_peak {index : Nat} (peak : (height, index) ∈ peaks leaves) (state : State) :
    climb (forestSize leaves) visit (nodePos height index) height state =
      .ok (nodePos height index, state) := by
  have even := (mem_peaks.mp peak).2
  have last := last_of_mem_peaks peak
  have noRight : hasRightSibling (forestSize leaves) (nodePos height index) height = false := by
    rw [← Bool.not_eq_true, hasRightSibling_nodePos]
    omega
  have noLeft : hasLeftSibling (nodePos height index) height = false := by
    rw [← Bool.not_eq_true, hasLeftSibling_nodePos]
    omega
  have none : siblingOf (forestSize leaves) (nodePos height index) height = none := by
    rw [siblingOf, noRight, noLeft]
    rfl
  rw [climb]
  split
  next other => cases none.symm.trans other
  next => rfl

theorem climb_left {half : Nat} (paired : (half + 1) * 2 ^ (height + 1) ≤ leaves) (state : State) :
    climb (forestSize leaves) visit (nodePos height (2 * half)) height state =
      (visit state (.right (nodePos height (2 * half + 1))) >>=
        climb (forestSize leaves) visit (nodePos (height + 1) half) (height + 1)) := by
  have right : hasRightSibling (forestSize leaves) (nodePos height (2 * half)) height = true := by
    rw [hasRightSibling_nodePos]
    refine ⟨by omega, ?_⟩
    have regroup : (2 * half + 2) * 2 ^ height = (half + 1) * 2 ^ (height + 1) := by ring
    omega
  have some : siblingOf (forestSize leaves) (nodePos height (2 * half)) height =
      some (.right (nodePos height (2 * half + 1))) := by
    rw [siblingOf, right, if_pos rfl, siblingOffset, ← nodePos_sibling]
  rw [climb]
  split
  next other =>
    cases some.symm.trans other
    rw [Sibling.parentPos, ← nodePos_parent]
  next other => cases some.symm.trans other

theorem climb_right {half : Nat} (state : State) :
    climb (forestSize leaves) visit (nodePos height (2 * half + 1)) height state =
      (visit state (.left (nodePos height (2 * half))) >>=
        climb (forestSize leaves) visit (nodePos (height + 1) half) (height + 1)) := by
  have noRight :
      hasRightSibling (forestSize leaves) (nodePos height (2 * half + 1)) height = false := by
    rw [← Bool.not_eq_true, hasRightSibling_nodePos]
    omega
  have left : hasLeftSibling (nodePos height (2 * half + 1)) height = true := by
    rw [hasLeftSibling_nodePos]
    omega
  have some : siblingOf (forestSize leaves) (nodePos height (2 * half + 1)) height =
      some (.left (nodePos height (2 * half))) := by
    rw [siblingOf, noRight, left, if_neg Bool.false_ne_true, if_pos rfl, siblingOffset,
      nodePos_sibling, Nat.add_sub_cancel]
  rw [climb]
  split
  next other =>
    cases some.symm.trans other
    rw [Sibling.parentPos, ← nodePos_parent]
  next other => cases some.symm.trans other

end Climb

section Range

variable {Hash : Type} (hashing : NodeHashing Hash)

def leafAt (leaves : List Hash) (index : Nat) : Hash := leaves.getD index hashing.zero

def nodeHash (leaves : List Hash) (height index : Nat) : Hash :=
  subtree hashing.hashPair (leafAt hashing leaves) height index

/-- The nodes so far are the hashes of a post-order layout of `leaves`. -/
def LaidOut (leaves nodes : List Hash) : Prop :=
  ∀ height index, nodePos height index < nodes.length →
    nodes.getD (nodePos height index) hashing.zero = nodeHash hashing leaves height index

structure Represents (mmr : MerkleMountainRange Hash) (leaves : List Hash) : Prop where
  numLeaves : mmr.numLeaves = leaves.length
  size : mmr.size = forestSize leaves.length
  laidOut : LaidOut hashing leaves mmr.nodes

variable {hashing} {height index : Nat} {mmr : MerkleMountainRange Hash}

theorem LaidOut.push {leaves nodes : List Hash} (laid : LaidOut hashing leaves nodes)
    (next : nodes.length = nodePos height index) :
    LaidOut hashing leaves (nodes ++ [nodeHash hashing leaves height index]) := by
  intro height' index' inside
  rw [length_append, length_singleton] at inside
  rcases Nat.lt_succ_iff_lt_or_eq.mp inside with before | last
  · rw [getD_append _ _ _ _ before]
    exact laid height' index' before
  · obtain ⟨rfl, rfl⟩ := nodePos_inj (last.trans next)
    rw [getD_append_right _ _ _ _ (Nat.le_of_eq last.symm), last, Nat.sub_self]
    rfl

theorem mergeSiblings_laidOut {leaves nodes : List Hash} {currentPos : Nat}
    (current : currentPos = nodePos height index) (length : nodes.length = currentPos + 1)
    (laid : LaidOut hashing leaves nodes) : (mergeSiblings hashing nodes currentPos height).length =
        forestSize ((index + 1) * 2 ^ height) ∧
      LaidOut hashing leaves (mergeSiblings hashing nodes currentPos height) := by
  induction nodes, currentPos, height using mergeSiblings.induct hashing generalizing index with
  | case1 nodes currentPos height merged ih =>
    subst current
    have odd := hasLeftSibling_nodePos.mp merged
    obtain ⟨half, rfl⟩ : ∃ half, index = 2 * half + 1 := ⟨index / 2, by omega⟩
    have next : nodes.length = nodePos (height + 1) half := by
      rw [length, nodePos_parent]
    have parentHash : hashing.hashPair
        (nodes.getD (nodePos height (2 * half + 1) - siblingOffset height) hashing.zero)
        (nodes.getD (nodePos height (2 * half + 1)) hashing.zero) =
        nodeHash hashing leaves (height + 1) half := by
      have left : nodePos height (2 * half + 1) - siblingOffset height =
          nodePos height (2 * half) := by
        rw [nodePos_sibling, siblingOffset, Nat.add_sub_cancel]
      have before : nodePos height (2 * half) < nodes.length := by
        omega
      rw [left, laid _ _ before, laid _ _ (by omega)]
      rfl
    have regroup : (2 * half + 1 + 1) * 2 ^ height = (half + 1) * 2 ^ (height + 1) := by ring
    rw [mergeSiblings, if_pos merged, regroup]
    apply ih next
    · rw [length_append, length_singleton]
    · rw [parentHash]
      exact laid.push next
  | case2 nodes currentPos height stopped =>
    subst current
    have even : index % 2 = 0 := by
      rw [hasLeftSibling_nodePos] at stopped
      omega
    rw [mergeSiblings, if_neg stopped, length]
    exact ⟨nodePos_succ_of_even even, laid⟩

variable {leaves : List Hash}

theorem nodeHash_append (extra : List Hash) (inside : (index + 1) * 2 ^ height ≤ leaves.length) :
    nodeHash hashing (leaves ++ extra) height index = nodeHash hashing leaves height index := by
  apply subtree_congr
  intro leaf covers
  exact getD_append _ _ _ _ (Nat.lt_of_lt_of_le covers.2 inside)

theorem Represents.new (epochId : Nat) : Represents hashing (new epochId) ([] : List Hash) where
  numLeaves := rfl
  size := by
    rw [length_nil, forestSize, countOnes_zero]
    rfl
  laidOut := by
    intro height index inside
    cases inside

theorem Represents.append (represents : Represents hashing mmr leaves) (leaf : Hash) :
    Represents hashing (mmr.append hashing leaf) (leaves ++ [leaf]) := by
  have size : mmr.nodes.length = nodePos 0 leaves.length := by
    rw [nodePos_zero_left]
    exact represents.size
  have kept : LaidOut hashing (leaves ++ [leaf]) mmr.nodes := by
    intro height index inside
    rw [represents.laidOut height index inside, nodeHash_append]
    rw [← nodePos_lt_forestSize_iff, ← represents.size]
    exact inside
  have added : nodeHash hashing (leaves ++ [leaf]) 0 leaves.length = leaf := by
    simp [nodeHash, subtree, leafAt]
  have pushed := kept.push size
  rw [added] at pushed
  obtain ⟨length, laid⟩ := mergeSiblings_laidOut size (by simp) pushed
  constructor
  · simp [MerkleMountainRange.append, represents.numLeaves]
  · rw [length_append, length_singleton]
    rw [Nat.pow_zero, Nat.mul_one] at length
    exact length
  · exact laid

variable (hashing) in
theorem represents_ofLeaves (epochId : Nat) (leaves : List Hash) :
    Represents hashing (ofLeaves hashing epochId leaves) leaves := by
  induction leaves using reverseRecOn with
  | nil => exact Represents.new epochId
  | append_singleton leaves leaf ih =>
    rw [ofLeaves, foldl_append]
    exact ih.append leaf

variable (represents : Represents hashing mmr leaves)

include represents

@[simp] theorem Represents.nodeAt_eq (inside : (index + 1) * 2 ^ height ≤ leaves.length) :
    mmr.nodeAt hashing (nodePos height index) = nodeHash hashing leaves height index := by
  apply represents.laidOut
  rw [← nodePos_lt_forestSize_iff, ← represents.size] at inside
  exact inside

theorem Represents.peakPositions_eq : peakPositions mmr.size =
      (Library.peaks leaves.length).map fun node => nodePos node.1 node.2 := by
  rw [represents.size, ← mmrSize_eq, peakPositions_mmrSize]

theorem Represents.map_nodeAt {nodes : List (Nat × Nat)}
    (inside : ∀ node ∈ nodes, (node.2 + 1) * 2 ^ node.1 ≤ leaves.length) :
    (nodes.map fun node => nodePos node.1 node.2).map (mmr.nodeAt hashing) =
      nodes.map fun node => nodeHash hashing leaves node.1 node.2 := by
  rw [map_map]
  apply map_congr_left
  intro node member
  exact represents.nodeAt_eq (inside node member)

omit represents

variable (hashing) in
def peakHashes (leaves : List Hash) : List Hash :=
  (Library.peaks leaves.length).map fun node => nodeHash hashing leaves node.1 node.2

variable (represents : Represents hashing mmr leaves)

include represents

theorem Represents.peaks_eq : mmr.peaks hashing = peakHashes hashing leaves := by
  rw [MerkleMountainRange.peaks, represents.peakPositions_eq]
  apply represents.map_nodeAt
  intro node member
  exact inside_of_mem_peaks member

theorem Represents.rootHash_eq (nonempty : leaves ≠ []) :
    mmr.rootHash hashing = .ok (bagPeaks hashing (peakHashes hashing leaves)) := by
  have positive : mmr.numLeaves ≠ 0 := by
    rw [represents.numLeaves]
    exact length_eq_zero_iff.not.mpr nonempty
  rw [rootHash, if_neg positive, represents.peaks_eq]

theorem Represents.nonempty_of_rootHash {root : Hash} (rooted : mmr.rootHash hashing = .ok root) :
    leaves ≠ [] := by
  rintro rfl
  have none : mmr.numLeaves = 0 := represents.numLeaves
  rw [rootHash, if_pos none] at rooted
  cases rooted

omit represents

theorem ofLeaves_structure (hashing : NodeHashing Hash) (epochId : Nat) (leaves : List Hash) :
    let mmr := ofLeaves hashing epochId leaves
    let heights := (peakPositions (mmrSize leaves.length)).map posHeight
    mmr.nodes.length = mmrSize leaves.length ∧
      (∀ (k : Nat) (inside : k < leaves.length), mmr.nodes[leafToPos k]? = some leaves[k]) ∧
      heights.Pairwise (· > ·) ∧
      (∀ height, height ∈ heights ↔ leaves.length.testBit height = true) ∧
      ∃ blocks : List (List Hash), blocks.flatten = leaves ∧
        Forall₂ (fun (height, block) peak => PerfectRoot hashing.hashPair height block peak)
          (heights.zip blocks) (mmr.peaks hashing) := by
  have represents := represents_ofLeaves hashing epochId leaves
  have heights : (peakPositions (mmrSize leaves.length)).map posHeight =
      (Library.peaks leaves.length).map Prod.fst := by
    rw [peakPositions_mmrSize, map_map]
    exact map_congr_left fun node _ => posHeight_nodePos node.1 node.2
  have size := represents.size.trans (mmrSize_eq _).symm
  rw [heights]
  refine ⟨size, ?_, ?_, ?_, (Library.peaks leaves.length).map (block leaves), ?_, ?_⟩
  · intro k inside
    have under : (k + 1) * 2 ^ 0 ≤ leaves.length := by omega
    have stored := represents.nodeAt_eq under
    have within : nodePos 0 k < (ofLeaves hashing epochId leaves).nodes.length := by
      rw [← nodePos_lt_forestSize_iff, ← represents.size] at under
      exact under
    rw [leafToPos_eq, getElem?_eq_getElem within, ← getD_eq_getElem _ hashing.zero within]
    exact congrArg some (stored.trans (getD_eq_getElem _ _ inside))
  · exact (peaksBelow_descending _).map _ fun _ _ lower => lower
  · intro height
    rw [← exists_mem_peaks_iff]
    simp
  · have whole := flatMap_block_peaksBelow leaves leaves.length
    rw [Nat.div_eq_of_lt Nat.lt_two_pow_self, Nat.zero_mul, drop_zero] at whole
    exact whole
  · rw [represents.peaks_eq, peakHashes, zip_map', forall₂_map_left_iff, forall₂_map_right_iff,
      forall₂_same]
    intro node member
    exact perfectRoot_subtree hashing.hashPair hashing.zero (inside_of_mem_peaks member)

@[simp] theorem bagPeaks_cons_cons (peak next : Hash) (rest : List Hash) :
    bagPeaks hashing (peak :: next :: rest) =
      hashing.hashPair peak (bagPeaks hashing (next :: rest)) := by
  cases rest with
  | nil => rfl
  | cons after rest =>
    simp only [bagPeaks, dropLast_cons_cons, foldl_reverse, foldr_cons]
    rfl

theorem bagPeaks_injective (injective : Function.Injective2 hashing.hashPair)
    {left right : List Hash} (length : left.length = right.length)
    (same : bagPeaks hashing left = bagPeaks hashing right) : left = right := by
  induction left generalizing right with
  | nil => exact (length_eq_zero_iff.mp length.symm).symm
  | cons peak rest ih =>
    cases right with
    | nil => cases length
    | cons peak' rest' =>
      have lengths := Nat.succ.inj length
      cases rest with
      | nil =>
        obtain rfl := length_eq_zero_iff.mp lengths.symm
        exact congrArg (· :: []) same
      | cons next rest =>
        cases rest' with
        | nil => cases lengths
        | cons next' rest' =>
          rw [bagPeaks_cons_cons, bagPeaks_cons_cons] at same
          obtain ⟨heads, tails⟩ := injective same
          rw [heads, ih lengths tails]

end Range

end FrankenEngine.Mmr
