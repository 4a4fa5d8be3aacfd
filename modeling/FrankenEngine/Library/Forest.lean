import Mathlib.Data.List.GetD
import Mathlib.Data.Nat.Log
import Mathlib.Tactic.Ring

/-!
# Perfect trees in post-order and their forests

Leaves are numbered from the left, and a node of height `height` and index
`index` is the root over the leaves from `index * 2 ^ height` on. Writing each
node right after its subtrees gives every node a position that does not depend
on how many leaves follow. The peaks of a forest are the roots of its maximal
trees, one for each binary one of the number of leaves. Every node below a peak
is reached from the peak, and a combining function gives every node the value of
the leaves under it.
-/

set_option autoImplicit false

namespace FrankenEngine.Library

/-!
## Counting binary ones
-/

def countOnes (n : Nat) : Nat :=
  if n = 0 then 0 else n % 2 + countOnes (n / 2)

@[simp] theorem countOnes_zero : countOnes 0 = 0 := by
  rw [countOnes, if_pos rfl]

theorem countOnes_double (n : Nat) : countOnes (2 * n) = countOnes n := by
  cases n with
  | zero => rfl
  | succ n =>
    rw [countOnes, if_neg (by omega)]
    have low : 2 * (n + 1) % 2 = 0 := by omega
    have high : 2 * (n + 1) / 2 = n + 1 := by omega
    rw [low, high, Nat.zero_add]

theorem countOnes_double_succ (n : Nat) : countOnes (2 * n + 1) = countOnes n + 1 := by
  rw [countOnes, if_neg (by omega)]
  have low : (2 * n + 1) % 2 = 1 := by omega
  have high : (2 * n + 1) / 2 = n := by omega
  rw [low, high, Nat.add_comm]

@[simp] theorem countOnes_one : countOnes 1 = 1 := by
  have single := countOnes_double_succ 0
  simpa using single

theorem countOnes_le (n : Nat) : countOnes n ≤ n := by
  induction n using Nat.strongRecOn with
  | ind n ih =>
    rcases Nat.even_or_odd' n with ⟨half, rfl | rfl⟩
    · cases half with
      | zero => simp
      | succ half =>
        have smaller := ih (half + 1) (by omega)
        rw [countOnes_double]
        omega
    · have smaller := ih half (by omega)
      rw [countOnes_double_succ]
      omega

theorem countOnes_succ_le (n : Nat) : countOnes (n + 1) ≤ countOnes n + 1 := by
  induction n using Nat.strongRecOn with
  | ind n ih =>
    rcases Nat.even_or_odd' n with ⟨half, rfl | rfl⟩
    · rw [countOnes_double_succ, countOnes_double]
    · have carried := ih half (by omega)
      have next : 2 * half + 1 + 1 = 2 * (half + 1) := by omega
      rw [next, countOnes_double, countOnes_double_succ]
      omega

theorem countOnes_succ_of_odd {n : Nat} (odd : n % 2 = 1) : countOnes (n + 1) ≤ countOnes n := by
  have shape : n = 2 * (n / 2) + 1 := by omega
  have next : 2 * (n / 2) + 1 + 1 = 2 * (n / 2 + 1) := by omega
  rw [shape, next, countOnes_double, countOnes_double_succ]
  exact countOnes_succ_le _

theorem countOnes_mul_pow_add (high : Nat) {width low : Nat} (small : low < 2 ^ width) :
    countOnes (high * 2 ^ width + low) = countOnes high + countOnes low := by
  induction width generalizing low with
  | zero =>
    have none : low = 0 := by simpa using small
    simp [none]
  | succ width ih =>
    have halfSmall : low / 2 < 2 ^ width := by
      omega
    have shape : high * 2 ^ (width + 1) + low =
        2 * (high * 2 ^ width + low / 2) + low % 2 := by
      rw [Nat.pow_succ]
      have regroup : high * (2 ^ width * 2) = 2 * (high * 2 ^ width) := by ring
      omega
    have lowShape : low = 2 * (low / 2) + low % 2 := by omega
    rcases Nat.mod_two_eq_zero_or_one low with even | odd
    · rw [shape, even, Nat.add_zero, countOnes_double, ih halfSmall]
      rw [even, Nat.add_zero] at lowShape
      conv_rhs => rw [lowShape, countOnes_double]
    · rw [shape, odd, countOnes_double_succ, ih halfSmall]
      rw [odd] at lowShape
      conv_rhs => rw [lowShape, countOnes_double_succ]
      omega

theorem countOnes_mul_pow (high width : Nat) : countOnes (high * 2 ^ width) = countOnes high := by
  have shifted := countOnes_mul_pow_add high (Nat.two_pow_pos width)
  simpa using shifted

theorem countOnes_pow_sub_one (width : Nat) : countOnes (2 ^ width - 1) = width := by
  induction width with
  | zero => simp
  | succ width ih =>
    have positive := Nat.two_pow_pos width
    have shape : 2 ^ (width + 1) - 1 = 2 * (2 ^ width - 1) + 1 := by
      omega
    rw [shape, countOnes_double_succ, ih]

/-!
## Sizes and positions
-/

/-- The number of nodes over `leaves` leaves: one for each leaf and one for each
pair of equal trees that meets. -/
def forestSize (leaves : Nat) : Nat := 2 * leaves - countOnes leaves

theorem forestSize_add_countOnes (leaves : Nat) :
    forestSize leaves + countOnes leaves = 2 * leaves := by
  have bound := countOnes_le leaves
  unfold forestSize
  omega

theorem forestSize_lt_succ (leaves : Nat) : forestSize leaves < forestSize (leaves + 1) := by
  have before := forestSize_add_countOnes leaves
  have after := forestSize_add_countOnes (leaves + 1)
  have carried := countOnes_succ_le leaves
  omega

theorem forestSize_strictMono : StrictMono forestSize :=
  strictMono_nat_of_lt_succ forestSize_lt_succ

theorem forestSize_mul_pow_add (high : Nat) {width low : Nat} (small : low < 2 ^ width) :
    forestSize (high * 2 ^ width + low) = forestSize (high * 2 ^ width) + forestSize low := by
  have ones := countOnes_mul_pow_add high small
  have shifted := countOnes_mul_pow high width
  have whole := forestSize_add_countOnes (high * 2 ^ width + low)
  have left := forestSize_add_countOnes (high * 2 ^ width)
  have right := forestSize_add_countOnes low
  omega

/-- The position of a node: everything to its left, then the rest of its tree. -/
def nodePos (height index : Nat) : Nat := forestSize (index * 2 ^ height) + (2 ^ (height + 1) - 2)

theorem nodePos_add (height index : Nat) :
    nodePos height index + countOnes index + 2 = 2 * (index * 2 ^ height) + 2 * 2 ^ height := by
  have whole := forestSize_add_countOnes (index * 2 ^ height)
  have shifted := countOnes_mul_pow index height
  have positive := Nat.two_pow_pos height
  unfold nodePos
  omega

@[simp] theorem nodePos_zero_left (index : Nat) : nodePos 0 index = forestSize index := by
  simp [nodePos]

theorem nodePos_zero_right (height : Nat) : nodePos height 0 + 1 = 2 ^ (height + 1) - 1 := by
  have base := nodePos_add height 0
  simp only [countOnes_zero] at base
  omega

theorem nodePos_sibling (height half : Nat) :
    nodePos height (2 * half + 1) = nodePos height (2 * half) + (2 ^ (height + 1) - 1) := by
  have left := nodePos_add height (2 * half)
  have right := nodePos_add height (2 * half + 1)
  rw [countOnes_double] at left
  rw [countOnes_double_succ, Nat.add_mul, Nat.one_mul] at right
  have positive := Nat.two_pow_pos height
  omega

theorem nodePos_parent (height half : Nat) :
    nodePos (height + 1) half = nodePos height (2 * half + 1) + 1 := by
  have parent := nodePos_add (height + 1) half
  have right := nodePos_add height (2 * half + 1)
  rw [countOnes_double_succ, Nat.add_mul, Nat.one_mul] at right
  have regroup : half * 2 ^ (height + 1) = 2 * half * 2 ^ height := by ring
  omega

theorem nodePos_add_le_succ (height index : Nat) :
    nodePos height index + (2 ^ (height + 1) - 1) ≤ nodePos height (index + 1) := by
  have here := nodePos_add height index
  have next := nodePos_add height (index + 1)
  rw [Nat.add_mul, Nat.one_mul] at next
  have carried := countOnes_succ_le index
  have positive := Nat.two_pow_pos height
  omega

theorem nodePos_strictMono (height : Nat) : StrictMono (nodePos height) := by
  apply strictMono_nat_of_lt_succ
  intro index
  have step := nodePos_add_le_succ height index
  have positive := Nat.two_pow_pos height
  omega

/-- Behind a right child comes its parent, which pushes its next peer further on. -/
theorem nodePos_add_lt_succ_of_odd {height index : Nat} (odd : index % 2 = 1) :
    nodePos height index + (2 ^ (height + 1) - 1) < nodePos height (index + 1) := by
  have here := nodePos_add height index
  have next := nodePos_add height (index + 1)
  rw [Nat.add_mul, Nat.one_mul] at next
  have carried := countOnes_succ_of_odd odd
  have positive := Nat.two_pow_pos height
  omega

theorem nodePos_succ_of_even {height index : Nat} (even : index % 2 = 0) :
    nodePos height index + 1 = forestSize ((index + 1) * 2 ^ height) := by
  have here := nodePos_add height index
  have size := forestSize_add_countOnes ((index + 1) * 2 ^ height)
  have shape : index = 2 * (index / 2) := by omega
  have ones : countOnes (index + 1) = countOnes index + 1 := by
    rw [shape, countOnes_double_succ, countOnes_double]
  rw [countOnes_mul_pow, ones, Nat.add_mul, Nat.one_mul] at size
  rw [Nat.add_mul, Nat.one_mul]
  omega

theorem nodePos_lt_forestSize_iff (height index leaves : Nat) :
    nodePos height index < forestSize leaves ↔ (index + 1) * 2 ^ height ≤ leaves := by
  have here := nodePos_add height index
  constructor
  · intro inside
    by_contra missing
    have full := Nat.two_pow_pos height
    have lastLeaf : leaves ≤ index * 2 ^ height + (2 ^ height - 1) := by
      rw [Nat.add_mul, Nat.one_mul] at missing
      omega
    have mono := forestSize_strictMono.monotone lastLeaf
    have size := forestSize_add_countOnes (index * 2 ^ height + (2 ^ height - 1))
    have ones := countOnes_mul_pow_add index (show 2 ^ height - 1 < 2 ^ height by omega)
    omega
  · intro covered
    have mono := forestSize_strictMono.monotone covered
    have size := forestSize_add_countOnes ((index + 1) * 2 ^ height)
    rw [countOnes_mul_pow, Nat.add_mul, Nat.one_mul] at size
    rw [Nat.add_mul, Nat.one_mul] at mono
    have carried := countOnes_succ_le index
    omega

theorem nodePos_pow_add {height width low : Nat} (small : low < 2 ^ width) :
    nodePos height (2 ^ width + low) = nodePos height low + (2 ^ (width + height + 1) - 1) := by
  have ones := countOnes_mul_pow_add 1 small
  have single := countOnes_one
  have here := nodePos_add height low
  have shifted := nodePos_add height (2 ^ width + low)
  rw [Nat.one_mul] at ones
  have spread : (2 ^ width + low) * 2 ^ height = 2 ^ (width + height) + low * 2 ^ height := by ring
  have positive := Nat.two_pow_pos (width + height)
  omega

theorem exists_nodePos (pos : Nat) : ∃ height index, pos = nodePos height index := by
  induction pos using Nat.strongRecOn with
  | ind pos ih =>
    obtain ⟨width, low, high⟩ : ∃ width, 2 ^ width ≤ pos + 1 ∧ pos + 1 < 2 ^ (width + 1) :=
      ⟨Nat.log 2 (pos + 1), Nat.pow_log_le_self 2 (by omega), Nat.lt_pow_succ_log_self (by decide) _⟩
    by_cases full : pos + 1 = 2 ^ (width + 1) - 1
    · refine ⟨width, 0, ?_⟩
      have root := nodePos_zero_right width
      omega
    · cases width with
      | zero => omega
      | succ width =>
        -- the layout behind the perfect tree of `2 ^ width` leaves repeats the one before it
        obtain ⟨height, index, found⟩ := ih (pos + 1 - 2 ^ (width + 1)) (by omega)
        have single := countOnes_one
        have ones := countOnes_mul_pow 1 width
        rw [Nat.one_mul] at ones
        have size := forestSize_add_countOnes (2 ^ width)
        have covered : (index + 1) * 2 ^ height ≤ 2 ^ width :=
          (nodePos_lt_forestSize_iff height index (2 ^ width)).mp (by omega)
        have level : height ≤ width := by
          have power : 2 ^ height ≤ 2 ^ width :=
            le_trans (Nat.le_mul_of_pos_left _ (Nat.succ_pos index)) covered
          exact (Nat.pow_le_pow_iff_right (by decide)).mp power
        have split : 2 ^ width = 2 ^ (width - height) * 2 ^ height := by
          rw [← Nat.pow_add, Nat.sub_add_cancel level]
        have small : index < 2 ^ (width - height) := by
          rw [split] at covered
          exact Nat.lt_of_succ_le (Nat.le_of_mul_le_mul_right covered (Nat.two_pow_pos height))
        refine ⟨height, 2 ^ (width - height) + index, ?_⟩
        have total : width - height + height + 1 = width + 1 := by omega
        rw [nodePos_pow_add small, total]
        omega

/-!
## Peaks
-/

def peaksBelow (leaves : Nat) : Nat → List (Nat × Nat)
  | 0 => []
  | height + 1 =>
    if leaves / 2 ^ height % 2 = 1 then
      (height, leaves / 2 ^ height - 1) :: peaksBelow leaves height
    else peaksBelow leaves height

/-- The peaks from left to right, as pairs of height and index. -/
def peaks (leaves : Nat) : List (Nat × Nat) := peaksBelow leaves leaves

variable {height index leaves leaf : Nat}

theorem mem_peaksBelow {width : Nat} : (height, index) ∈ peaksBelow leaves width ↔
      height < width ∧ leaves / 2 ^ height = index + 1 ∧ index % 2 = 0 := by
  induction width with
  | zero => simp [peaksBelow]
  | succ width ih =>
    rw [peaksBelow]
    split
    next odd =>
      simp only [List.mem_cons, Prod.mk.injEq, ih]
      constructor
      · rintro (⟨rfl, rfl⟩ | ⟨below, top⟩)
        · generalize leaves / 2 ^ height = quotient at odd ⊢
          omega
        · exact ⟨by omega, top⟩
      · rintro ⟨below, top⟩
        rcases Nat.lt_succ_iff_lt_or_eq.mp below with lower | rfl
        · exact Or.inr ⟨lower, top⟩
        · exact Or.inl ⟨rfl, by omega⟩
    next even =>
      rw [ih]
      constructor
      · rintro ⟨below, top⟩
        exact ⟨by omega, top⟩
      · rintro ⟨below, top⟩
        rcases Nat.lt_succ_iff_lt_or_eq.mp below with lower | rfl
        · exact ⟨lower, top⟩
        · omega

theorem mem_peaks :
    (height, index) ∈ peaks leaves ↔ leaves / 2 ^ height = index + 1 ∧ index % 2 = 0 := by
  rw [peaks, mem_peaksBelow]
  constructor
  · intro member
    exact member.2
  · intro top
    refine ⟨?_, top⟩
    by_contra high
    have bound : leaves < 2 ^ height :=
      Nat.lt_of_lt_of_le Nat.lt_two_pow_self (Nat.pow_le_pow_right (by decide) (Nat.le_of_not_lt high))
    have none := Nat.div_eq_of_lt bound
    omega

theorem exists_mem_peaks_iff :
    (∃ index, (height, index) ∈ peaks leaves) ↔ leaves.testBit height = true := by
  rw [Nat.testBit_eq_decide_div_mod_eq, decide_eq_true_iff]
  constructor
  · rintro ⟨index, peak⟩
    have top := mem_peaks.mp peak
    omega
  · intro odd
    refine ⟨leaves / 2 ^ height - 1, mem_peaks.mpr ?_⟩
    generalize leaves / 2 ^ height = quotient at odd ⊢
    omega

theorem peaksBelow_descending (width : Nat) :
    (peaksBelow leaves width).Pairwise fun left right => right.1 < left.1 := by
  induction width with
  | zero => exact .nil
  | succ width ih =>
    rw [peaksBelow]
    split
    next => exact ih.cons fun node member => (mem_peaksBelow.mp member).1
    next => exact ih

theorem mem_peaks_of_last (even : index % 2 = 0) (inside : (index + 1) * 2 ^ height ≤ leaves)
    (last : leaves < (index + 2) * 2 ^ height) : (height, index) ∈ peaks leaves :=
  mem_peaks.mpr ⟨Nat.div_eq_of_lt_le inside last, even⟩

theorem inside_of_mem_peaks (peak : (height, index) ∈ peaks leaves) :
    (index + 1) * 2 ^ height ≤ leaves := by
  rw [← (mem_peaks.mp peak).1]
  exact Nat.div_mul_le_self _ _

theorem last_of_mem_peaks (peak : (height, index) ∈ peaks leaves) :
    leaves < (index + 2) * 2 ^ height := by
  have quotient := (mem_peaks.mp peak).1
  rw [← Nat.div_lt_iff_lt_mul (Nat.two_pow_pos height)]
  omega

def Covers (node : Nat × Nat) (leaf : Nat) : Prop :=
  node.2 * 2 ^ node.1 ≤ leaf ∧ leaf < (node.2 + 1) * 2 ^ node.1

private theorem div_pow_succ_mul (leaves height : Nat) :
    leaves / 2 ^ (height + 1) * 2 ^ (height + 1) = leaves / 2 ^ height / 2 * 2 * 2 ^ height := by
  rw [Nat.pow_succ, ← Nat.div_div_eq_div_mul, Nat.mul_assoc, Nat.mul_comm (2 ^ height) 2]

theorem exists_mem_peaksBelow_covers {width : Nat} (low : leaves / 2 ^ width * 2 ^ width ≤ leaf)
    (high : leaf < leaves) : ∃ node ∈ peaksBelow leaves width, Covers node leaf := by
  induction width with
  | zero =>
    omega
  | succ width ih =>
    rw [div_pow_succ_mul] at low
    rw [peaksBelow]
    split
    next odd =>
      have shape : leaves / 2 ^ width / 2 * 2 = leaves / 2 ^ width - 1 := by omega
      rw [shape] at low
      by_cases under : leaf < leaves / 2 ^ width * 2 ^ width
      · refine ⟨_, List.mem_cons_self, low, ?_⟩
        have restored : leaves / 2 ^ width - 1 + 1 = leaves / 2 ^ width := by omega
        simpa only [restored] using under
      · obtain ⟨node, member, covers⟩ := ih (Nat.le_of_not_lt under)
        exact ⟨node, List.mem_cons_of_mem _ member, covers⟩
    next even =>
      have shape : leaves / 2 ^ width / 2 * 2 = leaves / 2 ^ width := by omega
      rw [shape] at low
      exact ih low

theorem exists_mem_peaks_covers (high : leaf < leaves) :
    ∃ node ∈ peaks leaves, Covers node leaf := by
  apply exists_mem_peaksBelow_covers _ high
  rw [Nat.div_eq_of_lt Nat.lt_two_pow_self, Nat.zero_mul]
  exact Nat.zero_le _

/-- The leaves under a node. -/
def block {α : Type} (leaves : List α) (node : Nat × Nat) : List α :=
  (leaves.drop (node.2 * 2 ^ node.1)).take (2 ^ node.1)

theorem flatMap_block_peaksBelow {α : Type} (leaves : List α) (width : Nat) :
    (peaksBelow leaves.length width).flatMap (block leaves) =
      leaves.drop (leaves.length / 2 ^ width * 2 ^ width) := by
  induction width with
  | zero => simp [peaksBelow]
  | succ width ih =>
    rw [peaksBelow, div_pow_succ_mul]
    split
    next odd =>
      have start : leaves.length / 2 ^ width / 2 * 2 = leaves.length / 2 ^ width - 1 := by omega
      have stop : (leaves.length / 2 ^ width - 1) * 2 ^ width + 2 ^ width =
          leaves.length / 2 ^ width * 2 ^ width := by
        rw [← Nat.succ_mul]
        congr 1
        omega
      rw [List.flatMap_cons, ih, start, block, ← stop, ← List.drop_drop, List.take_append_drop]
    next even =>
      have start : leaves.length / 2 ^ width / 2 * 2 = leaves.length / 2 ^ width := by omega
      rw [ih, start]

theorem peak_unique {left right : Nat × Nat} (leftPeak : left ∈ peaks leaves)
    (rightPeak : right ∈ peaks leaves) (underLeft : Covers left leaf)
    (underRight : Covers right leaf) : left = right := by
  -- the lower of two peaks starts where all higher ones have ended
  have ordered : ∀ {high low : Nat × Nat}, high ∈ peaks leaves → low ∈ peaks leaves →
      Covers high leaf → Covers low leaf → high.1 ≤ low.1 := by
    intro high low highPeak lowPeak underHigh underLow
    by_contra above
    obtain ⟨distance, gap⟩ : ∃ distance, high.1 = low.1 + 1 + distance :=
      ⟨high.1 - (low.1 + 1), by omega⟩
    obtain ⟨highTop, -⟩ := mem_peaks.mp highPeak
    obtain ⟨lowTop, lowEven⟩ := mem_peaks.mp lowPeak
    have lowStart : leaves / 2 ^ (low.1 + 1) * 2 ^ (low.1 + 1) = low.2 * 2 ^ low.1 := by
      rw [div_pow_succ_mul, lowTop]
      have half : (low.2 + 1) / 2 * 2 = low.2 := by omega
      rw [half]
    have ended : (high.2 + 1) * 2 ^ high.1 ≤ low.2 * 2 ^ low.1 := by
      rw [← highTop, gap, Nat.pow_add _ (low.1 + 1) distance, ← Nat.div_div_eq_div_mul,
        Nat.mul_comm (2 ^ (low.1 + 1)), ← Nat.mul_assoc, ← lowStart]
      exact Nat.mul_le_mul_right _ (Nat.div_mul_le_self _ _)
    have after := Nat.le_trans ended underLow.1
    have before := underHigh.2
    omega
  have sameHeight : left.1 = right.1 :=
    Nat.le_antisymm (ordered leftPeak rightPeak underLeft underRight)
      (ordered rightPeak leftPeak underRight underLeft)
  obtain ⟨leftTop, -⟩ := mem_peaks.mp leftPeak
  obtain ⟨rightTop, -⟩ := mem_peaks.mp rightPeak
  rw [sameHeight] at leftTop
  exact Prod.ext sameHeight (by omega)

/-!
## Walking up
-/

/-- Induction from the peaks down: what holds at every peak and passes from a
parent to both children holds at every node of the forest. -/
theorem node_induction {motive : ∀ height index, (index + 1) * 2 ^ height ≤ leaves → Prop}
    (peak : ∀ height index inside, (height, index) ∈ peaks leaves → motive height index inside)
    (left : ∀ height half inside paired, motive (height + 1) half paired →
      motive height (2 * half) inside)
    (right : ∀ height half inside paired, motive (height + 1) half paired →
      motive height (2 * half + 1) inside) (height index : Nat)
    (inside : (index + 1) * 2 ^ height ≤ leaves) : motive height index inside := by
  obtain ⟨room, bound⟩ : ∃ room, leaves < 2 ^ (height + room) :=
    ⟨leaves, Nat.lt_of_lt_of_le Nat.lt_two_pow_self (Nat.pow_le_pow_right (by decide) (by omega))⟩
  induction room generalizing height index with
  | zero =>
    have one : 2 ^ height ≤ (index + 1) * 2 ^ height :=
      Nat.le_mul_of_pos_left _ (Nat.succ_pos index)
    rw [Nat.add_zero] at bound
    omega
  | succ room ih =>
    have parentBound : leaves < 2 ^ (height + 1 + room) := by
      rwa [Nat.add_right_comm, Nat.add_assoc]
    rcases Nat.even_or_odd' index with ⟨half, rfl | rfl⟩
    · by_cases paired : (half + 1) * 2 ^ (height + 1) ≤ leaves
      · exact left height half inside paired (ih (height + 1) half paired parentBound)
      · apply peak
        apply mem_peaks_of_last (by omega) inside
        have regroup : (2 * half + 2) * 2 ^ height = (half + 1) * 2 ^ (height + 1) := by ring
        omega
    · have paired : (half + 1) * 2 ^ (height + 1) ≤ leaves := by
        have regroup : (2 * half + 1 + 1) * 2 ^ height = (half + 1) * 2 ^ (height + 1) := by ring
        omega
      exact right height half inside paired (ih (height + 1) half paired parentBound)

section Values

variable {α : Type} (combine : α → α → α)

def subtree (leaf : Nat → α) : Nat → Nat → α
  | 0, index => leaf index
  | height + 1, index =>
    combine (subtree leaf height (2 * index)) (subtree leaf height (2 * index + 1))

private theorem child_range (height index : Nat) :
    2 * index * 2 ^ height = index * 2 ^ (height + 1) ∧
      (2 * index + 1 + 1) * 2 ^ height = (index + 1) * 2 ^ (height + 1) ∧
      (2 * index + 1) * 2 ^ height = index * 2 ^ (height + 1) + 2 ^ height ∧
      (index + 1) * 2 ^ (height + 1) = index * 2 ^ (height + 1) + 2 * 2 ^ height := by
  refine ⟨?_, ?_, ?_, ?_⟩ <;> ring

variable {height index : Nat}

theorem covers_child {leaf : Nat} (covers : Covers (height + 1, index) leaf) :
    Covers (height, 2 * index) leaf ∨ Covers (height, 2 * index + 1) leaf := by
  obtain ⟨first, last, middle, whole⟩ := child_range height index
  simp only [Covers] at covers ⊢
  omega

theorem covers_parent {leaf : Nat}
    (covers : Covers (height, 2 * index) leaf ∨ Covers (height, 2 * index + 1) leaf) :
    Covers (height + 1, index) leaf := by
  obtain ⟨first, last, middle, whole⟩ := child_range height index
  simp only [Covers] at covers ⊢
  omega

theorem subtree_congr {leaf leaf' : Nat → α}
    (agree : ∀ i, Covers (height, index) i → leaf i = leaf' i) :
    subtree combine leaf height index = subtree combine leaf' height index := by
  induction height generalizing index with
  | zero => exact agree index (by simp [Covers])
  | succ height ih =>
    rw [subtree, subtree, ih (fun i under => agree i (covers_parent (.inl under))),
      ih (fun i under => agree i (covers_parent (.inr under)))]

/-- The root of the perfect tree of a height over a block of leaves. -/
inductive PerfectRoot : Nat → List α → α → Prop
  | leaf (value : α) : PerfectRoot 0 [value] value
  | node {height : Nat} {left right : List α} {leftRoot rightRoot : α} :
      PerfectRoot height left leftRoot → PerfectRoot height right rightRoot →
      PerfectRoot (height + 1) (left ++ right) (combine leftRoot rightRoot)

theorem perfectRoot_subtree {leaves : List α} (default : α)
    (inside : (index + 1) * 2 ^ height ≤ leaves.length) :
    PerfectRoot combine height (block leaves (height, index))
      (subtree combine (leaves.getD · default) height index) := by
  induction height generalizing index with
  | zero =>
    have under : index < leaves.length := by omega
    have single : block leaves (0, index) = [leaves.getD index default] := by
      rw [block, Nat.pow_zero, Nat.mul_one, List.drop_eq_getElem_cons under,
        List.getD_eq_getElem _ _ under]
      rfl
    rw [single]
    exact .leaf _
  | succ height ih =>
    obtain ⟨first, last, middle, whole⟩ := child_range height index
    have halves : block leaves (height + 1, index) =
        block leaves (height, 2 * index) ++ block leaves (height, 2 * index + 1) := by
      simp only [block, first, middle, ← List.drop_drop]
      rw [Nat.pow_succ, Nat.mul_two, List.take_add]
    rw [halves]
    exact .node (ih (by omega)) (ih (by omega))

/-- Without collisions a node's value determines the leaves under it. -/
theorem subtree_injective {combine : α → α → α} (injective : Function.Injective2 combine)
    {leaf leaf' : Nat → α}
    (same : subtree combine leaf height index = subtree combine leaf' height index) {i : Nat}
    (covers : Covers (height, index) i) : leaf i = leaf' i := by
  induction height generalizing index with
  | zero =>
    have only : i = index := by
      simp only [Covers, Nat.pow_zero, Nat.mul_one] at covers
      omega
    rw [only]
    exact same
  | succ height ih =>
    obtain ⟨leftSame, rightSame⟩ := injective same
    rcases covers_child covers with left | right
    · exact ih leftSame left
    · exact ih rightSame right

end Values

end FrankenEngine.Library
