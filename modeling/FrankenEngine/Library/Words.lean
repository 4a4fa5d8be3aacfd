import Mathlib.Algebra.Ring.Nat
import Mathlib.Order.Lattice

/-!
# Machine words

The order of 64-bit words, and the arithmetic that stops at the ends of their
range instead of wrapping.
-/

set_option autoImplicit false

namespace FrankenEngine.Library

instance wordOrder : LinearOrder UInt64 where
  le_refl := UInt64.le_refl
  le_trans _ _ _ := UInt64.le_trans
  le_antisymm _ _ := UInt64.le_antisymm
  le_total := UInt64.le_total
  lt_iff_le_not_ge left right := by
    rw [UInt64.not_le]
    exact ⟨fun less => ⟨UInt64.le_of_lt less, less⟩, And.right⟩
  toDecidableLE := inferInstance
  toDecidableEq := inferInstance
  toDecidableLT := inferInstance

def maxWord : UInt64 := 0xFFFFFFFFFFFFFFFF

def saturatingAdd (left right : UInt64) : UInt64 :=
  if left.toNat + right.toNat < 2 ^ 64 then left + right else maxWord

def saturatingSub (left right : UInt64) : UInt64 :=
  if right ≤ left then left - right else 0

/-- The sum of half words, which also stops at the end of their range. -/
def saturatingAdd32 (left right : UInt32) : UInt32 :=
  if left.toNat + right.toNat < 2 ^ 32 then left + right else 0xFFFFFFFF

theorem toNat_maxWord : maxWord.toNat = 2 ^ 64 - 1 := rfl

theorem toNat_saturatingAdd (left right : UInt64) :
    (saturatingAdd left right).toNat = min (left.toNat + right.toNat) (2 ^ 64 - 1) := by
  unfold saturatingAdd
  split
  next room => rw [UInt64.toNat_add, Nat.mod_eq_of_lt room]; omega
  next full => rw [toNat_maxWord]; omega

theorem toNat_saturatingSub (left right : UInt64) :
    (saturatingSub left right).toNat = left.toNat - right.toNat := by
  unfold saturatingSub
  split
  next below => exact UInt64.toNat_sub_of_le _ _ below
  next above =>
    have less : left.toNat < right.toNat := UInt64.lt_iff_toNat_lt.mp (UInt64.not_le.mp above)
    rw [UInt64.toNat_zero]
    omega

end FrankenEngine.Library
