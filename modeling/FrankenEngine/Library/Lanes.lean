import FrankenEngine.Library.Bytes
import Mathlib.Algebra.Order.Floor.Div
import Mathlib.Tactic.IntervalCases

/-!
# Words as eight lanes

A word is read as eight bytes, the lowest first. Bitwise operations work lane by
lane; a sum carries at most one into the next lane, and a difference borrows at
most one. A mask marks a lane by its highest bit.
-/

set_option autoImplicit false

namespace FrankenEngine.Library

open BitVec

def lane (word : UInt64) (index : Nat) : UInt8 := ⟨word.toBitVec.extractLsb' (8 * index) 8⟩

def marked (mask : UInt64) (index : Nat) : Bool := mask.toBitVec.getLsbD (8 * index + 7)

theorem toBitVec_lane (word : UInt64) (index : Nat) :
    (lane word index).toBitVec = word.toBitVec.extractLsb' (8 * index) 8 := rfl

theorem toNat_lane (word : UInt64) (index : Nat) :
    (lane word index).toNat = word.toNat / 2 ^ (8 * index) % 2 ^ 8 := by
  rw [← UInt8.toNat_toBitVec, toBitVec_lane, extractLsb'_toNat, Nat.shiftRight_eq_div_pow,
    UInt64.toNat_toBitVec]

theorem marked_eq (mask : UInt64) (index : Nat) :
    marked mask index = (lane mask index).toBitVec.getLsbD 7 := by
  rw [toBitVec_lane, getLsbD_extractLsb', marked]
  rfl

variable (left right : UInt64) (index : Nat)

@[simp] theorem lane_and :
    lane (left &&& right) index = lane left index &&& lane right index :=
  UInt8.toBitVec_inj.mp extractLsb'_and

@[simp] theorem lane_xor :
    lane (left ^^^ right) index = lane left index ^^^ lane right index :=
  UInt8.toBitVec_inj.mp extractLsb'_xor

@[simp] theorem marked_and :
    marked (left &&& right) index = (marked left index && marked right index) :=
  getLsbD_and

@[simp] theorem marked_or :
    marked (left ||| right) index = (marked left index || marked right index) :=
  getLsbD_or

variable {index : Nat}

theorem marked_not (inside : index < 8) (mask : UInt64) :
    marked (~~~mask) index = !marked mask index := by
  have below : 8 * index + 7 < 64 := by omega
  rw [marked, UInt64.toBitVec_not, getLsbD_not, decide_eq_true below, Bool.true_and, marked]

theorem div_mod_of_wrapped (inside : index < 8) (value : Nat) :
    value % 2 ^ 64 / 2 ^ (8 * index) % 2 ^ 8 = value / 2 ^ (8 * index) % 2 ^ 8 := by
  have split : 2 ^ 64 = 2 ^ (8 * index) * 2 ^ (64 - 8 * index) := by
    rw [← Nat.pow_add]
    congr 1
    omega
  have divides : 2 ^ 8 ∣ 2 ^ (64 - 8 * index) := Nat.pow_dvd_pow 2 (by omega)
  rw [split, Nat.mod_mul_right_div_self, Nat.mod_mod_of_dvd _ divides]

theorem lane_add (inside : index < 8) (left right : UInt64) :
    lane (left + right) index = lane left index + lane right index +
      if 2 ^ (8 * index) ≤ left.toNat % 2 ^ (8 * index) + right.toNat % 2 ^ (8 * index)
        then 1 else 0 := by
  apply UInt8.toNat_inj.mp
  rw [toNat_lane, UInt64.toNat_add, div_mod_of_wrapped inside, Nat.add_div (Nat.two_pow_pos _),
    UInt8.toNat_add, UInt8.toNat_add, toNat_lane, toNat_lane]
  split <;> simp [Nat.add_mod]

theorem exists_lane_sub (inside : index < 8) (left right : UInt64) :
    ∃ borrow : Bool, lane (left - right) index =
      lane left index - lane right index - if borrow then 1 else 0 := by
  have whole := lane_add inside (left - right) right
  rw [UInt64.sub_add_cancel] at whole
  refine ⟨decide (2 ^ (8 * index) ≤
    (left - right).toNat % 2 ^ (8 * index) + right.toNat % 2 ^ (8 * index)), ?_⟩
  simp only [decide_eq_true_eq]
  rw [whole, UInt8.add_assoc, UInt8.add_comm (lane right index), ← UInt8.add_assoc,
    UInt8.add_sub_cancel, UInt8.add_sub_cancel]

/-- The number that bytes stand for, the lowest first. -/
def leValue : Bytes → Nat
  | [] => 0
  | byte :: rest => byte.toNat + 256 * leValue rest

theorem leValue_digit (bytes : Bytes) (index : Nat) :
    leValue bytes / 2 ^ (8 * index) % 2 ^ 8 = (bytes.getD index 0).toNat := by
  induction index generalizing bytes with
  | zero =>
    cases bytes with
    | nil => rfl
    | cons byte rest =>
      have small := byte.toNat_lt
      simp only [leValue, List.getD_cons_zero]
      omega
  | succ index ih =>
    cases bytes with
    | nil => simp [leValue]
    | cons byte rest =>
      have small := byte.toNat_lt
      have rest' : leValue (byte :: rest) / 2 ^ 8 = leValue rest := by
        simp only [leValue]
        omega
      rw [Nat.mul_succ, Nat.add_comm, Nat.pow_add, ← Nat.div_div_eq_div_mul, rest', ih,
        List.getD_cons_succ]

def fromLeBytes (bytes : Bytes) : UInt64 := .ofNat (leValue bytes)

theorem lane_fromLeBytes (inside : index < 8) (bytes : Bytes) :
    lane (fromLeBytes bytes) index = bytes.getD index 0 := by
  apply UInt8.toNat_inj.mp
  rw [toNat_lane, fromLeBytes, UInt64.toNat_ofNat', div_mod_of_wrapped inside, leValue_digit]

end FrankenEngine.Library
