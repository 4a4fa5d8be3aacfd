import Mathlib.Data.String.Basic
import Mathlib.Data.UInt
import Mathlib.Tactic.Ring

/-!
# Byte strings

Big-endian words of a fixed width, windows of a byte string, and the relation
saying that a block of bytes stands between two offsets of a longer string.
-/

set_option autoImplicit false

namespace FrankenEngine.Library

open List

abbrev Bytes := List UInt8

/-- The `width` low-order bytes of `value`, most significant byte first. -/
def beBytes : Nat → Nat → Bytes
  | 0, _ => []
  | width + 1, value => UInt8.ofNat (value / 256 ^ width % 256) :: beBytes width value

/-- The number written by a byte string, most significant byte first. -/
def ofBeBytes (bytes : Bytes) : Nat :=
  bytes.foldl (fun value byte => value * 256 + byte.toNat) 0

def leBytes (width value : Nat) : Bytes := (beBytes width value).reverse

@[simp] theorem length_beBytes (width value : Nat) : (beBytes width value).length = width := by
  induction width with
  | zero => rfl
  | succ width ih => simp [beBytes, ih]

private theorem foldl_be (bytes : Bytes) (value : Nat) :
    bytes.foldl (fun value byte => value * 256 + byte.toNat) value =
      value * 256 ^ bytes.length + ofBeBytes bytes := by
  induction bytes generalizing value with
  | nil => simp [ofBeBytes]
  | cons byte rest ih =>
    simp only [ofBeBytes, foldl_cons, length_cons]
    rw [ih, ih (0 * 256 + byte.toNat)]
    ring

theorem ofBeBytes_cons (byte : UInt8) (rest : Bytes) :
    ofBeBytes (byte :: rest) = byte.toNat * 256 ^ rest.length + ofBeBytes rest := by
  have shifted := foldl_be rest (0 * 256 + byte.toNat)
  simpa [ofBeBytes] using shifted

theorem ofBeBytes_lt (bytes : Bytes) : ofBeBytes bytes < 256 ^ bytes.length := by
  induction bytes with
  | nil => simp [ofBeBytes]
  | cons byte rest ih =>
    rw [ofBeBytes_cons, length_cons, Nat.pow_succ]
    have digit : byte.toNat + 1 ≤ 256 := byte.toNat_lt
    calc byte.toNat * 256 ^ rest.length + ofBeBytes rest
        < byte.toNat * 256 ^ rest.length + 256 ^ rest.length := by omega
      _ = (byte.toNat + 1) * 256 ^ rest.length := by ring
      _ ≤ 256 * 256 ^ rest.length := Nat.mul_le_mul_right _ digit
      _ = 256 ^ rest.length * 256 := by ring

theorem ofBeBytes_beBytes (width value : Nat) :
    ofBeBytes (beBytes width value) = value % 256 ^ width := by
  induction width with
  | zero => simp [beBytes, ofBeBytes, Nat.mod_one]
  | succ width ih =>
    rw [beBytes, ofBeBytes_cons, ih, length_beBytes, Nat.mod_pow_succ]
    have stored : (UInt8.ofNat (value / 256 ^ width % 256)).toNat =
        value / 256 ^ width % 256 := by
      simp
    rw [stored]
    ring

theorem ofBeBytes_beBytes_of_lt {width value : Nat} (fits : value < 256 ^ width) :
    ofBeBytes (beBytes width value) = value := by
  rw [ofBeBytes_beBytes, Nat.mod_eq_of_lt fits]

private theorem beBytes_add_mul (width value high : Nat) :
    beBytes width (high * 256 ^ width + value) = beBytes width value := by
  induction width generalizing high with
  | zero => rfl
  | succ width ih =>
    have regroup : high * 256 ^ (width + 1) + value = (high * 256) * 256 ^ width + value := by
      ring
    rw [regroup, beBytes, beBytes, ih]
    have digit : ((high * 256) * 256 ^ width + value) / 256 ^ width % 256 =
        value / 256 ^ width % 256 := by
      rw [Nat.add_comm, Nat.add_mul_div_right _ _ (Nat.pow_pos (by decide))]
      omega
    rw [digit]

theorem beBytes_ofBeBytes (bytes : Bytes) : beBytes bytes.length (ofBeBytes bytes) = bytes := by
  induction bytes with
  | nil => rfl
  | cons byte rest ih =>
    rw [ofBeBytes_cons, length_cons, beBytes, beBytes_add_mul, ih]
    have small := ofBeBytes_lt rest
    have digit : (byte.toNat * 256 ^ rest.length + ofBeBytes rest) / 256 ^ rest.length =
        byte.toNat := by
      rw [Nat.add_comm, Nat.add_mul_div_right _ _ (Nat.pow_pos (by decide)), Nat.div_eq_of_lt small]
      simp
    have byteSmall : byte.toNat < 256 := byte.toNat_lt
    rw [digit, Nat.mod_eq_of_lt byteSmall]
    simp

theorem beBytes_injective {width left right : Nat}
    (leftFits : left < 256 ^ width) (rightFits : right < 256 ^ width)
    (same : beBytes width left = beBytes width right) : left = right := by
  have read := congrArg ofBeBytes same
  rwa [ofBeBytes_beBytes_of_lt leftFits, ofBeBytes_beBytes_of_lt rightFits] at read

def window (data : Bytes) (offset count : Nat) : Bytes :=
  (data.drop offset).take count

variable {data block : Bytes} {offset next : Nat}

theorem length_window {count : Nat} (inside : offset + count ≤ data.length) :
    (window data offset count).length = count := by
  simp only [window, length_take, length_drop]
  omega

/-- `block` stands in `data` from `offset` up to `next`. -/
structure Holds (data : Bytes) (offset : Nat) (block : Bytes) (next : Nat) : Prop where
  found : data.drop offset = block ++ data.drop next
  stop : next = offset + block.length

theorem Holds.empty (data : Bytes) (offset : Nat) : Holds data offset [] offset :=
  ⟨rfl, rfl⟩

theorem Holds.append {start middle finish : Nat} {left right : Bytes}
    (first : Holds data start left middle) (second : Holds data middle right finish) :
    Holds data start (left ++ right) finish := by
  constructor
  · rw [first.found, second.found, append_assoc]
  · rw [second.stop, first.stop, length_append, Nat.add_assoc]

theorem Holds.window {count : Nat} (inside : offset + count ≤ data.length) :
    Holds data offset (window data offset count) (offset + count) := by
  constructor
  · rw [Library.window, ← drop_drop, take_append_drop]
  · rw [length_window inside]

theorem Holds.whole (held : Holds data 0 block next) (ended : data.length ≤ next) :
    block = data := by
  have found := held.found
  rw [drop_eq_nil_of_le ended, append_nil, drop_zero] at found
  exact found.symm

theorem Holds.of_drop {rest : Bytes} (found : data.drop offset = block ++ rest) :
    Holds data offset block (offset + block.length) := by
  constructor
  · rw [← drop_drop, found, drop_left]
  · rfl

theorem Holds.window_eq (held : Holds data offset block next) :
    Library.window data offset block.length = block := by
  rw [Library.window, held.found, take_left]

theorem Holds.le_length (held : Holds data offset block next) (inside : offset ≤ data.length) :
    next ≤ data.length := by
  have sizes := congrArg length held.found
  simp only [length_drop, length_append] at sizes
  have stop := held.stop
  omega

theorem Holds.split {left right : Bytes} {start finish : Nat}
    (held : Holds data start (left ++ right) finish) : Holds data start left (start + left.length) ∧
      Holds data (start + left.length) right finish := by
  have found := held.found
  rw [append_assoc] at found
  have first := Holds.of_drop found
  refine ⟨first, ?_, ?_⟩
  · rw [first.found] at found
    exact append_cancel_left found
  · rw [held.stop, length_append, Nat.add_assoc]

def utf8 (text : String) : Bytes := text.toByteArray.data.toList

def ofUtf8? (bytes : Bytes) : Option String := String.fromUTF8? ⟨bytes.toArray⟩

theorem utf8_injective {left right : String} (same : utf8 left = utf8 right) : left = right := by
  apply String.toByteArray_inj.mp
  apply ByteArray.ext
  exact Array.toList_inj.mp same

theorem utf8_append (left right : String) : utf8 (left ++ right) = utf8 left ++ utf8 right := by
  simp [utf8, String.toByteArray_append]

theorem utf8_length_pos {text : String} (nonempty : text ≠ "") : 0 < (utf8 text).length := by
  apply List.length_pos_iff.mpr
  intro none
  exact nonempty (utf8_injective none)

theorem length_utf8 (text : String) : (utf8 text).length = (text.toList.map Char.utf8Size).sum := by
  have encoded : utf8 text = text.toList.flatMap String.utf8EncodeChar := by
    rw [utf8, ← String.utf8Encode_toList, List.utf8Encode]
    simp
  rw [encoded, List.length_flatMap]
  simp only [String.length_utf8EncodeChar]

theorem utf8_length_le (text : String) : (utf8 text).length ≤ 4 * text.length := by
  rw [length_utf8, ← String.length_toList]
  induction text.toList with
  | nil => simp
  | cons char rest ih =>
    have size := char.utf8Size_le_four
    rw [List.map_cons, List.sum_cons, List.length_cons]
    omega

theorem utf8_of_ofUtf8? {bytes : Bytes} {text : String} (read : ofUtf8? bytes = some text) :
    utf8 text = bytes := by
  unfold ofUtf8? String.fromUTF8? at read
  split at read
  · cases read
    simp [utf8, String.fromUTF8]
  · cases read

@[simp] theorem ofUtf8?_utf8 (text : String) : ofUtf8? (utf8 text) = some text := by
  have bytes : (⟨(utf8 text).toArray⟩ : ByteArray) = text.toByteArray := by
    simp [utf8]
  unfold ofUtf8? String.fromUTF8?
  rw [bytes, dif_pos text.isValidUTF8]
  rfl

end FrankenEngine.Library
