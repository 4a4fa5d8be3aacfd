import FrankenEngine.Library.Bytes
import FrankenEngine.Library.History
import Mathlib.Data.List.Lex

/-!
# Digests of 32 bytes

Digests are compared byte by byte from the left, like byte arrays, and form a
group under exclusive or, in which every digest is its own inverse.
-/

set_option autoImplicit false

namespace FrankenEngine.Library

open List

structure Digest where
  bytes : Bytes
  width : bytes.length = 32
  deriving DecidableEq

namespace Digest

theorem ext_bytes {left right : Digest} (same : left.bytes = right.bytes) : left = right := by
  cases left
  cases right
  cases same
  rfl

local instance byteOrder : LinearOrder UInt8 where
  le_refl := UInt8.le_refl
  le_trans _ _ _ := UInt8.le_trans
  le_antisymm _ _ := UInt8.le_antisymm
  le_total := UInt8.le_total
  lt_iff_le_not_ge _ _ := by
    rw [UInt8.not_le]
    exact ⟨fun less => ⟨UInt8.le_of_lt less, less⟩, fun both => both.2⟩
  toDecidableLE := inferInstance
  toDecidableEq := inferInstance
  toDecidableLT := inferInstance

instance : LinearOrder Digest := LinearOrder.lift' bytes fun _ _ => ext_bytes

-- What sorting a set of digests asks of the order, under names of their own.
instance : IsTrans Digest (· ≤ ·) := inferInstance

instance : Std.Antisymm fun left right : Digest => left ≤ right := inferInstance

instance : Std.Total fun left right : Digest => left ≤ right := inferInstance

def zero : Digest := ⟨List.replicate 32 0, rfl⟩

def xor (left right : Digest) : Digest :=
  ⟨List.zipWith (· ^^^ ·) left.bytes right.bytes, by
    rw [List.length_zipWith, left.width, right.width, Nat.min_self]⟩

variable (left right : Digest)

theorem xor_bytes : (left.xor right).bytes = zipWith (· ^^^ ·) left.bytes right.bytes := rfl

theorem xor_comm : left.xor right = right.xor left := by
  apply ext_bytes
  rw [xor_bytes, xor_bytes, zipWith_comm]
  simp only [UInt8.xor_comm]

theorem xor_assoc (first second third : Digest) :
    (first.xor second).xor third = first.xor (second.xor third) := by
  apply ext_bytes
  apply ext_getElem
  · rw [((first.xor second).xor third).width, (first.xor (second.xor third)).width]
  · intro index _ _
    simp only [xor_bytes, getElem_zipWith, UInt8.xor_assoc]

theorem xor_self (digest : Digest) : digest.xor digest = zero := by
  apply ext_bytes
  apply ext_getElem
  · rw [(digest.xor digest).width, zero.width]
  · intro index _ _
    simp only [xor_bytes, zero, getElem_zipWith, getElem_replicate, UInt8.xor_self]

theorem zero_xor (digest : Digest) : zero.xor digest = digest := by
  apply ext_bytes
  apply ext_getElem
  · rw [(zero.xor digest).width, digest.width]
  · intro index _ _
    simp only [xor_bytes, zero, getElem_zipWith, getElem_replicate, UInt8.zero_xor]

instance : Zero Digest := ⟨zero⟩

instance : Add Digest := ⟨xor⟩

instance : Neg Digest := ⟨id⟩

instance : AddCommGroup Digest where
  add_assoc := xor_assoc
  zero_add := zero_xor
  add_zero digest := (xor_comm digest zero).trans (zero_xor digest)
  neg_add_cancel := xor_self
  add_comm := xor_comm
  nsmul := nsmulRec
  zsmul := zsmulRec

theorem add_eq_xor : left + right = left.xor right := rfl

theorem neg_eq_self (digest : Digest) : -digest = digest := rfl

def byteAt (digest : Digest) (offset : Nat) : BitVec 8 := (digest.bytes.getD offset 0).toBitVec

def wordAt (digest : Digest) (offset : Nat) : UInt32 :=
  UInt32.ofBitVec (digest.byteAt (offset + 3) ++ digest.byteAt (offset + 2) ++
    digest.byteAt (offset + 1) ++ digest.byteAt offset)

theorem byteAt_xor (offset : Nat) :
    (left.xor right).byteAt offset = left.byteAt offset ^^^ right.byteAt offset := by
  have leftWidth := left.width
  have rightWidth := right.width
  by_cases inside : offset < 32
  · simp [byteAt, xor_bytes, getD_eq_getElem?_getD, leftWidth, rightWidth, inside]
  · have outside : 32 ≤ offset := Nat.le_of_not_lt inside
    simp [byteAt, xor_bytes, getD_eq_getElem?_getD, leftWidth, rightWidth, outside]

theorem wordAt_xor (offset : Nat) :
    (left.xor right).wordAt offset = left.wordAt offset ^^^ right.wordAt offset := by
  simp only [wordAt, byteAt_xor, ← BitVec.xor_append]
  rfl

end Digest

/-!
## Encodings that can be read from the front

A framed encoding tells where it ends: whatever follows it, the value and the
rest are determined. Sequences of framed encodings are framed.
-/

def Framed {α : Type} (valid : α → Prop) (encode : α → Bytes) : Prop :=
  ∀ ⦃left right : α⦄ ⦃after after' : Bytes⦄, valid left → valid right →
    encode left ++ after = encode right ++ after' → left = right ∧ after = after'

theorem framed_fixed {α : Type} {encode : α → Bytes} {width : Nat}
    (fixed : ∀ value, (encode value).length = width) (injective : Function.Injective encode) :
    Framed (fun _ => True) encode := by
  intro left right after after' _ _ same
  have parts := append_inj same ((fixed left).trans (fixed right).symm)
  exact ⟨injective parts.1, parts.2⟩

theorem framed_beBytes (width : Nat) :
    Framed (fun value => value < 256 ^ width) (beBytes width) := by
  intro left right after after' leftFits rightFits same
  have parts := append_inj same (by rw [length_beBytes, length_beBytes])
  exact ⟨beBytes_injective leftFits rightFits parts.1, parts.2⟩

/-- A 32-bit length and the text. The length keeps its low 32 bits only. -/
def textFrame (text : String) : Bytes := beBytes 4 (utf8 text).length ++ utf8 text

theorem framed_textFrame : Framed (fun text => (utf8 text).length < 2 ^ 32) textFrame := by
  intro left right after after' leftFits rightFits same
  obtain ⟨lengths, rest⟩ := framed_beBytes 4 leftFits rightFits same
  have parts := append_inj rest lengths
  exact ⟨utf8_injective parts.1, parts.2⟩

def optionFrame {α : Type} (encode : α → Bytes) : Option α → Bytes
  | some value => 1 :: encode value
  | none => [0]

theorem framed_optionFrame {α : Type} {valid : α → Prop} {encode : α → Bytes}
    (framed : Framed valid encode) :
    Framed (fun value => ∀ held ∈ value, valid held) (optionFrame encode) := by
  intro left right after after' leftValid rightValid same
  cases left with
  | none =>
    cases right with
    | none => exact ⟨rfl, (cons.inj same).2⟩
    | some right => exact absurd (cons.inj same).1 (by decide)
  | some left =>
    cases right with
    | none => exact absurd (cons.inj same).1 (by decide)
    | some right =>
      obtain ⟨values, rest⟩ :=
        framed (leftValid left rfl) (rightValid right rfl) (cons.inj same).2
      exact ⟨congrArg some values, rest⟩

def boolFrame (value : Bool) : Bytes := [if value then 1 else 0]

theorem framed_boolFrame : Framed (fun _ => True) boolFrame := by
  intro left right after after' _ _ same
  have parts := cons.inj same
  refine ⟨?_, parts.2⟩
  cases left <;> cases right <;> first | rfl | exact absurd parts.1 (by decide)

def wordFrame (value : UInt64) : Bytes := beBytes 8 value.toNat

theorem framed_wordFrame : Framed (fun _ => True) wordFrame := by
  intro left right after after' _ _ same
  have bound : ∀ value : UInt64, value.toNat < 256 ^ 8 := fun value => value.toNat_lt
  obtain ⟨values, rest⟩ := framed_beBytes 8 (bound left) (bound right) same
  exact ⟨UInt64.toNat_inj.mp values, rest⟩

theorem framed_bytes : Framed (fun _ => True) Digest.bytes :=
  framed_fixed Digest.width fun _ _ => Digest.ext_bytes

/-!
## Marked lists

Each item of a list is written after a mark, with nothing at its end. What has
been written can be read back as far as the items do not begin one another.
-/

def written (mark : Bytes) (items : List Bytes) : Bytes := items.flatMap (mark ++ ·)

/-- Where the two lists first differ, neither item is the beginning of the other. -/
inductive PartsClearly : List Bytes → List Bytes → Prop where
  | none_left (right : List Bytes) : PartsClearly [] right
  | none_right (left : List Bytes) : PartsClearly left []
  | same (item : Bytes) {left right : List Bytes} (rest : PartsClearly left right) :
      PartsClearly (item :: left) (item :: right)
  | apart {item other : Bytes} (left right : List Bytes) (before : ¬ item <+: other)
      (behind : ¬ other <+: item) : PartsClearly (item :: left) (other :: right)

theorem partsClearly_of_length {width : Nat} {left right : List Bytes}
    (fixedLeft : ∀ item ∈ left, item.length = width)
    (fixedRight : ∀ item ∈ right, item.length = width) : PartsClearly left right := by
  induction left generalizing right with
  | nil => exact .none_left right
  | cons item left ih =>
    cases right with
    | nil => exact .none_right _
    | cons other right =>
      obtain ⟨itemWidth, leftOthers⟩ := forall_mem_cons.mp fixedLeft
      obtain ⟨otherWidth, rightOthers⟩ := forall_mem_cons.mp fixedRight
      by_cases equal : item = other
      · subst equal
        exact .same item (ih leftOthers rightOthers)
      · refine .apart left right (fun before => ?_) fun behind => ?_
        · exact equal (before.eq_of_length (itemWidth.trans otherWidth.symm))
        · exact equal (behind.eq_of_length (otherWidth.trans itemWidth.symm)).symm

theorem partsClearly_self (items : List Bytes) : PartsClearly items items := by
  induction items with
  | nil => exact .none_left []
  | cons item rest ih => exact .same item ih

section Written

variable {first : UInt8} {tail : Bytes} {left right : List Bytes}

theorem PartsClearly.eq_of_written {after after' : Bytes} (parts : PartsClearly left right)
    (ends : after.head? ≠ some first) (ends' : after'.head? ≠ some first)
    (same : written (first :: tail) left ++ after = written (first :: tail) right ++ after') :
    left = right ∧ after = after' := by
  induction parts with
  | none_left right =>
    cases right with
    | nil => exact ⟨rfl, same⟩
    | cons item right =>
      change after = _ at same
      exact absurd (same ▸ rfl) ends
  | none_right left =>
    cases left with
    | nil => exact ⟨rfl, same⟩
    | cons item left =>
      change _ = after' at same
      exact absurd (same ▸ rfl) ends'
  | same item _ ih =>
    simp only [written, flatMap_cons, append_assoc, append_cancel_left_eq] at same
    obtain ⟨rest, afters⟩ := ih same
    exact ⟨rest ▸ rfl, afters⟩
  | @apart item other left right before behind =>
    simp only [written, flatMap_cons, append_assoc, append_cancel_left_eq] at same
    rcases prefix_or_prefix_of_prefix (prefix_append item _)
      (same ▸ prefix_append other _) with isBefore | isBehind
    · exact absurd isBefore before
    · exact absurd isBehind behind

/-- The items are the pieces, some of them joined by the mark. -/
inductive Joins (mark : Bytes) : List Bytes → List Bytes → Prop where
  | nil : Joins mark [] []
  | start (piece : Bytes) {pieces items : List Bytes} (rest : Joins mark pieces items) :
      Joins mark (piece :: pieces) (piece :: items)
  | join (piece : Bytes) {pieces items : List Bytes} {item : Bytes}
      (rest : Joins mark pieces (item :: items)) :
      Joins mark (piece :: pieces) ((piece ++ (mark ++ item)) :: items)

theorem Joins.written_eq {mark : Bytes} {pieces items : List Bytes}
    (joins : Joins mark pieces items) : written mark pieces = written mark items := by
  induction joins with
  | nil => rfl
  | start piece _ ih => simpa [written] using ih
  | join piece _ ih =>
    simp only [written, flatMap_cons, append_assoc] at ih ⊢
    rw [ih]

/-- Where a longer item runs over the end of a shorter one, it runs over the next mark. -/
theorem prefix_of_written {surplus : Bytes} (fresh : first ∉ tail) (nonempty : surplus ≠ [])
    (same : written (first :: tail) left = surplus ++ written (first :: tail) right) :
    first :: tail <+: surplus := by
  cases left with
  | nil => exact absurd (append_eq_nil_iff.mp same.symm).1 nonempty
  | cons item left =>
    simp only [written, flatMap_cons, append_assoc] at same
    rcases append_eq_append_iff.mp same with ⟨more, longer, -⟩ | ⟨missing, shorter, rest⟩
    · exact ⟨more, longer.symm⟩
    · cases missing with
      | nil => exact ⟨[], by rw [append_nil]; exact shorter.trans (append_nil _)⟩
      | cons byte missing =>
        obtain ⟨start, surplus, rfl⟩ := exists_cons_of_ne_nil nonempty
        obtain ⟨-, split⟩ := cons.inj shorter
        have isLater : byte ∈ tail := split ▸ mem_append_right _ (.head _)
        cases right with
        | nil => cases rest
        | cons item right =>
          obtain ⟨isFirst, -⟩ := cons.inj rest
          exact absurd (isFirst ▸ isLater) fresh

theorem exists_joins (fresh : first ∉ tail)
    (same : written (first :: tail) left = written (first :: tail) right) :
    ∃ pieces, Joins (first :: tail) pieces left ∧ Joins (first :: tail) pieces right := by
  induction size : (written (first :: tail) left).length using Nat.strong_induction_on
    generalizing left right with
  | _ bound ih =>
    have step (item surplus : Bytes) (left right : List Bytes)
        (same : written (first :: tail) left = surplus ++ written (first :: tail) right)
        (smaller : (written (first :: tail) left).length < bound) :
        ∃ pieces, Joins (first :: tail) pieces (item :: left) ∧
          Joins (first :: tail) pieces ((item ++ surplus) :: right) := by
      by_cases nothing : surplus = []
      · subst nothing
        obtain ⟨pieces, joinsLeft, joinsRight⟩ := ih _ smaller same rfl
        exact ⟨item :: pieces, .start item joinsLeft, by rw [append_nil]; exact .start item joinsRight⟩
      · obtain ⟨rest, rfl⟩ := prefix_of_written fresh nothing same
        have regrouped : written (first :: tail) left = written (first :: tail) (rest :: right) := by
          rw [same, written, written, flatMap_cons]
        obtain ⟨pieces, joinsLeft, joinsRight⟩ := ih _ smaller regrouped rfl
        exact ⟨item :: pieces, .start item joinsLeft, .join item joinsRight⟩
    cases left with
    | nil =>
      cases right with
      | nil => exact ⟨[], .nil, .nil⟩
      | cons other right => cases same
    | cons item left =>
      cases right with
      | nil => cases same
      | cons other right =>
        have whole := size
        rw [same] at whole
        rw [written, flatMap_cons, length_append, length_append, length_cons, ← written] at size whole
        simp only [written, flatMap_cons, append_assoc, append_cancel_left_eq] at same
        rcases append_eq_append_iff.mp same with ⟨surplus, rfl, rest⟩ | ⟨surplus, rfl, rest⟩
        · exact step item surplus left right rest (by omega)
        · obtain ⟨pieces, joinsRight, joinsLeft⟩ :=
            step other surplus right left rest (by omega)
          exact ⟨pieces, joinsLeft, joinsRight⟩

end Written

/-!
## Rolling hashes

A rolling hash takes in one entry after the other: it hashes its previous value
followed by the hash of the entry. Where the byte strings that are hashed on
the way do not collide, it commits to the whole list of entries.
-/

section Rolling

variable {α : Type} (hash : Bytes → Digest) (encode : α → Bytes) (seed : Bytes)

def linkBytes (rolling : Digest) (entry : α) : Bytes :=
  rolling.bytes ++ (hash (encode entry)).bytes

def roll (rolling : Digest) (entry : α) : Digest := hash (linkBytes hash encode rolling entry)

def rollAll (entries : List α) : Digest := entries.foldl (roll hash encode) (hash seed)

def hashedFor (entries : List α) : Set Bytes :=
  {bytes | bytes = seed ∨ (∃ entry ∈ entries, bytes = encode entry) ∨
    ∃ before entry after, entries = before ++ entry :: after ∧
      bytes = linkBytes hash encode (rollAll hash encode seed before) entry}

variable (entries : List α) (entry : α)

theorem rollAll_snoc : rollAll hash encode seed (entries ++ [entry]) =
      hash (linkBytes hash encode (rollAll hash encode seed entries) entry) := by
  rw [rollAll, foldl_append]
  rfl

theorem length_linkBytes (rolling : Digest) (entry : α) :
    (linkBytes hash encode rolling entry).length = 64 := by
  rw [linkBytes, length_append, rolling.width, Digest.width]

theorem hashedFor_snoc_subset :
    hashedFor hash encode seed entries ⊆ hashedFor hash encode seed (entries ++ [entry]) := by
  rintro bytes (rfl | ⟨held, member, rfl⟩ | ⟨before, held, after, rfl, rfl⟩)
  · exact .inl rfl
  · exact .inr (.inl ⟨held, mem_append_left _ member, rfl⟩)
  · exact .inr (.inr ⟨before, held, after ++ [entry], by simp, rfl⟩)

theorem linkBytes_mem_hashedFor : linkBytes hash encode (rollAll hash encode seed entries) entry ∈
      hashedFor hash encode seed (entries ++ [entry]) :=
  .inr (.inr ⟨entries, entry, [], rfl, rfl⟩)

theorem encode_mem_hashedFor : encode entry ∈ hashedFor hash encode seed (entries ++ [entry]) :=
  .inr (.inl ⟨entry, by simp, rfl⟩)

theorem hashedFor_subset_listed : hashedFor hash encode seed entries ⊆
      {bytes | bytes ∈ seed :: entries.map encode ++ (entries.inits.zip entries).map fun place =>
        linkBytes hash encode (rollAll hash encode seed place.1) place.2} := by
  rintro bytes (rfl | ⟨held, member, rfl⟩ | ⟨before, held, after, split, rfl⟩)
  · exact .head _
  · exact .tail _ (mem_append_left _ (mem_map_of_mem member))
  · have place := mem_zip_inits_iff.mpr ⟨after, split⟩
    exact mem_append_right _ (mem_map.mpr ⟨(before, held), place, rfl⟩)

variable {hash encode seed}

theorem rollAll_snoc_ne_seed {inputs : Set Bytes} (apart : Set.InjOn hash inputs)
    (short : seed.length ≠ 64) {entries : List α} {entry : α}
    (covered : hashedFor hash encode seed (entries ++ [entry]) ⊆ inputs) :
    rollAll hash encode seed (entries ++ [entry]) ≠ hash seed := by
  intro same
  rw [rollAll_snoc] at same
  have collides := apart (covered (linkBytes_mem_hashedFor hash encode seed entries entry))
    (covered (.inl rfl)) same
  exact short (collides ▸ length_linkBytes hash encode _ entry)

theorem rollAll_injective {inputs : Set Bytes} (apart : Set.InjOn hash inputs)
    (short : seed.length ≠ 64) (injective : Function.Injective encode) {left right : List α}
    (leftCovered : hashedFor hash encode seed left ⊆ inputs)
    (rightCovered : hashedFor hash encode seed right ⊆ inputs)
    (same : rollAll hash encode seed left = rollAll hash encode seed right) : left = right := by
  induction left using reverseRecOn generalizing right with
  | nil =>
    rcases eq_nil_or_concat' right with rfl | ⟨earlier, entry, rfl⟩
    · rfl
    · exact absurd same.symm (rollAll_snoc_ne_seed apart short rightCovered)
  | append_singleton left entry ih =>
    rcases eq_nil_or_concat' right with rfl | ⟨right, other, rfl⟩
    · exact absurd same (rollAll_snoc_ne_seed apart short leftCovered)
    · rw [rollAll_snoc, rollAll_snoc] at same
      have links := apart (leftCovered (linkBytes_mem_hashedFor hash encode seed left entry))
        (rightCovered (linkBytes_mem_hashedFor hash encode seed right other)) same
      have halves := append_inj links (by rw [Digest.width, Digest.width])
      have entries := apart (leftCovered (encode_mem_hashedFor hash encode seed left entry))
        (rightCovered (encode_mem_hashedFor hash encode seed right other))
        (Digest.ext_bytes halves.2)
      have earlier := ih ((hashedFor_snoc_subset hash encode seed left entry).trans leftCovered)
        ((hashedFor_snoc_subset hash encode seed right other).trans rightCovered)
        (Digest.ext_bytes halves.1)
      rw [earlier, injective entries]

end Rolling

end FrankenEngine.Library
