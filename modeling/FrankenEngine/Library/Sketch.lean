import Mathlib.Data.Finset.Sort
import Mathlib.LinearAlgebra.Finsupp.LinearCombination

/-!
# Linear sketches of signed sets

A key adds to each cell a number of copies of itself, with a count. The sketch
of a signed set is linear in the set, so sketches are subtracted cell by cell.
A scan goes round the cells and takes out the keys that they offer.
-/

set_option autoImplicit false

namespace FrankenEngine.Library

open Finsupp hiding some
open Finset

variable {Key : Type} [AddCommGroup Key]

def contribution (copies : Key → ℕ → ℕ) (key : Key) (cell : ℕ) : ℤ × Key :=
  copies key cell • ((1 : ℤ), key)

noncomputable def sketch (copies : Key → ℕ → ℕ) : (Key →₀ ℤ) →ₗ[ℤ] ℕ → ℤ × Key :=
  Finsupp.linearCombination ℤ (contribution copies)

variable (copies : Key → ℕ → ℕ)

include copies

theorem sketch_single (key : Key) (sign : ℤ) (cell : ℕ) :
    sketch copies (single key sign) cell = sign • contribution copies key cell := by
  rw [sketch, linearCombination_single, Pi.smul_apply]

theorem sketch_add (left right : Key →₀ ℤ) (cell : ℕ) :
    sketch copies (left + right) cell = sketch copies left cell + sketch copies right cell := by
  rw [map_add, Pi.add_apply]

omit copies

section SignedSets

variable {Key : Type} [DecidableEq Key]

noncomputable def signedSet (keys : Finset Key) : Key →₀ ℤ := ∑ key ∈ keys, single key 1

theorem signedSet_apply (keys : Finset Key) (key : Key) :
    signedSet keys key = if key ∈ keys then 1 else 0 := by
  rw [signedSet, finsetSum_apply]
  simp [single_apply]

/-- The keys of `left` only, with sign one, and those of `right` only, with sign minus one. -/
noncomputable def signedDifference (left right : Finset Key) : Key →₀ ℤ :=
  signedSet left - signedSet right

theorem signedDifference_apply (left right : Finset Key) (key : Key) :
    signedDifference left right key =
      (if key ∈ left then 1 else 0) - (if key ∈ right then 1 else 0) := by
  rw [signedDifference, Finsupp.sub_apply, signedSet_apply, signedSet_apply]

theorem signedDifference_signs (left right : Finset Key) (key : Key) :
    signedDifference left right key = 1 ∨ signedDifference left right key = 0 ∨
      signedDifference left right key = -1 := by
  rw [signedDifference_apply]
  split <;> split <;> simp

theorem signedDifference_eq_one_iff {left right : Finset Key} {key : Key} :
    signedDifference left right key = 1 ↔ key ∈ left \ right := by
  rw [signedDifference_apply, mem_sdiff]
  split <;> split <;> simp_all

theorem signedDifference_eq_neg_one_iff {left right : Finset Key} {key : Key} :
    signedDifference left right key = -1 ↔ key ∈ right \ left := by
  rw [signedDifference_apply, mem_sdiff]
  split <;> split <;> simp_all

end SignedSets

/-!
## Scans

What a cell offers depends on the keys that have been taken out so far: a key
and the sign with which it is to be taken.
-/

section Scans

variable {Key : Type} (offer : (Key →₀ ℤ) → ℕ → Option (ℤ × Key)) (cells : ℕ)

/-- The keys that are taken out before the given stage, when the stages go round the cells. -/
noncomputable def taken : ℕ → Key →₀ ℤ
  | 0 => 0
  | stage + 1 =>
    match offer (taken stage) (stage % cells) with
    | some (sign, key) => taken stage + single key sign
    | none => taken stage

noncomputable def offered (stage : ℕ) : Option (ℤ × Key) :=
  offer (taken offer cells stage) (stage % cells)

/-- A key that is offered at this stage is one of the keys that remain, with its sign. -/
def Genuine (keys : Key →₀ ℤ) (stage : ℕ) : Prop :=
  ∀ sign key, offered offer cells stage = some (sign, key) →
    (keys - taken offer cells stage) key = sign

noncomputable def takenWith (sign : ℤ) (stage : ℕ) : List Key :=
  (List.range stage).filterMap fun earlier =>
    (offered offer cells earlier).bind fun found => if found.1 = sign then some found.2 else none

variable {offer cells} {stage later : ℕ} {keys : Key →₀ ℤ} {sign : ℤ} {key : Key}

theorem taken_succ_of_some (found : offered offer cells stage = some (sign, key)) :
    taken offer cells (stage + 1) = taken offer cells stage + single key sign := by
  rw [offered] at found
  simp only [taken, found]

theorem taken_succ_of_none (nothing : offered offer cells stage = none) :
    taken offer cells (stage + 1) = taken offer cells stage := by
  rw [offered] at nothing
  simp only [taken, nothing]

theorem takenWith_succ (sign : ℤ) (stage : ℕ) : takenWith offer cells sign (stage + 1) =
    takenWith offer cells sign stage ++ ((offered offer cells stage).bind fun found =>
      if found.1 = sign then some found.2 else none).toList := by
  rw [takenWith, List.range_succ, List.filterMap_append, takenWith]
  congr 1

theorem takenWith_initial (earlier : stage ≤ later) :
    takenWith offer cells sign stage <+: takenWith offer cells sign later := by
  induction later, earlier using Nat.le_induction with
  | base => exact List.prefix_rfl
  | succ later _ ih =>
    rw [takenWith_succ]
    exact ih.trans (List.prefix_append _ _)

/-!
### Idle scans
-/

def Idle (offer : (Key →₀ ℤ) → ℕ → Option (ℤ × Key)) (cells stage : ℕ) : Prop :=
  ∀ cell < cells, offer (taken offer cells stage) cell = none

theorem Idle.offered_eq_none (idle : Idle offer cells stage) (positive : 0 < cells) :
    offered offer cells stage = none :=
  idle _ (Nat.mod_lt _ positive)

theorem Idle.taken_eq (idle : Idle offer cells stage) (positive : 0 < cells)
    (after : stage ≤ later) : taken offer cells later = taken offer cells stage := by
  induction later, after using Nat.le_induction with
  | base => rfl
  | succ later _ ih =>
    refine (taken_succ_of_none ?_).trans ih
    rw [offered, ih]
    exact idle _ (Nat.mod_lt _ positive)

theorem Idle.of_le (idle : Idle offer cells stage) (positive : 0 < cells)
    (after : stage ≤ later) : Idle offer cells later := by
  unfold Idle
  rw [idle.taken_eq positive after]
  exact idle

theorem Idle.takenWith_eq (idle : Idle offer cells stage) (positive : 0 < cells)
    (after : stage ≤ later) (sign : ℤ) :
    takenWith offer cells sign later = takenWith offer cells sign stage := by
  induction later, after using Nat.le_induction with
  | base => rfl
  | succ later after ih =>
    rw [takenWith_succ, (idle.of_le positive after).offered_eq_none positive, ih]
    exact List.append_nil _

theorem Idle.taken_congr {other : ℕ} (idle : Idle offer cells stage)
    (otherIdle : Idle offer cells other) (positive : 0 < cells) :
    taken offer cells stage = taken offer cells other := by
  rcases le_total stage other with before | behind
  · exact (idle.taken_eq positive before).symm
  · exact otherIdle.taken_eq positive behind

theorem Idle.takenWith_congr {other : ℕ} (idle : Idle offer cells stage)
    (otherIdle : Idle offer cells other) (positive : 0 < cells) (sign : ℤ) :
    takenWith offer cells sign stage = takenWith offer cells sign other := by
  rcases le_total stage other with before | behind
  · exact (idle.takenWith_eq positive before sign).symm
  · exact otherIdle.takenWith_eq positive behind sign

/-- A round in which no cell offers a key comes to every cell. -/
theorem idle_of_round {round : ℕ} (quiet : ∀ cell < cells,
    offered offer cells (round * cells + cell) = none) : Idle offer cells (round * cells) := by
  have unchanged : ∀ cell ≤ cells, taken offer cells (round * cells + cell) =
      taken offer cells (round * cells) := by
    intro cell within
    induction cell with
    | zero => rfl
    | succ cell ih => exact (taken_succ_of_none (quiet cell within)).trans (ih (by omega))
  intro cell inside
  have nothing := quiet cell inside
  rwa [offered, unchanged cell inside.le, Nat.mul_add_mod_of_lt inside] at nothing

/-!
### Genuine scans
-/

variable [DecidableEq Key]

theorem card_support_sub_taken_lt (genuine : ∀ stage, Genuine offer cells keys stage)
    (signed : ∀ stage sign key, offered offer cells stage = some (sign, key) → sign ≠ 0)
    (found : offered offer cells stage = some (sign, key)) :
    (keys - taken offer cells (stage + 1)).support.card <
      (keys - taken offer cells stage).support.card := by
  have shown := genuine stage sign key found
  have erased : keys - taken offer cells (stage + 1) =
      (keys - taken offer cells stage).erase key := by
    ext other
    rw [taken_succ_of_some found, ← sub_sub, Finsupp.sub_apply _ (single key sign), single_apply,
      erase_apply]
    split
    next same => rw [if_pos same.symm, ← same, shown, sub_self]
    next differ => rw [if_neg (Ne.symm differ), sub_zero]
  rw [erased, support_erase]
  apply card_erase_lt_of_mem
  rw [mem_support_iff, shown]
  exact signed stage sign key found

theorem card_support_sub_taken_le (genuine : ∀ stage, Genuine offer cells keys stage)
    (signed : ∀ stage sign key, offered offer cells stage = some (sign, key) → sign ≠ 0)
    (earlier : stage ≤ later) :
    (keys - taken offer cells later).support.card ≤
      (keys - taken offer cells stage).support.card := by
  induction later, earlier using Nat.le_induction with
  | base => exact le_rfl
  | succ later _ ih =>
    cases found : offered offer cells later with
    | none => exact (taken_succ_of_none found).symm ▸ ih
    | some held =>
      obtain ⟨sign, key⟩ := held
      exact (card_support_sub_taken_lt genuine signed found).le.trans ih

theorem taken_apply (units : ∀ stage sign key, offered offer cells stage = some (sign, key) →
      sign = 1 ∨ sign = -1) (stage : ℕ) (key : Key) :
    taken offer cells stage key = (takenWith offer cells 1 stage).count key -
      (takenWith offer cells (-1) stage).count key := by
  induction stage with
  | zero => rfl
  | succ stage ih =>
    rw [takenWith_succ, takenWith_succ, List.count_append, List.count_append]
    cases found : offered offer cells stage with
    | none => simpa [taken_succ_of_none found] using ih
    | some held =>
      obtain ⟨sign, other⟩ := held
      rw [taken_succ_of_some found, Finsupp.add_apply, single_apply, ih]
      by_cases same : other = key
      · rcases units stage sign other found with rfl | rfl
        · simp [same]
          ring
        · simp [same]
          ring
      · rcases units stage sign other found with rfl | rfl <;> simp [same]

/-- The keys taken with either sign are those of the difference. -/
def TakesDifference (offer : (Key →₀ ℤ) → ℕ → Option (ℤ × Key)) (cells : ℕ)
    (left right : Finset Key) (stage : ℕ) : Prop :=
  (takenWith offer cells 1 stage).Perm (left \ right).toList ∧
    (takenWith offer cells (-1) stage).Perm (right \ left).toList

variable (units : ∀ stage sign key, offered offer cells stage = some (sign, key) →
  sign = 1 ∨ sign = -1) {left right : Finset Key}

include units

theorem count_takenWith_of_genuine
    (genuine : ∀ earlier < stage, Genuine offer cells (signedDifference left right) earlier)
    (key : Key) :
    (signedDifference left right key = 1 ∧ (takenWith offer cells 1 stage).count key ≤ 1 ∧
        (takenWith offer cells (-1) stage).count key = 0) ∨
      (signedDifference left right key = 0 ∧ (takenWith offer cells 1 stage).count key = 0 ∧
        (takenWith offer cells (-1) stage).count key = 0) ∨
      (signedDifference left right key = -1 ∧ (takenWith offer cells 1 stage).count key = 0 ∧
        (takenWith offer cells (-1) stage).count key ≤ 1) := by
  induction stage with
  | zero => simpa [takenWith] using signedDifference_signs left right key
  | succ stage ih =>
    have before := ih fun earlier below => genuine earlier (by omega)
    rw [takenWith_succ, takenWith_succ, List.count_append, List.count_append]
    cases found : offered offer cells stage with
    | none => simpa using before
    | some held =>
      obtain ⟨sign, other⟩ := held
      have shown := genuine stage (Nat.lt_succ_self _) sign other found
      rw [Finsupp.sub_apply, taken_apply units] at shown
      by_cases same : other = key
      · subst same
        rcases units stage sign other found with rfl | rfl
        · have one : (1 : ℤ) ≠ -1 := by decide
          simp only [Option.bind_some, if_true, if_neg one, Option.toList_some, Option.toList_none,
            List.count_singleton_self, List.count_nil]
          omega
        · have minus : (-1 : ℤ) ≠ 1 := by decide
          simp only [Option.bind_some, if_true, if_neg minus, Option.toList_some,
            Option.toList_none, List.count_singleton_self, List.count_nil]
          omega
      · rcases units stage sign other found with rfl | rfl <;> simpa [same] using before

theorem takesDifference_iff : TakesDifference offer cells left right stage ↔
      taken offer cells stage = signedDifference left right ∧
        ∀ earlier < stage, Genuine offer cells (signedDifference left right) earlier := by
  have positive (key : Key) : (left \ right).toList.count key =
      if signedDifference left right key = 1 then 1 else 0 := by
    simp only [(nodup_toList _).count, mem_toList, signedDifference_eq_one_iff]
  have negative (key : Key) : (right \ left).toList.count key =
      if signedDifference left right key = -1 then 1 else 0 := by
    simp only [(nodup_toList _).count, mem_toList, signedDifference_eq_neg_one_iff]
  rw [TakesDifference, List.perm_iff_count, List.perm_iff_count]
  constructor
  · rintro ⟨ones, minuses⟩
    refine ⟨?_, fun earlier below sign key found => ?_⟩
    · ext key
      have signs := signedDifference_signs left right key
      have one := (ones key).trans (positive key)
      have minus := (minuses key).trans (negative key)
      rw [taken_apply units]
      split at one <;> split at minus <;> omega
    · -- a key that is offered twice, or with both signs, would be listed so
      have one := ((takenWith_initial below).sublist.count_le key).trans_eq
        ((ones key).trans (positive key))
      have minus := ((takenWith_initial below).sublist.count_le key).trans_eq
        ((minuses key).trans (negative key))
      rw [takenWith_succ, List.count_append, found] at one minus
      rw [Finsupp.sub_apply, taken_apply units]
      rcases units earlier sign key found with rfl | rfl
      all_goals
        simp only [Option.bind_some, ↓reduceIte, Int.reduceNeg, reduceCtorEq, Option.toList,
          List.count_singleton_self, List.count_nil] at one minus
        split at one <;> split at minus <;> omega
  · rintro ⟨all, genuine⟩
    have final (key : Key) := congrArg (· key) all
    simp only [taken_apply units] at final
    constructor
    · intro key
      have counts := count_takenWith_of_genuine units genuine key
      have last := final key
      rw [positive]
      split <;> omega
    · intro key
      have counts := count_takenWith_of_genuine units genuine key
      have last := final key
      rw [negative]
      split <;> omega

end Scans

end FrankenEngine.Library
