import FrankenEngine.Library.Result
import FrankenEngine.Library.Sketch
import FrankenEngine.Reconcile.Iblt
import Mathlib.Data.List.GetD

/-!
# What peeling recovers

Taking a key out of a table changes its cells by the linear sketch of the key,
with a checksum that follows from the key and so never rejects a mixture. Peeling
is a scan that goes round the cells. It is right exactly if it empties the table
only by taking out keys that remain, and it ends if it takes out no others.
-/

set_option autoImplicit false

namespace FrankenEngine.Reconcile

open Library Iblt List IbltCell Digest
open Finsupp hiding some

/-!
## Tables as sketches
-/

theorem computeChecksum_xor (left right : Digest) :
    computeChecksum (left.xor right) = computeChecksum left ^^^ computeChecksum right := by
  simp only [computeChecksum, range, range.loop, foldl_cons, foldl_nil, wordAt_xor, UInt32.zero_xor]
  ac_rfl

def copies (numCells numHashes : Nat) (key : Digest) (cell : Nat) : Nat :=
  (List.range numHashes).countP fun hashIdx => hashToIndex key hashIdx numCells = cell

/-- A cell to which a sketch is added. -/
def IbltCell.plus (cell : IbltCell) (value : Int × Digest) : IbltCell where
  count := cell.count + value.1
  keyHashXor := cell.keyHashXor.xor value.2
  checksumXor := cell.checksumXor ^^^ computeChecksum value.2

/-- The table differs from the given cells by the sketch of the keys. -/
structure Shows (base : Nat → IbltCell) (numCells numHashes : Nat) (iblt : Iblt)
    (keys : Digest →₀ ℤ) : Prop where
  numHashes_eq : iblt.numHashes = numHashes
  cells_eq : iblt.cells = (List.range numCells).map fun cell =>
    (base cell).plus (sketch (copies numCells numHashes) keys cell)

variable {iblt : Iblt} {keys : Digest →₀ ℤ} {sign : Int} {numCells numHashes : Nat}
  {base : Nat → IbltCell}

theorem Shows.length (shown : Shows base numCells numHashes iblt keys) :
    iblt.cells.length = numCells := by
  rw [shown.cells_eq, length_map, length_range]

theorem Shows.getD_eq (shown : Shows base numCells numHashes iblt keys) {cell : Nat}
    (inside : cell < numCells) : iblt.cells.getD cell .empty =
      (base cell).plus (sketch (copies numCells numHashes) keys cell) := by
  rw [shown.cells_eq, getD_eq_getElem _ _ (by simpa using inside), getElem_map, getElem_range]

theorem touch_plus (unit : sign = 1 ∨ sign = -1) (key : Digest) (cell : IbltCell)
    (value : Int × Digest) : (cell.plus value).touch sign key (computeChecksum key) =
      cell.plus (value + sign • ((1 : Int), key)) := by
  have signed : sign • key = key := by
    rcases unit with rfl | rfl
    · exact one_zsmul key
    · rw [neg_one_zsmul, neg_eq_self]
  have checksum := computeChecksum_xor value.2 key
  rw [← add_eq_xor] at checksum
  simp [plus, touch, signed, ← add_eq_xor, checksum, add_assoc, UInt32.xor_assoc]

theorem modify_map_range {α : Type} (value : Nat → α) (change : α → α) (size index : Nat) :
    ((range size).map value).modify index change =
      (range size).map fun cell => if index = cell then change (value cell) else value cell := by
  apply ext_getElem
  · simp
  · intro cell _ _
    simp [getElem_modify]

theorem foldl_touch (unit : sign = 1 ∨ sign = -1) (base : Nat → IbltCell) (numCells : Nat)
    (key : Digest) (hashes : List Nat) (value : Nat → Int × Digest) :
    hashes.foldl (fun cells hashIdx => cells.modify (hashToIndex key hashIdx numCells)
        (touch sign key (computeChecksum key)))
        ((range numCells).map fun cell => (base cell).plus (value cell)) =
      (range numCells).map fun cell => (base cell).plus (value cell +
        sign • (hashes.countP (fun hashIdx => hashToIndex key hashIdx numCells = cell)) •
          ((1 : Int), key)) := by
  induction hashes generalizing value with
  | nil => simp
  | cons hashIdx hashes ih =>
    rw [foldl_cons, modify_map_range]
    have touched : ∀ cell, (if hashToIndex key hashIdx numCells = cell then
        ((base cell).plus (value cell)).touch sign key (computeChecksum key)
        else (base cell).plus (value cell)) =
        (base cell).plus (value cell + if hashToIndex key hashIdx numCells = cell then
          sign • ((1 : Int), key) else 0) := by
      intro cell
      split
      · rw [touch_plus unit]
      · rw [add_zero]
    simp only [touched]
    rw [ih]
    apply map_congr_left
    intro cell _
    rw [countP_cons, add_assoc]
    congr 2
    by_cases here : hashToIndex key hashIdx numCells = cell
    · simp only [here, if_true, decide_true, add_smul, one_smul, smul_add]
      rw [add_comm]
    · simp [here]

theorem Shows.touchCells (shown : Shows base numCells numHashes iblt keys)
    (unit : sign = 1 ∨ sign = -1) (key : Digest) :
    Shows base numCells numHashes (iblt.touchCells sign key) (keys + single key sign) := by
  constructor
  · exact shown.numHashes_eq
  · rw [Iblt.touchCells, shown.length, shown.numHashes_eq, shown.cells_eq, foldl_touch unit]
    apply map_congr_left
    intro cell _
    rw [sketch_add, sketch_single]
    rfl

theorem shows_new (numCells numHashes : Nat) :
    Shows (fun _ => .empty) numCells numHashes (new numCells numHashes) 0 := by
  constructor
  · rfl
  · rw [map_zero]
    apply ext_getElem
    · simp [new]
    · intro cell _ _
      simp only [new, getElem_replicate, getElem_map, Pi.zero_apply]
      rfl

theorem Shows.insertAll (shown : Shows base numCells numHashes iblt keys) (added : List Digest) :
    Shows base numCells numHashes (added.foldl insert iblt)
      (keys + (added.map fun key => single key (1 : ℤ)).sum) := by
  induction added generalizing iblt keys with
  | nil => simpa using shown
  | cons key added ih =>
    rw [foldl_cons, map_cons, List.sum_cons, ← add_assoc]
    exact ih (shown.touchCells (Or.inl rfl) key)

theorem shows_build (numCells numHashes : Nat) (keys : Finset Digest) :
    Shows (fun _ => .empty) numCells numHashes (build numCells numHashes keys)
      (signedSet keys) := by
  have built := (shows_new numCells numHashes).insertAll (keys.sort (· ≤ ·))
  have total : (((keys.sort (· ≤ ·)).map fun key => single key (1 : ℤ)).sum) = signedSet keys := by
    rw [((Finset.sort_perm_toList keys (· ≤ ·)).map _).sum_eq, Finset.sum_map_toList]
    rfl
  rwa [total, zero_add] at built

theorem Shows.subtract {other : Iblt} {left right : Digest →₀ ℤ}
    (leftShows : Shows (fun _ => .empty) numCells numHashes iblt left)
    (rightShows : Shows (fun _ => .empty) numCells numHashes other right) :
    ∃ difference, iblt.subtract other = .ok difference ∧
      Shows (fun _ => .empty) numCells numHashes difference (left - right) := by
  have sizes : ¬ (iblt.cells.length ≠ other.cells.length ∨ iblt.numHashes ≠ other.numHashes) := by
    rw [leftShows.length, rightShows.length, leftShows.numHashes_eq, rightShows.numHashes_eq]
    simp
  refine ⟨_, if_neg sizes, leftShows.numHashes_eq, ?_⟩
  rw [leftShows.cells_eq, rightShows.cells_eq, zipWith_map, zipWith_self]
  apply map_congr_left
  intro cell _
  have zero (key : Digest) : Digest.zero.xor key = key := zero_add key
  simp [plus, IbltCell.subtract, IbltCell.empty, sub_eq_add_neg, neg_eq_self, zero, add_eq_xor,
    computeChecksum_xor]

/-!
## Peeling as a scan
-/

/-- The key that the scan reads from a cell, with the count of the cell. -/
def IbltCell.key? (cell : IbltCell) : Option (Int × Digest) :=
  if (cell.count = 1 ∨ cell.count = -1) ∧ computeChecksum cell.keyHashXor = cell.checksumXor then
    some (cell.count, cell.keyHashXor)
  else none

theorem IbltCell.unit_of_key? {cell : IbltCell} {key : Digest}
    (found : cell.key? = some (sign, key)) : sign = 1 ∨ sign = -1 := by
  unfold key? at found
  split at found
  next trusted =>
    cases found
    exact trusted.1
  next => cases found

/-- What a cell offers, if the table showed `start` before the keys were taken out. -/
noncomputable def offer (base : Nat → IbltCell) (numCells numHashes : Nat) (start taken : Digest →₀ ℤ)
    (cell : Nat) : Option (Int × Digest) :=
  ((base cell).plus (sketch (copies numCells numHashes) (start - taken) cell)).key?

section Run

variable {start : Digest →₀ ℤ} {stage : Nat} {state : PeelState}

/-- The state of the loop at a stage of the scan. -/
structure Tracks (base : Nat → IbltCell) (numCells numHashes : Nat) (start : Digest →₀ ℤ)
    (stage : Nat) (state : PeelState) : Prop where
  work : Shows base numCells numHashes state.work
    (start - taken (offer base numCells numHashes start) numCells stage)
  positive : state.positive = takenWith (offer base numCells numHashes start) numCells 1 stage
  negative : state.negative = takenWith (offer base numCells numHashes start) numCells (-1) stage

theorem units (stage : Nat) (sign : ℤ) (key : Digest)
    (found : offered (offer base numCells numHashes start) numCells stage = some (sign, key)) :
    sign = 1 ∨ sign = -1 :=
  IbltCell.unit_of_key? found

theorem Tracks.offered_eq (tracks : Tracks base numCells numHashes start stage state)
    (filled : 0 < numCells) : offered (offer base numCells numHashes start) numCells stage =
      (state.work.cells.getD (stage % numCells) .empty).key? := by
  rw [tracks.work.getD_eq (Nat.mod_lt _ filled)]
  rfl

/-- The key that the loop reads next is genuine if it is one that has not been listed. -/
theorem Tracks.genuine (tracks : Tracks base numCells numHashes start stage state)
    (filled : 0 < numCells) {key : Digest}
    (read : (state.work.cells.getD (stage % numCells) .empty).key? = some (sign, key))
    (remains : keys key - (state.positive.count key - state.negative.count key) = sign) :
    Genuine (offer base numCells numHashes start) numCells keys stage := by
  intro otherSign other same
  rw [tracks.offered_eq filled, read] at same
  cases same
  rwa [Finsupp.sub_apply, taken_apply units, ← tracks.positive, ← tracks.negative]

theorem Tracks.peelCell (tracks : Tracks base numCells numHashes start stage state)
    (filled : 0 < numCells) : Tracks base numCells numHashes start (stage + 1)
        (peelCell state (stage % numCells)) ∧
      (Iblt.peelCell state (stage % numCells)).changed = (state.changed ||
        (offered (offer base numCells numHashes start) numCells stage).isSome) := by
  have seen := tracks.offered_eq filled
  unfold Iblt.peelCell
  dsimp only
  generalize state.work.cells.getD (stage % numCells) .empty = cell at seen
  unfold IbltCell.key? at seen
  split
  next trusted =>
    rw [if_pos trusted] at seen
    refine ⟨⟨?_, ?_, ?_⟩, by simp [seen]⟩
    · rw [taken_succ_of_some seen, ← sub_sub, sub_eq_add_neg, ← Finsupp.single_neg]
      exact tracks.work.touchCells (by omega) _
    · rw [takenWith_succ, seen, tracks.positive]
      rcases trusted.1 with one | minus
      · simp [one]
      · simp [minus]
    · rw [takenWith_succ, seen, tracks.negative]
      rcases trusted.1 with one | minus
      · simp [one]
      · simp [minus]
  next refused =>
    rw [if_neg refused] at seen
    refine ⟨⟨?_, ?_, ?_⟩, by simp [seen]⟩
    · rw [taken_succ_of_none seen]
      exact tracks.work
    · rw [takenWith_succ, seen, tracks.positive]
      simp
    · rw [takenWith_succ, seen, tracks.negative]
      simp

/-- One pass is one round of the scan. -/
theorem Tracks.peelPass {round : Nat} (filled : 0 < numCells)
    (tracks : Tracks base numCells numHashes start (round * numCells) state) :
    Tracks base numCells numHashes start ((round + 1) * numCells) (peelPass state) ∧
      ((Iblt.peelPass state).changed = true ↔ ∃ cell < numCells,
        (offered (offer base numCells numHashes start) numCells (round * numCells + cell)).isSome) := by
  have along (count : Nat) (within : count ≤ numCells) :
      let passed := (range count).foldl Iblt.peelCell { state with changed := false }
      Tracks base numCells numHashes start (round * numCells + count) passed ∧
        (passed.changed = true ↔ ∃ cell < count, (offered (offer base numCells numHashes start)
          numCells (round * numCells + cell)).isSome) := by
    induction count with
    | zero => exact ⟨⟨tracks.work, tracks.positive, tracks.negative⟩, by simp⟩
    | succ count ih =>
      obtain ⟨before, changed⟩ := ih (by omega)
      obtain ⟨after, changes⟩ := before.peelCell filled
      rw [Nat.mul_add_mod_of_lt within] at after changes
      rw [range_succ, foldl_append]
      refine ⟨after, ?_⟩
      rw [foldl_cons, foldl_nil, changes, Bool.or_eq_true, changed]
      simp only [Nat.lt_succ_iff_lt_or_eq, or_and_right, exists_or, exists_eq_left]
  have whole := along numCells le_rfl
  rw [Nat.succ_mul]
  unfold Iblt.peelPass
  rw [tracks.work.length]
  exact whole

theorem Tracks.idle_of_unchanged {round : Nat} (filled : 0 < numCells)
    (tracks : Tracks base numCells numHashes start (round * numCells) state)
    (unchanged : ¬ (Iblt.peelPass state).changed = true) :
    Idle (offer base numCells numHashes start) numCells (round * numCells) := by
  refine idle_of_round fun cell inside => ?_
  by_contra some
  exact unchanged ((tracks.peelPass filled).2.mpr ⟨cell, inside, Option.isSome_iff_ne_none.mpr some⟩)

theorem Tracks.of_peelLoop {round passes : Nat} {final : PeelState} (filled : 0 < numCells)
    (tracks : Tracks base numCells numHashes start (round * numCells) state)
    (finished : peelLoop passes state = some final) :
    ∃ last, Tracks base numCells numHashes start last final ∧
      Idle (offer base numCells numHashes start) numCells last := by
  induction passes generalizing round state with
  | zero => cases finished
  | succ passes ih =>
    obtain ⟨after, -⟩ := tracks.peelPass filled
    rw [peelLoop] at finished
    split at finished
    next => exact ih after finished
    next unchanged =>
      cases finished
      refine ⟨_, after, (tracks.idle_of_unchanged filled unchanged).of_le filled ?_⟩
      exact Nat.mul_le_mul_right _ (Nat.le_succ _)

/-- If the scan comes to a rest, the loop has ended by then. -/
theorem Tracks.exists_peelLoop {round rounds : Nat} (filled : 0 < numCells)
    (tracks : Tracks base numCells numHashes start (round * numCells) state)
    (idle : Idle (offer base numCells numHashes start) numCells ((round + rounds) * numCells)) :
    ∃ final, peelLoop (rounds + 1) state = some final := by
  induction rounds generalizing round state with
  | zero =>
    obtain ⟨-, changed_iff⟩ := tracks.peelPass filled
    rw [peelLoop, if_neg]
    · exact ⟨_, rfl⟩
    · intro changed
      obtain ⟨cell, -, found⟩ := changed_iff.mp changed
      have atRest := (idle.of_le filled (Nat.le_add_right _ cell)).offered_eq_none filled
      rw [Nat.add_zero] at atRest
      rw [atRest] at found
      cases found
  | succ rounds ih =>
    obtain ⟨after, -⟩ := tracks.peelPass filled
    rw [peelLoop]
    split
    next => exact ih after (by rwa [Nat.add_right_comm])
    next => exact ⟨_, rfl⟩

theorem Tracks.exists_peelLoop_of_genuine {round size : Nat} (filled : 0 < numCells)
    (tracks : Tracks base numCells numHashes start (round * numCells) state)
    (genuine : ∀ stage, Genuine (offer base numCells numHashes start) numCells keys stage)
    (few : (keys - taken (offer base numCells numHashes start) numCells
      (round * numCells)).support.card ≤ size) :
    ∃ final, peelLoop (size + 1) state = some final := by
  have signed (stage : Nat) (sign : ℤ) (key : Digest) (found : offered (offer base numCells
      numHashes start) numCells stage = some (sign, key)) : sign ≠ 0 := by
    rcases units stage sign key found with rfl | rfl <;> decide
  have fewer {round : Nat} {state : PeelState}
      (tracks : Tracks base numCells numHashes start (round * numCells) state)
      (changed : (Iblt.peelPass state).changed = true) :
      (keys - taken (offer base numCells numHashes start) numCells
          ((round + 1) * numCells)).support.card <
        (keys - taken (offer base numCells numHashes start) numCells
          (round * numCells)).support.card := by
    obtain ⟨cell, inside, found⟩ := (tracks.peelPass filled).2.mp changed
    obtain ⟨⟨sign, key⟩, found⟩ := Option.isSome_iff_exists.mp found
    rw [Nat.succ_mul]
    exact (card_support_sub_taken_le genuine signed (by omega)).trans_lt
      ((card_support_sub_taken_lt genuine signed found).trans_le
        (card_support_sub_taken_le genuine signed (Nat.le_add_right _ _)))
  induction size generalizing round state with
  | zero =>
    rw [peelLoop, if_neg]
    · exact ⟨_, rfl⟩
    · exact fun changed => absurd (fewer tracks changed) (by omega)
  | succ size ih =>
    obtain ⟨after, -⟩ := tracks.peelPass filled
    rw [peelLoop]
    split
    next changed => exact ih after (by have := fewer tracks changed; omega)
    next => exact ⟨_, rfl⟩

theorem tracks_start (shown : Shows base numCells numHashes iblt start) :
    Tracks base numCells numHashes start (0 * numCells) ⟨iblt, [], [], true⟩ := by
  rw [Nat.zero_mul]
  exact ⟨by rwa [taken, sub_zero], rfl, rfl⟩

end Run

theorem sorted_eq_sort {keys : List Digest} {set : Finset Digest} (same : keys.Perm set.toList) :
    sorted keys = set.sort (· ≤ ·) := by
  refine Perm.eq_of_pairwise (fun _ _ _ _ => le_antisymm)
    (pairwise_insertionSort _ _) (Finset.pairwise_sort _ _) ?_
  exact (perm_insertionSort _ _).trans (same.trans (Finset.sort_perm_toList _ _).symm)

theorem sort_toFinset {keys : List Digest} (distinct : keys.Nodup) :
    keys.toFinset.sort (· ≤ ·) = sorted keys :=
  (sorted_eq_sort (toFinset_toList distinct).symm).symm

theorem perm_of_sorted_eq_sort {keys : List Digest} {set : Finset Digest}
    (same : sorted keys = set.sort (· ≤ ·)) : keys.Perm set.toList :=
  (perm_insertionSort _ _).symm.trans (same ▸ Finset.sort_perm_toList _ _)

/-!
## Soundness of reconciliation
-/

/-- What `peel` promises for two sets: if it returns lists for the difference of
their tables, these are the exact differences. -/
def PeelSound (numCells numHashes : Nat) (ours theirs : Finset Digest) : Prop :=
  ∀ difference result,
    (Iblt.build numCells numHashes ours).subtract (Iblt.build numCells numHashes theirs) =
      .ok difference →
    difference.PeelReturns (.ok result) → result = exactDifference ours theirs

/-- The scan of the difference of two sets, in the order of the cells. -/
noncomputable abbrev differenceScan (numCells numHashes : Nat) (ours theirs : Finset Digest) :
    (Digest →₀ ℤ) → Nat → Option (Int × Digest) :=
  offer (fun _ => .empty) numCells numHashes (signedDifference ours theirs)

/-- Whenever the scan empties all cells, it has taken out the difference, and each key that a cell
offered was one that remained. -/
def Undeceived (numCells numHashes : Nat) (ours theirs : Finset Digest) : Prop :=
  ∀ stage, (∀ cell < numCells, sketch (copies numCells numHashes) (signedDifference ours theirs -
      taken (differenceScan numCells numHashes ours theirs) numCells stage) cell = 0) →
    taken (differenceScan numCells numHashes ours theirs) numCells stage = signedDifference ours theirs ∧
      ∀ earlier < stage, Genuine (differenceScan numCells numHashes ours theirs) numCells
        (signedDifference ours theirs) earlier

theorem shows_difference (numCells numHashes : Nat) (ours theirs : Finset Digest) : ∃ difference,
      (build numCells numHashes ours).subtract (build numCells numHashes theirs) =
        .ok difference ∧
      Shows (fun _ => .empty) numCells numHashes difference (signedDifference ours theirs) :=
  (shows_build numCells numHashes ours).subtract (shows_build numCells numHashes theirs)

theorem isZero_plus_iff {value : Int × Digest} :
    (IbltCell.empty.plus value).isZero = true ↔ value = 0 := by
  have zero (key : Digest) : Digest.zero.xor key = key := zero_add key
  constructor
  · intro empty
    simp only [isZero, plus, IbltCell.empty, zero, Bool.and_eq_true, beq_iff_eq, zero_add] at empty
    exact Prod.ext empty.1.1 empty.1.2
  · rintro rfl
    rfl

theorem all_isZero_iff (shown : Shows (fun _ => .empty) numCells numHashes iblt keys) :
    iblt.cells.all isZero = true ↔
      ∀ cell < numCells, sketch (copies numCells numHashes) keys cell = 0 := by
  rw [shown.cells_eq, all_map, all_eq_true]
  simp only [mem_range, Function.comp_apply, isZero_plus_iff]

section Soundness

variable {ours theirs : Finset Digest} {difference : Iblt}

theorem idle_of_emptied {stage : Nat} (emptied : ∀ cell < numCells,
      sketch (copies numCells numHashes) (signedDifference ours theirs -
        taken (differenceScan numCells numHashes ours theirs) numCells stage) cell = 0) :
    Idle (differenceScan numCells numHashes ours theirs) numCells stage := by
  intro cell inside
  unfold differenceScan offer at emptied ⊢
  rw [emptied cell inside]
  exact (by decide : (IbltCell.empty.plus 0).key? = none)

/-- Peeling returns lists exactly if the scan empties the table, and then those that it took. -/
theorem peelReturns_ok_iff (filled : 0 < numCells)
    (shown : Shows (fun _ => .empty) numCells numHashes difference (signedDifference ours theirs))
    {result : List Digest × List Digest} : difference.PeelReturns (.ok result) ↔
      ∃ stage, (∀ cell < numCells, sketch (copies numCells numHashes) (signedDifference ours theirs -
          taken (differenceScan numCells numHashes ours theirs) numCells stage) cell = 0) ∧
        result = (sorted (takenWith (differenceScan numCells numHashes ours theirs) numCells 1 stage),
          sorted (takenWith (differenceScan numCells numHashes ours theirs) numCells (-1) stage)) := by
  constructor
  · rintro ⟨passes, within⟩
    obtain ⟨final, finished, outcome⟩ := Option.map_eq_some_iff.mp within
    obtain ⟨last, tracks, -⟩ := (tracks_start shown).of_peelLoop filled finished
    unfold Iblt.peelOutcome at outcome
    split at outcome
    next zero =>
      cases outcome
      exact ⟨last, (all_isZero_iff tracks.work).mp zero, by rw [tracks.positive, tracks.negative]⟩
    next => cases outcome
  · rintro ⟨stage, emptied, rfl⟩
    have idle := idle_of_emptied emptied
    have later : Idle (differenceScan numCells numHashes ours theirs) numCells ((0 + stage) * numCells) :=
      idle.of_le filled (by rw [zero_add]; exact Nat.le_mul_of_pos_right _ filled)
    obtain ⟨final, finished⟩ := (tracks_start shown).exists_peelLoop filled later
    obtain ⟨last, tracks, atRest⟩ := (tracks_start shown).of_peelLoop filled finished
    have same := atRest.taken_congr idle filled
    have zero : final.work.cells.all isZero = true := by
      refine (all_isZero_iff tracks.work).mpr ?_
      rw [same]
      exact emptied
    refine ⟨stage + 1, ?_⟩
    rw [Iblt.peelWithin, finished, Option.map_some, peelOutcome, if_pos zero, tracks.positive,
      tracks.negative, atRest.takenWith_congr idle filled, atRest.takenWith_congr idle filled]

theorem undeceived_iff (filled : 0 < numCells)
    (shown : Shows (fun _ => .empty) numCells numHashes difference (signedDifference ours theirs)) :
    (∀ result, difference.PeelReturns (.ok result) → result = exactDifference ours theirs) ↔
      Undeceived numCells numHashes ours theirs := by
  simp only [peelReturns_ok_iff filled shown]
  constructor
  · intro sound stage emptied
    have exact := sound _ ⟨stage, emptied, rfl⟩
    obtain ⟨positive, negative⟩ := Prod.mk.inj exact
    exact (takesDifference_iff units).mp
      ⟨perm_of_sorted_eq_sort positive, perm_of_sorted_eq_sort negative⟩
  · rintro undeceived _ ⟨stage, emptied, rfl⟩
    obtain ⟨positive, negative⟩ := (takesDifference_iff units).mpr (undeceived stage emptied)
    rw [exactDifference, sorted_eq_sort positive, sorted_eq_sort negative]

end Soundness

/-- The key of two bytes, at the places that the first two hash functions read. -/
def pairKey (first second : UInt8) : Digest :=
  ⟨[first, 0, 0, 0, second, 0, 0, 0] ++ List.replicate 24 0, rfl⟩

/-- Three keys share a cell of count one, but the scan meets each of them alone before it. -/
def sharing : Iblt where
  cells := [⟨1, pairKey 0 4, 4⟩, ⟨1, pairKey 1 4, 5⟩, ⟨-1, pairKey 2 4, 6⟩, .empty, .empty,
    ⟨1, pairKey 3 4, 7⟩, .empty, .empty]
  numHashes := 2

def bitKey (first second third : Bool) : Digest :=
  ⟨[first.toUInt8, 0, 0, 0, second.toUInt8, 0, 0, 0, third.toUInt8, 0, 0, 0] ++
    List.replicate 20 0, rfl⟩

/-- The scan of a table, whatever its cells hold. -/
noncomputable abbrev Iblt.scan (iblt : Iblt) : (Digest →₀ ℤ) → Nat → Option (Int × Digest) :=
  offer (iblt.cells.getD · .empty) iblt.cells.length iblt.numHashes 0

theorem shows_self (iblt : Iblt) :
    Shows (iblt.cells.getD · .empty) iblt.cells.length iblt.numHashes iblt 0 := by
  refine ⟨rfl, ext_getElem (by simp) fun cell inside _ => ?_⟩
  have zero (key : Digest) : key.xor Digest.zero = key := add_zero key
  have checksum : computeChecksum 0 = 0 := by decide
  rw [getElem_map, getElem_range, getD_eq_getElem _ _ inside]
  simp [plus, checksum, ← add_eq_xor]

theorem peelPass_congr (state other : PeelState) (same : state.work = other.work) :
    (peelPass state).work = (peelPass other).work ∧
      (peelPass state).changed = (peelPass other).changed := by
  unfold peelPass
  rw [same]
  refine foldl_rel (r := fun left right : PeelState =>
    left.work = right.work ∧ left.changed = right.changed) ⟨rfl, rfl⟩ ?_
  rintro cell _ left right ⟨work, changed⟩
  unfold peelCell
  rw [work]
  dsimp only
  split
  · exact ⟨rfl, rfl⟩
  · exact ⟨work, changed⟩

theorem peelLoop_of_cycle (work : Iblt)
    (cycle : (peelPass ⟨work, [], [], false⟩).work = work)
    (changed : (peelPass ⟨work, [], [], false⟩).changed = true) (passes : Nat)
    {state : PeelState} (reached : state.work = work) : peelLoop passes state = none := by
  induction passes generalizing state with
  | zero => rfl
  | succ passes ih =>
    obtain ⟨workSame, changedSame⟩ :=
      peelPass_congr state ⟨work, [], [], false⟩ reached
    rw [peelLoop, changedSame, changed, if_pos rfl]
    exact ih (workSame.trans cycle)

def byteKey (byte : UInt8) : Digest := ⟨byte :: List.replicate 31 0, rfl⟩

end FrankenEngine.Reconcile
