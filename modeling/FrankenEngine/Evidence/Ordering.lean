import Mathlib.Data.List.Dedup
import Mathlib.Data.List.Sort
import Mathlib.Data.Prod.Lex
import Mathlib.Data.Set.Function
import Mathlib.Data.String.Basic

/-!
# The order of evidence

`evidence_ordering.rs` sorts the lists of an evidence entry by parts of their
items, drops the witnesses whose id was seen before and cuts each list to a bound.
The sorts are stable, so that items that agree in what is compared stay in the
order in which they came. The other fields of an entry are left out.
-/

set_option autoImplicit false

namespace FrankenEngine.Evidence

open List

structure CandidateAction where
  actionName : String
  expectedLossMillionths : Int64
  filtered : Bool
  filterReason : Option String
  deriving DecidableEq

structure Witness where
  witnessId : String
  witnessType : String
  value : String
  deriving DecidableEq

structure Constraint where
  constraintId : String
  description : String
  active : Bool
  deriving DecidableEq

structure EvidenceEntry where
  candidates : List CandidateAction
  witnesses : List Witness
  constraints : List Constraint
  deriving DecidableEq

structure SizeBounds where
  maxCandidates : Nat := 64
  maxWitnesses : Nat := 256
  maxConstraints : Nat := 32

structure TruncationMarker where
  listName : String
  originalCount : Nat
  retainedCount : Nat
  policy : String
  deriving DecidableEq

structure NormalizationResult where
  truncations : List TruncationMarker
  duplicatesRemoved : Nat
  deriving DecidableEq

inductive OrderingViolation where
  | candidatesNotSorted (firstUnsortedIndex : Nat)
  | witnessesNotSorted (firstUnsortedIndex : Nat)
  | constraintsNotSorted (firstUnsortedIndex : Nat)
  | duplicateWitnessId (witnessId : String)
  | candidatesExceedBound (count max : Nat)
  | witnessesExceedBound (count max : Nat)
  | constraintsExceedBound (count max : Nat)
  deriving DecidableEq

def candidateSortKey (candidate : CandidateAction) : String ×ₗ Int :=
  toLex (candidate.actionName, candidate.expectedLossMillionths.toInt)

section Keys

variable {α κ : Type} [LinearOrder κ] (key : α → κ)

def sortByKey (items : List α) : List α := items.insertionSort (key · ≤ key ·)

/-- The first index whose item is below the one before. -/
def firstUnsorted : Nat → List α → Option Nat
  | index, first :: second :: rest =>
    if key second < key first then some index else firstUnsorted (index + 1) (second :: rest)
  | _, _ => none

def truncate (listName policy : String) (max : Nat) (items : List α) :
    List α × List TruncationMarker :=
  if max < items.length then
    (items.take max,
      [{ listName, originalCount := items.length, retainedCount := max, policy }])
  else (items, [])

end Keys

def dedupFrom (seen : List String) : List Witness → List Witness
  | [] => []
  | witness :: rest =>
    if witness.witnessId ∈ seen then dedupFrom seen rest
    else witness :: dedupFrom (witness.witnessId :: seen) rest

def normalizeEntry (entry : EvidenceEntry) (bounds : SizeBounds) :
    EvidenceEntry × NormalizationResult :=
  let sorted := sortByKey Witness.witnessId entry.witnesses
  let distinct := dedupFrom [] sorted
  let candidates := truncate "candidates" "top-K by action_name" bounds.maxCandidates
    (sortByKey candidateSortKey entry.candidates)
  let witnesses := truncate "witnesses" "top-K by witness_id" bounds.maxWitnesses distinct
  let constraints := truncate "constraints" "top-K by constraint_id" bounds.maxConstraints
    (sortByKey Constraint.constraintId entry.constraints)
  ({ candidates := candidates.1, witnesses := witnesses.1, constraints := constraints.1 },
    { truncations := candidates.2 ++ witnesses.2 ++ constraints.2
      duplicatesRemoved := sorted.length - distinct.length })

/-- The loop over the witnesses, which ends at the first one that is out of order. -/
def checkWitnesses : Nat → List String → List Witness → List OrderingViolation
  | _, _, [] => []
  | index, seen, witness :: rest =>
    let duplicate :=
      if witness.witnessId ∈ seen then [.duplicateWitnessId witness.witnessId] else []
    if seen.head?.any (witness.witnessId < ·) then duplicate ++ [.witnessesNotSorted index]
    else duplicate ++ checkWitnesses (index + 1) (witness.witnessId :: seen) rest

def checkBound (violation : Nat → Nat → OrderingViolation) (count max : Nat) :
    List OrderingViolation :=
  if max < count then [violation count max] else []

def validateEntryOrdering (entry : EvidenceEntry) (bounds : SizeBounds) :
    Except (List OrderingViolation) Unit :=
  let violations :=
    ((firstUnsorted candidateSortKey 1 entry.candidates).map .candidatesNotSorted).toList ++
      checkWitnesses 0 [] entry.witnesses ++
      ((firstUnsorted Constraint.constraintId 1 entry.constraints).map
        .constraintsNotSorted).toList ++
      checkBound .candidatesExceedBound entry.candidates.length bounds.maxCandidates ++
      checkBound .witnessesExceedBound entry.witnesses.length bounds.maxWitnesses ++
      checkBound .constraintsExceedBound entry.constraints.length bounds.maxConstraints
  if violations = [] then .ok () else .error violations

section Keys

variable {α κ : Type} [LinearOrder κ] {key : α → κ}

theorem pairwise_sortByKey (items : List α) :
    (sortByKey key items).Pairwise (key · ≤ key ·) := by
  exact pairwise_insertionSort _ items

/-- The item that comes first in the input is the first of its key in the sorted list. -/
theorem find?_sortByKey_cons (item : α) (rest : List α) :
    (sortByKey key (item :: rest)).find? (key · = key item) = some item := by
  change ((sortByKey key rest).orderedInsert (key · ≤ key ·) item).find? _ = _
  induction sortByKey key rest with
  | nil => simp
  | cons first rest ih =>
    rw [orderedInsert_cons]
    split
    next => simp
    next above => simpa [(not_le.mp above).ne] using ih

theorem take_congr {left right : List α} {max : Nat}
    (sorted : left.Pairwise (key · ≤ key ·)) (same : left.map key = right.map key)
    (cut : ∀ first ∈ left, ∀ second ∈ right, key first = key second → first ≠ second →
      max ≤ (left.map key).countP (· < key first)) :
    left.take max = right.take max := by
  induction left generalizing right max with
  | nil => rw [map_eq_nil_iff.mp same.symm]
  | cons first left ih =>
    obtain ⟨second, right, rfl⟩ := exists_cons_of_ne_nil (l := right) (by rintro rfl; cases same)
    obtain ⟨sameKey, sameRest⟩ := cons.inj same
    obtain ⟨above, sortedRest⟩ := pairwise_cons.mp sorted
    cases max with
    | zero => rfl
    | succ max =>
      -- the first item has the least key, so a tie there would be cut away with the whole list
      have none : ((first :: left).map key).countP (· < key first) = 0 := by
        simpa [countP_eq_zero] using above
      have agree : first = second := by
        by_contra differ
        have := cut first (.head _) second (.head _) sameKey differ
        omega
      subst agree
      rw [take_succ_cons, take_succ_cons, ih sortedRest sameRest]
      intro item isItem other isOther tie differ
      have := cut item (.tail _ isItem) other (.tail _ isOther) tie differ
      rw [map_cons, countP_cons] at this
      split at this <;> omega

theorem find?_take {items : List α} {item : α} {max : Nat}
    (sorted : items.Pairwise (key · ≤ key ·))
    (found : items.find? (key · = key item) = some item)
    (few : (items.map key).countP (· < key item) < max) :
    (items.take max).find? (key · = key item) = some item := by
  induction items generalizing max with
  | nil => cases found
  | cons first rest ih =>
    obtain ⟨above, sortedRest⟩ := pairwise_cons.mp sorted
    obtain ⟨max, rfl⟩ := Nat.exists_eq_succ_of_ne_zero (Nat.ne_zero_of_lt few)
    rw [take_succ_cons]
    by_cases here : key first = key item
    · simpa [here] using found
    · rw [find?_cons_of_neg (by simpa using here)] at found ⊢
      have below : key first < key item :=
        lt_of_le_of_ne (above item (mem_of_find?_eq_some found)) here
      refine ih sortedRest found ?_
      rw [map_cons, countP_cons_of_pos (by simpa using below)] at few
      omega

/-- `arrange` puts the items in the order of their keys; of the items of one key the first one in
the input comes first. -/
structure Arranges (key : α → κ) (arrange : List α → List α) (keys : List κ → List κ) : Prop where
  sorted (items : List α) : (arrange items).Pairwise (key · ≤ key ·)
  subset (items : List α) : arrange items ⊆ items
  map_perm (items : List α) : (arrange items).map key ~ keys (items.map key)
  keys_congr {left right : List κ} (same : left ~ right) : keys left ~ keys right
  first (item : α) (rest : List α) :
    (arrange (item :: rest)).find? (key · = key item) = some item

/-- No two different items of one key reach the first `max` places. -/
def TiesCut (key : α → κ) (keys : List κ) (max : Nat) (items : List α) : Prop :=
  ∀ first ∈ items, ∀ second ∈ items, key first = key second → first ≠ second →
    max ≤ keys.countP (· < key first)

namespace Arranges

variable {arrange : List α → List α} {keys : List κ → List κ} {left right items : List α}
  {max : Nat}

theorem map_congr (arranges : Arranges key arrange keys) (same : left ~ right) :
    (arrange left).map key = (arrange right).map key := by
  have sorted (items : List α) : ((arrange items).map key).Pairwise (· ≤ ·) :=
    pairwise_map.mpr (arranges.sorted items)
  have permuted : (arrange left).map key ~ (arrange right).map key :=
    ((arranges.map_perm left).trans (arranges.keys_congr (same.map key))).trans
      (arranges.map_perm right).symm
  exact permuted.eq_of_pairwise (fun _ _ _ _ => le_antisymm) (sorted left) (sorted right)

theorem countP_eq (arranges : Arranges key arrange keys) (same : left ~ right) (bound : κ) :
    ((arrange left).map key).countP (· < bound) = (keys (right.map key)).countP (· < bound) :=
  ((arranges.map_perm left).trans (arranges.keys_congr (same.map key))).countP_eq _

theorem take_iff (arranges : Arranges key arrange keys) :
    (∀ other, other ~ items → (arrange other).take max = (arrange items).take max) ↔
      TiesCut key (keys (items.map key)) max items := by
  constructor
  · intro alike first isFirst second isSecond tie differ
    by_contra few
    -- the two permutations that put one of the two in front keep that one
    have kept (item : α) (isItem : item ∈ items) (tied : key item = key first) :
        ((arrange items).take max).find? (key · = key first) = some item := by
      obtain ⟨before, after, parts⟩ := append_of_mem isItem
      have permuted : item :: (before ++ after) ~ items := parts ▸ perm_middle.symm
      rw [← alike _ permuted, ← tied]
      refine find?_take (arranges.sorted _) (arranges.first item _) ?_
      rw [arranges.countP_eq permuted, tied]
      exact not_le.mp few
    exact differ (Option.some_inj.mp ((kept first isFirst rfl).symm.trans (kept second isSecond tie.symm)))
  · intro cut other permuted
    refine take_congr (arranges.sorted other) (arranges.map_congr permuted) ?_
    intro first isFirst second isSecond tie differ
    rw [arranges.countP_eq permuted]
    exact cut first (permuted.mem_iff.mp (arranges.subset _ isFirst)) second
      (arranges.subset _ isSecond) tie differ

end Arranges

theorem arranges_sortByKey (key : α → κ) : Arranges key (sortByKey key) id where
  sorted := pairwise_sortByKey
  subset items := (perm_insertionSort _ items).subset
  map_perm items := (perm_insertionSort _ items).map key
  keys_congr same := same
  first := find?_sortByKey_cons

theorem firstUnsorted_eq_none {items : List α} (sorted : items.Pairwise (key · ≤ key ·))
    (index : Nat) : firstUnsorted key index items = none := by
  induction items generalizing index with
  | nil => rfl
  | cons first rest ih =>
    cases rest with
    | nil => rfl
    | cons second rest =>
      obtain ⟨above, sortedRest⟩ := pairwise_cons.mp sorted
      rw [firstUnsorted, if_neg (above second (.head _)).not_gt]
      exact ih sortedRest _

structure Fits (r : α → α → Prop) (max : Nat) (items : List α) : Prop where
  ordered : items.Pairwise r
  few : items.length ≤ max

variable {r : α → α → Prop} {listName policy : String} {max : Nat} {items : List α}

theorem fits_truncate (ordered : items.Pairwise r) :
    Fits r max (truncate listName policy max items).1 := by
  unfold truncate
  split
  next => exact ⟨ordered.sublist (take_sublist max items), length_take_le max items⟩
  next short => exact ⟨ordered, not_lt.mp short⟩

theorem truncate_fst : (truncate listName policy max items).1 = items.take max := by
  unfold truncate
  split
  next => rfl
  next short => exact (take_of_length_le (not_lt.mp short)).symm

theorem truncate_snd_congr {other : List α} (same : other.length = items.length) :
    (truncate listName policy max other).2 = (truncate listName policy max items).2 := by
  unfold truncate
  rw [same]
  split <;> rfl

theorem Fits.truncate_eq (fits : Fits r max items) :
    truncate listName policy max items = (items, []) :=
  if_neg fits.few.not_gt

end Keys

theorem dedupFrom_spec (seen : List String) {witnesses : List Witness}
    (sorted : witnesses.Pairwise (·.witnessId ≤ ·.witnessId)) :
    dedupFrom seen witnesses <+ witnesses ∧
      (dedupFrom seen witnesses).Pairwise (·.witnessId < ·.witnessId) ∧
      ∀ witness ∈ dedupFrom seen witnesses, witness.witnessId ∉ seen := by
  induction witnesses generalizing seen with
  | nil => exact ⟨.slnil, .nil, nofun⟩
  | cons witness rest ih =>
    obtain ⟨above, sortedRest⟩ := pairwise_cons.mp sorted
    unfold dedupFrom
    split
    next =>
      obtain ⟨part, rising, fresh⟩ := ih seen sortedRest
      exact ⟨part.cons witness, rising, fresh⟩
    next unseen =>
      obtain ⟨part, rising, fresh⟩ := ih (witness.witnessId :: seen) sortedRest
      refine ⟨part.cons_cons witness, pairwise_cons.mpr ⟨fun other member => ?_, rising⟩, ?_⟩
      · refine lt_of_le_of_ne (above other (part.subset member)) fun same => ?_
        exact fresh other member (same ▸ .head _)
      · refine forall_mem_cons.mpr ⟨unseen, fun other member isSeen => ?_⟩
        exact fresh other member (.tail _ isSeen)

theorem find?_dedupFrom (seen : List String) (witnesses : List Witness) {id : String}
    (fresh : id ∉ seen) :
    (dedupFrom seen witnesses).find? (·.witnessId = id) =
      witnesses.find? (·.witnessId = id) := by
  induction witnesses generalizing seen with
  | nil => rfl
  | cons witness rest ih =>
    unfold dedupFrom
    split
    next isSeen =>
      have other : witness.witnessId ≠ id := fun same => fresh (same ▸ isSeen)
      rw [ih seen fresh, find?_cons_of_neg (by simpa using other)]
    next =>
      rw [find?_cons, find?_cons]
      split
      next => rfl
      next other => exact ih _ (by simpa [fresh, eq_comm] using other)

theorem arranges_dedup :
    Arranges Witness.witnessId (fun items => dedupFrom [] (sortByKey Witness.witnessId items))
      List.dedup where
  sorted items := (dedupFrom_spec [] (pairwise_sortByKey items)).2.1.imp le_of_lt
  subset items := List.Subset.trans (dedupFrom_spec [] (pairwise_sortByKey items)).1.subset
    (perm_insertionSort _ items).subset
  map_perm items := by
    have rising : (dedupFrom [] (sortByKey Witness.witnessId items)).Pairwise
      (·.witnessId < ·.witnessId) := (dedupFrom_spec [] (pairwise_sortByKey items)).2.1
    refine (perm_ext_iff_of_nodup ?_ (nodup_dedup _)).mpr fun id => ?_
    · exact pairwise_map.mpr (rising.imp ne_of_lt)
    · have found := congrArg Option.isSome
        (find?_dedupFrom [] (sortByKey Witness.witnessId items) (not_mem_nil (a := id)))
      rw [Bool.eq_iff_iff, find?_isSome, find?_isSome] at found
      simp only [decide_eq_true_eq] at found
      rw [mem_dedup, mem_map, found, mem_map]
      simp only [sortByKey, (perm_insertionSort _ items).mem_iff]
  keys_congr same := same.dedup
  first witness rest := by
    rw [find?_dedupFrom [] _ not_mem_nil, find?_sortByKey_cons]

theorem dedupFrom_eq_self {witnesses : List Witness}
    (rising : witnesses.Pairwise (·.witnessId < ·.witnessId)) (seen : List String)
    (fresh : ∀ witness ∈ witnesses, ∀ id ∈ seen, id < witness.witnessId) :
    dedupFrom seen witnesses = witnesses ∧ ∀ index, checkWitnesses index seen witnesses = [] := by
  induction witnesses generalizing seen with
  | nil => exact ⟨rfl, fun _ => rfl⟩
  | cons witness rest ih =>
    obtain ⟨above, risingRest⟩ := pairwise_cons.mp rising
    obtain ⟨here, later⟩ := forall_mem_cons.mp fresh
    have unseen : witness.witnessId ∉ seen := fun member => lt_irrefl _ (here _ member)
    have ordered : seen.head?.any (witness.witnessId < ·) = false := by
      cases seen with
      | nil => rfl
      | cons last earlier => exact decide_eq_false (here last (.head _)).not_gt
    obtain ⟨kept, passed⟩ := ih risingRest (witness.witnessId :: seen)
      fun other member => forall_mem_cons.mpr ⟨above other member, later other member⟩
    constructor
    · rw [dedupFrom, if_neg unseen, kept]
    · intro index
      simp only [checkWitnesses, unseen, ordered, passed, if_false, Bool.false_eq_true, nil_append]

structure Normal (entry : EvidenceEntry) (bounds : SizeBounds) : Prop where
  candidates : Fits (candidateSortKey · ≤ candidateSortKey ·) bounds.maxCandidates entry.candidates
  witnesses : Fits (·.witnessId < ·.witnessId) bounds.maxWitnesses entry.witnesses
  constraints : Fits (·.constraintId ≤ ·.constraintId) bounds.maxConstraints entry.constraints

variable {entry : EvidenceEntry} {bounds : SizeBounds}

theorem normal_normalizeEntry (entry : EvidenceEntry) (bounds : SizeBounds) :
    Normal (normalizeEntry entry bounds).1 bounds where
  candidates := fits_truncate (pairwise_sortByKey _)
  witnesses := fits_truncate (dedupFrom_spec [] (pairwise_sortByKey _)).2.1
  constraints := fits_truncate (pairwise_sortByKey _)

theorem Normal.normalizeEntry_eq (normal : Normal entry bounds) :
    normalizeEntry entry bounds = (entry, ⟨[], 0⟩) := by
  have candidates : sortByKey candidateSortKey entry.candidates = entry.candidates :=
    normal.candidates.ordered.insertionSort_eq
  have witnesses : sortByKey Witness.witnessId entry.witnesses = entry.witnesses :=
    (normal.witnesses.ordered.imp le_of_lt).insertionSort_eq
  have constraints : sortByKey Constraint.constraintId entry.constraints = entry.constraints :=
    normal.constraints.ordered.insertionSort_eq
  have distinct := (dedupFrom_eq_self normal.witnesses.ordered [] (by simp)).1
  simp only [normalizeEntry, candidates, witnesses, constraints, distinct,
    normal.candidates.truncate_eq, normal.witnesses.truncate_eq, normal.constraints.truncate_eq,
    append_nil, Nat.sub_self]

theorem Normal.validateEntryOrdering_ok (normal : Normal entry bounds) :
    validateEntryOrdering entry bounds = .ok () := by
  have witnesses := (dedupFrom_eq_self normal.witnesses.ordered [] (by simp)).2 0
  simp [validateEntryOrdering, firstUnsorted_eq_none normal.candidates.ordered, witnesses,
    firstUnsorted_eq_none normal.constraints.ordered, checkBound, normal.candidates.few,
    normal.witnesses.few, normal.constraints.few]

/-- What is compared leaves open only items that the bounds cut away. -/
structure Determined (entry : EvidenceEntry) (bounds : SizeBounds) : Prop where
  candidates : TiesCut candidateSortKey (entry.candidates.map candidateSortKey)
    bounds.maxCandidates entry.candidates
  witnesses : TiesCut Witness.witnessId (entry.witnesses.map Witness.witnessId).dedup
    bounds.maxWitnesses entry.witnesses
  constraints : TiesCut Constraint.constraintId (entry.constraints.map Constraint.constraintId)
    bounds.maxConstraints entry.constraints

/-- The normal form does not depend on the order of the lists, a second normalisation changes
nothing and the result is accepted, if and only if the bounds cut away all ties. -/
theorem normalizeEntry_canonical_iff (entry : EvidenceEntry) (bounds : SizeBounds) :
    ((∀ other : EvidenceEntry, other.candidates ~ entry.candidates →
        other.witnesses ~ entry.witnesses → other.constraints ~ entry.constraints →
        (normalizeEntry other bounds).1 = (normalizeEntry entry bounds).1 ∧
          (normalizeEntry other bounds).2.truncations =
            (normalizeEntry entry bounds).2.truncations) ∧
      normalizeEntry (normalizeEntry entry bounds).1 bounds =
        ((normalizeEntry entry bounds).1, ⟨[], 0⟩) ∧
      validateEntryOrdering (normalizeEntry entry bounds).1 bounds = .ok ()) ↔
    Determined entry bounds := by
  have normal := normal_normalizeEntry entry bounds
  have byKey := arranges_sortByKey candidateSortKey
  have byId := arranges_sortByKey Constraint.constraintId
  rw [and_iff_left ⟨normal.normalizeEntry_eq, normal.validateEntryOrdering_ok⟩]
  constructor
  · intro alike
    simp only [normalizeEntry, truncate_fst, EvidenceEntry.mk.injEq] at alike
    exact {
      candidates := byKey.take_iff.mp fun other permuted =>
        (alike { entry with candidates := other } permuted (.refl _) (.refl _)).1.1
      witnesses := arranges_dedup.take_iff.mp fun other permuted =>
        (alike { entry with witnesses := other } (.refl _) permuted (.refl _)).1.2.1
      constraints := byId.take_iff.mp fun other permuted =>
        (alike { entry with constraints := other } (.refl _) (.refl _) permuted).1.2.2 }
  · intro determined other candidates witnesses constraints
    have lengths {α κ : Type} [LinearOrder κ] {key : α → κ} {arrange keys} {left right : List α}
        (arranges : Arranges key arrange keys) (same : left ~ right) :
        (arrange left).length = (arrange right).length := by
      simpa using congrArg List.length (arranges.map_congr same)
    constructor
    · simp only [normalizeEntry, truncate_fst, EvidenceEntry.mk.injEq]
      exact ⟨byKey.take_iff.mpr determined.candidates _ candidates,
        arranges_dedup.take_iff.mpr determined.witnesses _ witnesses,
        byId.take_iff.mpr determined.constraints _ constraints⟩
    · simp only [normalizeEntry, truncate_snd_congr (lengths byKey candidates),
        truncate_snd_congr (lengths arranges_dedup witnesses),
        truncate_snd_congr (lengths byId constraints)]

/-- Two constraints of one id keep the order in which they came. -/
theorem normalizeEntry_keeps_ties :
    let first : Constraint := ⟨"c", "first", true⟩
    let second : Constraint := ⟨"c", "second", true⟩
    [second, first] ~ [first, second] ∧
      (normalizeEntry ⟨[], [], [first, second]⟩ {}).1.constraints = [first, second] ∧
      (normalizeEntry ⟨[], [], [second, first]⟩ {}).1.constraints = [second, first] := by
  decide +kernel

end FrankenEngine.Evidence
