import FrankenEngine.Library.OrderedMap
import Mathlib.Data.Finset.Max

/-!
# Windows of highest keys

A log grows entry by entry. A window of a given size keeps, of all keys that
were ever logged, the highest ones, each with the value logged first. Keeping
the window up to date needs only the window itself: a new key is inserted and
the lowest keys are dropped.
-/

set_option autoImplicit false

namespace FrankenEngine.Library

open Finset OrderedMap

section Highest

variable {κ : Type} [LinearOrder κ]

/-- The `size` greatest members of a set: those with fewer than `size` members above them. -/
def highest (size : Nat) (set : Finset κ) : Finset κ :=
  set.filter fun key => (set.filter (key < ·)).card < size

theorem mem_highest {size : Nat} {set : Finset κ} {key : κ} :
    key ∈ highest size set ↔ key ∈ set ∧ (set.filter (key < ·)).card < size :=
  mem_filter

theorem highest_subset (size : Nat) (set : Finset κ) : highest size set ⊆ set :=
  filter_subset _ _

theorem highest_upward {size : Nat} {set : Finset κ} {low high : κ} (below : low ≤ high)
    (kept : low ∈ highest size set) (member : high ∈ set) : high ∈ highest size set := by
  refine mem_highest.mpr ⟨member, lt_of_le_of_lt (card_le_card ?_) (mem_highest.mp kept).2⟩
  intro key above
  obtain ⟨keyIn, beyond⟩ := mem_filter.mp above
  exact mem_filter.mpr ⟨keyIn, lt_of_le_of_lt below beyond⟩

theorem card_highest (size : Nat) (set : Finset κ) :
    (highest size set).card = min size set.card := by
  induction set using induction_on_min with
  | empty => simp [highest]
  | insert least set minimal ih =>
    have absent : least ∉ set := fun member => lt_irrefl _ (minimal least member)
    -- The members of the old set have the same members above them.
    have old : ∀ key ∈ set, (insert least set).filter (key < ·) = set.filter (key < ·) := by
      intro key member
      rw [filter_insert, if_neg (not_lt_of_gt (minimal key member))]
    have new : (insert least set).filter (least < ·) = set := by
      rw [filter_insert, if_neg (lt_irrefl least)]
      exact filter_true_of_mem minimal
    have rest : set.filter (fun key => ((insert least set).filter (key < ·)).card < size) =
        highest size set :=
      filter_congr fun key member => by rw [old key member]
    rw [highest, filter_insert, new, rest, card_insert_of_notMem absent]
    split
    next room =>
      rw [card_insert_of_notMem fun kept => absent (highest_subset _ _ kept), ih]
      omega
    next full =>
      omega

theorem highest_of_subset {size : Nat} {part set : Finset κ} (inside : part ⊆ set)
    (covers : highest size set ⊆ part) : highest size part = highest size set := by
  apply Subset.antisymm
  · intro key kept
    obtain ⟨keyIn, few⟩ := mem_highest.mp kept
    refine mem_highest.mpr ⟨inside keyIn, not_le.mp fun many => ?_⟩
    -- If too many were above, all highest members would be, and the part holds them.
    have beyond : highest size set ⊆ part.filter (key < ·) := by
      intro other otherKept
      refine mem_filter.mpr ⟨covers otherKept, not_le.mp fun below => ?_⟩
      have own := highest_upward below otherKept (inside keyIn)
      exact absurd (mem_highest.mp own).2 (not_lt.mpr many)
    have enough := card_le_card beyond
    have all : size ≤ set.card := many.trans (card_le_card (filter_subset _ _))
    rw [card_highest, min_eq_left all] at enough
    omega
  · intro key kept
    refine mem_highest.mpr ⟨covers kept, lt_of_le_of_lt ?_ (mem_highest.mp kept).2⟩
    exact card_le_card (filter_subset_filter _ inside)

theorem highest_insert (size : Nat) (key : κ) (set : Finset κ) :
    highest size (insert key (highest size set)) = highest size (insert key set) := by
  refine highest_of_subset (insert_subset_insert _ (highest_subset _ _)) ?_
  intro other kept
  obtain ⟨member, few⟩ := mem_highest.mp kept
  cases mem_insert.mp member with
  | inl same => exact same ▸ mem_insert_self _ _
  | inr old =>
    refine mem_insert_of_mem (mem_highest.mpr ⟨old, lt_of_le_of_lt ?_ few⟩)
    exact card_le_card (filter_subset_filter _ (subset_insert _ _))

variable {ν : Type}

theorem Ascending.mem_drop_iff {size : Nat} {entries : List (κ × ν)} (ascending : Ascending entries)
    {entry : κ × ν} : entry ∈ entries.drop (entries.length - size) ↔
      entry ∈ entries ∧ entry.1 ∈ highest size (entries.map (·.1)).toFinset := by
  by_cases member : entry ∈ entries
  · obtain ⟨left, right, rfl⟩ := List.append_of_mem member
    obtain ⟨-, ordered, between⟩ := List.pairwise_append.mp ascending
    obtain ⟨higher, rightAscending⟩ := List.pairwise_cons.mp ordered
    have above : ((left ++ entry :: right).map (·.1)).toFinset.filter (entry.1 < ·) =
        (right.map (·.1)).toFinset := by
      ext key
      simp only [mem_filter, List.mem_toFinset, List.mem_map, List.mem_append, List.mem_cons]
      constructor
      · rintro ⟨⟨other, lower | rfl | upper, rfl⟩, above⟩
        · exact absurd (between other lower entry (.head _)) above.asymm
        · exact absurd above (lt_irrefl _)
        · exact ⟨other, upper, rfl⟩
      · rintro ⟨other, upper, rfl⟩
        exact ⟨⟨other, .inr (.inr upper), rfl⟩, higher other upper⟩
    have count : (right.map (·.1)).toFinset.card = right.length := by
      rw [List.toFinset_card_of_nodup, List.length_map]
      exact List.pairwise_map.mpr (rightAscending.imp ne_of_lt)
    have known : entry.1 ∈ ((left ++ entry :: right).map (·.1)).toFinset :=
      List.mem_toFinset.mpr (List.mem_map_of_mem member)
    rw [mem_highest, above, count, and_iff_right member, and_iff_right known, List.length_append,
      List.length_cons, List.drop_append, List.mem_append]
    by_cases room : right.length < size
    · have none : left.length + (right.length + 1) - size - left.length = 0 := by omega
      rw [none]
      exact iff_of_true (.inr (.head _)) room
    · have more : left.length + (right.length + 1) - size - left.length =
        right.length - size + 1 := by omega
      rw [more, List.drop_succ_cons]
      refine iff_of_false ?_ room
      rintro (lower | upper)
      · exact lt_irrefl _ (between entry (List.mem_of_mem_drop lower) entry (.head _))
      · exact lt_irrefl _ (higher entry (List.mem_of_mem_drop upper))
  · exact iff_of_false (fun kept => member (List.mem_of_mem_drop kept)) fun kept => member kept.1

end Highest

namespace OrderedMap

variable {κ ν : Type} [LinearOrder κ]

def trim (size : Nat) (map : OrderedMap κ ν) : OrderedMap κ ν :=
  ⟨map.entries.drop (map.entries.length - size), map.ascending.drop⟩

theorem get?_trim (size : Nat) (map : OrderedMap κ ν) (key : κ) : (map.trim size).get? key =
      if key ∈ highest size map.keys.toFinset then map.get? key else none := by
  refine Option.ext fun value => ?_
  rw [get?, (map.trim size).ascending.lookup_eq_some_iff, trim, map.ascending.mem_drop_iff]
  split
  next kept => rw [get?, map.ascending.lookup_eq_some_iff]; exact and_iff_left kept
  next dropped =>
    constructor
    · intro held
      exact absurd held.2 dropped
    · intro found
      cases found

end OrderedMap

section Window

variable {κ ν : Type} [LinearOrder κ]

/-- The window of `size` over a log: the highest keys, each with the value logged first. -/
def windowOf (size : Nat) (log : List (κ × ν)) (key : κ) : Option ν :=
  if key ∈ highest size (log.map (·.1)).toFinset then log.lookup key else none

variable {log : List (κ × ν)} {key : κ}

theorem lookup_isSome_iff : (log.lookup key).isSome ↔ key ∈ (log.map (·.1)).toFinset := by
  simp [List.lookup_isSome_iff]

theorem windowOf_eq_some {size : Nat} {value : ν} (found : windowOf size log key = some value) :
    key ∈ highest size (log.map (·.1)).toFinset ∧ log.lookup key = some value := by
  unfold windowOf at found
  split at found
  next kept => exact ⟨kept, found⟩
  next => cases found

theorem notMem_highest_of_windowOf_none {size : Nat} (missing : windowOf size log key = none) :
    key ∉ highest size (log.map (·.1)).toFinset := by
  intro kept
  rw [windowOf, if_pos kept] at missing
  have known := lookup_isSome_iff.mpr (highest_subset _ _ kept)
  rw [missing] at known
  cases known

variable {size : Nat} {log : List (κ × ν)} {map : OrderedMap κ ν}

theorem windowOf_append_held {held : ν} (value : ν) (found : windowOf size log key = some held) :
    windowOf size (log ++ [(key, value)]) = windowOf size log := by
  have known : key ∈ (log.map (·.1)).toFinset :=
    highest_subset _ _ (windowOf_eq_some found).1
  have keys : ((log ++ [(key, value)]).map (·.1)).toFinset = (log.map (·.1)).toFinset := by
    simpa using known
  funext other
  unfold windowOf
  rw [keys, List.lookup_append]
  split
  next kept =>
    obtain ⟨first, same⟩ := Option.isSome_iff_exists.mp
      (lookup_isSome_iff.mpr (highest_subset _ _ kept))
    rw [same, Option.some_or]
  next => rfl

theorem get?_trim_insert (holds : ∀ key, map.get? key = windowOf size log key)
    (missing : windowOf size log key = none) (value : ν) (other : κ) :
    ((map.insert key value).trim size).get? other = windowOf size (log ++ [(key, value)]) other := by
  have held : map.keys.toFinset = highest size (log.map (·.1)).toFinset := by
    ext known
    rw [List.mem_toFinset, mem_keys_iff, holds, windowOf]
    split
    next kept => exact iff_of_true (lookup_isSome_iff.mpr (highest_subset _ _ kept)) kept
    next dropped => simpa using dropped
  have inserted : (map.insert key value).keys.toFinset = insert key map.keys.toFinset := by
    ext known
    rw [List.mem_toFinset, mem_keys_iff, get?_insert, mem_insert, List.mem_toFinset, mem_keys_iff]
    split
    next same => simp [same]
    next different => simp [different]
  have logged : ((log ++ [(key, value)]).map (·.1)).toFinset =
      insert key (log.map (·.1)).toFinset := by
    rw [List.map_append, List.toFinset_append, union_comm]
    rfl
  rw [get?_trim, inserted, held, highest_insert, ← logged]
  conv_rhs => unfold windowOf
  split
  next kept =>
    rw [get?_insert, List.lookup_append]
    by_cases same : other = key
    · subst same
      -- The key was never logged: below the window it would not be among the highest now.
      have fresh : log.lookup other = none := by
        cases known : log.lookup other with
        | none => rfl
        | some first =>
          have member : other ∈ (log.map (·.1)).toFinset :=
            lookup_isSome_iff.mp (Option.isSome_iff_exists.mpr ⟨first, known⟩)
          rw [logged, insert_eq_of_mem member] at kept
          exact absurd kept (notMem_highest_of_windowOf_none missing)
      simp [fresh]
    · have before : other ∈ highest size (log.map (·.1)).toFinset := by
        rw [logged, ← highest_insert] at kept
        exact (mem_insert.mp (highest_subset _ _ kept)).resolve_left same
      rw [if_neg same, holds, windowOf, if_pos before]
      simp [List.lookup_cons, beq_false_of_ne same]
  next => rfl

end Window

end FrankenEngine.Library
