import Mathlib.Algebra.Ring.Nat
import Mathlib.Data.List.Basic
import Mathlib.Data.List.Lookmap
import Mathlib.Order.Lattice

/-!
# Ordered maps

A map kept as its entries in ascending key order. The operations are stated on
bare entry lists first, so that a syntax tree which nests its own maps can use
them, and then on maps that carry their ordering.
-/

set_option autoImplicit false

namespace FrankenEngine.Library

open List

section Entries

variable {κ ν : Type} [LinearOrder κ]

/-- Keys rise strictly along the list, so each key has at most one entry. -/
def Ascending (entries : List (κ × ν)) : Prop :=
  entries.Pairwise fun left right => left.1 < right.1

instance (entries : List (κ × ν)) : Decidable (Ascending entries) :=
  inferInstanceAs (Decidable (entries.Pairwise fun left right => left.1 < right.1))

def insertEntry (key : κ) (value : ν) : List (κ × ν) → List (κ × ν)
  | [] => [(key, value)]
  | entry :: rest =>
    if key < entry.1 then (key, value) :: entry :: rest
    else if entry.1 < key then entry :: insertEntry key value rest
    else (key, value) :: rest

def eraseEntry (key : κ) (entries : List (κ × ν)) : List (κ × ν) :=
  entries.filter fun entry => decide (entry.1 ≠ key)

variable {entries : List (κ × ν)}

theorem mem_insertEntry {key : κ} {value : ν} {entry : κ × ν}
    (member : entry ∈ insertEntry key value entries) : entry = (key, value) ∨ entry ∈ entries := by
  induction entries with
  | nil => simpa [insertEntry] using member
  | cons head rest ih =>
    simp only [insertEntry] at member
    split at member
    · simpa using member
    · split at member
      · rcases mem_cons.mp member with rfl | member
        · exact .inr (.head _)
        · rcases ih member with same | present
          · exact .inl same
          · exact .inr (.tail _ present)
      · rcases mem_cons.mp member with rfl | member
        · exact .inl rfl
        · exact .inr (.tail _ member)

theorem Ascending.insertEntry (ascending : Ascending entries) (key : κ) (value : ν) :
    Ascending (insertEntry key value entries) := by
  induction entries with
  | nil => exact pairwise_singleton _ _
  | cons head rest ih =>
    obtain ⟨below, tail⟩ := pairwise_cons.mp ascending
    simp only [Library.insertEntry]
    split
    · next smaller =>
      refine pairwise_cons.mpr ⟨?_, ascending⟩
      intro entry member
      rcases mem_cons.mp member with rfl | member
      · exact smaller
      · exact lt_trans smaller (below entry member)
    · split
      · next larger =>
        refine pairwise_cons.mpr ⟨?_, ih tail⟩
        intro entry member
        rcases mem_insertEntry member with rfl | member
        · exact larger
        · exact below entry member
      · next notSmaller notLarger =>
        have same : head.1 = key := le_antisymm (not_lt.mp notSmaller) (not_lt.mp notLarger)
        refine pairwise_cons.mpr ⟨?_, tail⟩
        intro entry member
        rw [← same]
        exact below entry member

theorem Ascending.eraseEntry (ascending : Ascending entries) (key : κ) :
    Ascending (eraseEntry key entries) :=
  ascending.filter _

theorem Ascending.map_value {μ : Type} (ascending : Ascending entries) (change : ν → μ) :
    Ascending (entries.map fun entry => (entry.1, change entry.2)) := by
  unfold Ascending
  rw [pairwise_map]
  exact ascending

theorem insertEntry_above {key : κ} {value : ν} (above : ∀ entry ∈ entries, entry.1 < key) :
    insertEntry key value entries = entries ++ [(key, value)] := by
  induction entries with
  | nil => rfl
  | cons head rest ih =>
    have larger : head.1 < key := above head (.head _)
    have tail := ih fun entry member => above entry (.tail _ member)
    simp [insertEntry, larger, not_lt_of_gt larger, tail]

theorem lookup_insertEntry_self (key : κ) (value : ν) (entries : List (κ × ν)) :
    (insertEntry key value entries).lookup key = some value := by
  induction entries with
  | nil => simp [insertEntry]
  | cons head rest ih =>
    simp only [insertEntry]
    split
    · simp
    · split
      · next larger =>
        rw [lookup_cons, beq_false_of_ne (ne_of_gt larger)]
        exact ih
      · simp

theorem lookup_insertEntry_of_ne {key other : κ} (different : other ≠ key) (value : ν)
    (entries : List (κ × ν)) :
    (insertEntry key value entries).lookup other = entries.lookup other := by
  induction entries with
  | nil => simpa [insertEntry] using different
  | cons head rest ih =>
    simp only [insertEntry]
    split
    · rw [lookup_cons, beq_false_of_ne different]
    · split
      · rw [lookup_cons, lookup_cons, ih]
      · next notSmaller notLarger =>
        have same : head.1 = key := le_antisymm (not_lt.mp notSmaller) (not_lt.mp notLarger)
        have headDifferent : (other == head.1) = false := beq_false_of_ne (same ▸ different)
        rw [lookup_cons, lookup_cons, beq_false_of_ne different, headDifferent]

theorem lookup_eraseEntry (key other : κ) (entries : List (κ × ν)) :
    (eraseEntry key entries).lookup other =
      if other = key then none else entries.lookup other := by
  induction entries with
  | nil => simp [eraseEntry]
  | cons head rest ih =>
    simp only [eraseEntry] at ih ⊢
    by_cases dropped : head.1 = key
    · rw [filter_cons_of_neg (by simp [dropped]), ih, lookup_cons]
      by_cases same : other = key
      · simp [same]
      · have headDifferent : (other == head.1) = false :=
          beq_false_of_ne (dropped.symm ▸ same)
        simp [same, headDifferent]
    · rw [filter_cons_of_pos (by simp [dropped]), lookup_cons, lookup_cons, ih]
      by_cases same : other = head.1
      · simp [same, dropped]
      · simp [beq_false_of_ne same]

theorem lookup_map_value {μ : Type} (change : ν → μ) (key : κ) (entries : List (κ × ν)) :
    (entries.map fun entry => (entry.1, change entry.2)).lookup key =
      (entries.lookup key).map change := by
  induction entries with
  | nil => rfl
  | cons head rest ih =>
    rw [map_cons, lookup_cons, lookup_cons, ih]
    cases key == head.1 <;> rfl

theorem Ascending.lookup_eq_some_iff (ascending : Ascending entries) {key : κ} {value : ν} :
    entries.lookup key = some value ↔ (key, value) ∈ entries := by
  induction entries with
  | nil => simp
  | cons head rest ih =>
    obtain ⟨below, tail⟩ := pairwise_cons.mp ascending
    rw [lookup_cons, mem_cons]
    by_cases same : key = head.1
    · have absent : (key, value) ∉ rest := fun member => (below _ member).ne same.symm
      simp only [same, beq_self_eq_true, Option.some.injEq]
      constructor
      · rintro rfl
        exact .inl rfl
      · rintro (equal | member)
        · exact (congrArg Prod.snd equal).symm
        · exact absurd (same ▸ member) absent
    · rw [beq_false_of_ne same]
      constructor
      · intro found
        exact .inr ((ih tail).mp found)
      · rintro (equal | member)
        · exact absurd (congrArg Prod.fst equal) same
        · exact (ih tail).mpr member

theorem Ascending.sum_insertEntry (ascending : Ascending entries) (weight : ν → Nat) (key : κ)
    (value : ν) : ((Library.insertEntry key value entries).map fun entry => weight entry.2).sum +
        (entries.lookup key).elim 0 weight =
      (entries.map fun entry => weight entry.2).sum + weight value := by
  induction entries with
  | nil => simp [Library.insertEntry]
  | cons head rest ih =>
    obtain ⟨below, tail⟩ := pairwise_cons.mp ascending
    rcases lt_trichotomy key head.1 with before | same | after
    · have absent : (head :: rest).lookup key = none := by
        refine Option.eq_none_iff_forall_ne_some.mpr fun old found => ?_
        rcases mem_cons.mp ((Ascending.lookup_eq_some_iff ascending).mp found) with
          own | later
        · exact before.ne (congrArg Prod.fst own)
        · exact (before.trans (below _ later)).ne rfl
      rw [Library.insertEntry, if_pos before, absent]
      simp only [map_cons, sum_cons, Option.elim_none]
      omega
    · have found : (head :: rest).lookup key = some head.2 := by
        rw [lookup_cons, same, beq_self_eq_true]
      rw [Library.insertEntry, if_neg same.not_lt, if_neg same.not_gt, found]
      simp only [map_cons, sum_cons, Option.elim_some]
      omega
    · have skipped : (head :: rest).lookup key = rest.lookup key := by
        rw [lookup_cons, beq_false_of_ne after.ne']
      rw [Library.insertEntry, if_neg after.not_gt, if_pos after, skipped]
      have others := ih tail
      simp only [map_cons, sum_cons]
      omega

theorem Ascending.eq_of_lookup_eq {left right : List (κ × ν)} (leftAscending : Ascending left)
    (rightAscending : Ascending right) (same : ∀ key, left.lookup key = right.lookup key) :
    left = right := by
  have members (entry : κ × ν) : entry ∈ left ↔ entry ∈ right := by
    rw [← leftAscending.lookup_eq_some_iff, ← rightAscending.lookup_eq_some_iff, same]
  have permuted := (perm_ext_iff_of_nodup
    (leftAscending.imp fun below => ne_of_apply_ne Prod.fst below.ne)
    (rightAscending.imp fun below => ne_of_apply_ne Prod.fst below.ne)).mpr members
  refine permuted.eq_of_pairwise ?_ leftAscending rightAscending
  intro first second _ _ below above
  exact absurd below above.asymm

end Entries

structure OrderedMap (κ ν : Type) [LinearOrder κ] where
  entries : List (κ × ν)
  ascending : Ascending entries

namespace OrderedMap

variable {κ ν : Type} [LinearOrder κ]

instance [DecidableEq ν] : DecidableEq (OrderedMap κ ν) := fun left right =>
  decidable_of_iff (left.entries = right.entries) (by cases left; cases right; simp)

def empty : OrderedMap κ ν := ⟨[], .nil⟩

def get? (map : OrderedMap κ ν) (key : κ) : Option ν := map.entries.lookup key

def insert (map : OrderedMap κ ν) (key : κ) (value : ν) : OrderedMap κ ν :=
  ⟨insertEntry key value map.entries, map.ascending.insertEntry key value⟩

def erase (map : OrderedMap κ ν) (key : κ) : OrderedMap κ ν :=
  ⟨eraseEntry key map.entries, map.ascending.eraseEntry key⟩

def mapValues (map : OrderedMap κ ν) (change : ν → ν) : OrderedMap κ ν :=
  ⟨map.entries.map fun entry => (entry.1, change entry.2), map.ascending.map_value change⟩

def modify (map : OrderedMap κ ν) (key : κ) (change : ν → ν) : OrderedMap κ ν :=
  match map.get? key with
  | some value => map.insert key (change value)
  | none => map

def retain (map : OrderedMap κ ν) (keep : κ → ν → Bool) : OrderedMap κ ν :=
  ⟨map.entries.filter fun entry => keep entry.1 entry.2, map.ascending.filter _⟩

def keys (map : OrderedMap κ ν) : List κ := map.entries.map (·.1)

def values (map : OrderedMap κ ν) : List ν := map.entries.map (·.2)

variable (map : OrderedMap κ ν)

include map

theorem get?_insert (key other : κ) (value : ν) :
    (map.insert key value).get? other = if other = key then some value else map.get? other := by
  split
  · next same => rw [same]; exact lookup_insertEntry_self key value map.entries
  · next different => exact lookup_insertEntry_of_ne different value map.entries

theorem get?_erase (key other : κ) :
    (map.erase key).get? other = if other = key then none else map.get? other :=
  lookup_eraseEntry key other map.entries

theorem get?_retain (keep : κ → ν → Bool) (key : κ) :
    (map.retain keep).get? key = (map.get? key).filter (keep key) := by
  refine Option.ext fun value => ?_
  have kept : (map.retain keep).get? key = some value ↔
      map.get? key = some value ∧ keep key value = true := by
    rw [get?, (map.retain keep).ascending.lookup_eq_some_iff, get?,
      map.ascending.lookup_eq_some_iff]
    exact mem_filter
  rw [kept, Option.filter_eq_some_iff]

@[simp] theorem get?_mapValues (change : ν → ν) (key : κ) :
    (map.mapValues change).get? key = (map.get? key).map change :=
  lookup_map_value change key map.entries

@[simp] theorem values_mapValues (change : ν → ν) :
    (map.mapValues change).values = map.values.map change := by
  rw [values, values, mapValues, map_map, map_map]
  rfl

theorem get?_modify (key other : κ) (change : ν → ν) : (map.modify key change).get? other =
      if other = key then (map.get? other).map change else map.get? other := by
  unfold modify
  split
  next value found =>
    rw [get?_insert]
    split
    next same => rw [same, found, Option.map_some]
    next => rfl
  next missing =>
    split
    next same => rw [same, missing, Option.map_none]
    next => rfl

omit map

theorem ext_get? {left right : OrderedMap κ ν} (same : ∀ key, left.get? key = right.get? key) :
    left = right := by
  obtain ⟨entries, ascending⟩ := left
  obtain ⟨others, othersAscending⟩ := right
  obtain rfl := ascending.eq_of_lookup_eq othersAscending same
  rfl

theorem sum_values_insert (map : OrderedMap κ ν) (weight : ν → Nat) (key : κ) (value : ν) :
    ((map.insert key value).values.map weight).sum + (map.get? key).elim 0 weight =
      (map.values.map weight).sum + weight value := by
  rw [values, values, map_map, map_map]
  exact map.ascending.sum_insertEntry weight key value

theorem countP_values_insert (map : OrderedMap κ ν) (test : ν → Bool) (key : κ) (value : ν) :
    (map.insert key value).values.countP test + ((map.get? key).elim 0 fun old => (test old).toNat) =
      map.values.countP test + (test value).toNat := by
  have counted : ∀ values : List ν, values.countP test = (values.map fun held => (test held).toNat).sum := by
    intro values
    induction values with
    | nil => rfl
    | cons held rest ih =>
      rw [countP_cons, map_cons, sum_cons, ih, Nat.add_comm]
      cases test held <;> rfl
  rw [counted, counted]
  exact map.sum_values_insert _ key value

variable {map : OrderedMap κ ν}

theorem insert_of_get? {key : κ} {value : ν} (held : map.get? key = some value) :
    map.insert key value = map := by
  refine ext_get? fun other => ?_
  rw [get?_insert]
  split
  next same => rw [same, held]
  next => rfl

theorem sum_values_retain (map : OrderedMap κ ν) (keep : κ → ν → Bool) (weight : ν → Nat) :
    ((map.retain keep).values.map weight).sum +
        ((map.retain fun key value => !keep key value).values.map weight).sum =
      (map.values.map weight).sum := by
  rw [values, values, values, map_map, map_map, map_map, ← sum_append, ← map_append]
  exact ((filter_append_perm _ map.entries).map _).sum_nat

theorem entries_foldl_erase_take (count : Nat) (map : OrderedMap κ ν) :
    ((map.keys.take count).foldl erase map).entries = map.entries.drop count := by
  induction count generalizing map with
  | zero => rfl
  | succ count ih =>
    obtain ⟨entries, ascending⟩ := map
    cases entries with
    | nil => rfl
    | cons first rest =>
      obtain ⟨below, restAscending⟩ := pairwise_cons.mp ascending
      have erased : erase ⟨first :: rest, ascending⟩ first.1 = ⟨rest, restAscending⟩ := by
        have kept : eraseEntry first.1 (first :: rest) = rest := by
          rw [eraseEntry, filter_cons_of_neg (by simp)]
          refine filter_eq_self.mpr fun entry member => ?_
          exact decide_eq_true (ne_of_gt (below entry member))
        simp [erase, kept]
      have next := ih ⟨rest, restAscending⟩
      simpa [keys, erased] using next

theorem mem_values_of_get? {key : κ} {value : ν} (found : map.get? key = some value) :
    value ∈ map.values :=
  mem_map_of_mem (map.ascending.lookup_eq_some_iff.mp found)

theorem mem_keys_iff {key : κ} : key ∈ map.keys ↔ (map.get? key).isSome := by
  rw [Option.isSome_iff_exists, keys, mem_map]
  constructor
  · rintro ⟨⟨found, value⟩, member, rfl⟩
    exact ⟨value, map.ascending.lookup_eq_some_iff.mpr member⟩
  · rintro ⟨value, found⟩
    exact ⟨(key, value), map.ascending.lookup_eq_some_iff.mp found, rfl⟩

theorem mem_keys_insert {key other : κ} {value : ν} :
    other ∈ (map.insert key value).keys ↔ other = key ∨ other ∈ map.keys := by
  rw [mem_keys_iff, mem_keys_iff, get?_insert]
  split
  next same => simp [same]
  next different => simp [different]

theorem nodup_keys (map : OrderedMap κ ν) : map.keys.Nodup :=
  Pairwise.map _ (fun _ _ below => below.ne) map.ascending

theorem perm_keys_insert {key : κ} (fresh : key ∉ map.keys) (value : ν) :
    (map.insert key value).keys.Perm (key :: map.keys) := by
  refine (perm_ext_iff_of_nodup (nodup_keys _) ?_).mpr fun other => ?_
  · exact nodup_cons.mpr ⟨fresh, map.nodup_keys⟩
  · rw [mem_keys_insert, mem_cons]

theorem length_keys_insert {key : κ} (fresh : key ∉ map.keys) (value : ν) :
    (map.insert key value).keys.length = map.keys.length + 1 :=
  (perm_keys_insert fresh value).length_eq

theorem mem_values_iff {value : ν} : value ∈ map.values ↔ ∃ key, map.get? key = some value := by
  constructor
  · intro member
    obtain ⟨⟨key, held⟩, entry, rfl⟩ := mem_map.mp member
    exact ⟨key, map.ascending.lookup_eq_some_iff.mpr entry⟩
  · rintro ⟨key, found⟩
    exact mem_values_of_get? found

theorem get?_foldl_entries {μ : Type} {update : OrderedMap κ ν → κ → μ → OrderedMap κ ν}
    (combine : Option ν → μ → Option ν)
    (updates : ∀ held key value other, (update held key value).get? other =
      if other = key then combine (held.get? key) value else held.get? other)
    {entries : List (κ × μ)} (ascending : Ascending entries) (start : OrderedMap κ ν) (key : κ) :
    (entries.foldl (fun held entry => update held entry.1 entry.2) start).get? key =
      (entries.lookup key).elim (start.get? key) (combine (start.get? key)) := by
  induction entries generalizing start with
  | nil => rfl
  | cons entry rest ih =>
    obtain ⟨above, ascendingRest⟩ := pairwise_cons.mp ascending
    rw [foldl_cons, ih ascendingRest, updates, lookup_cons]
    by_cases own : key = entry.1
    · have absent : rest.lookup key = none := by
        cases found : rest.lookup key with
        | none => rfl
        | some value =>
          have later := above _ (Ascending.lookup_eq_some_iff ascendingRest |>.mp found)
          exact absurd own (ne_of_gt later)
      rw [absent, if_pos own, own]
      simp
    · have apart : (key == entry.1) = false := beq_false_of_ne own
      simp [own, apart]

theorem get?_of_retain {keep : κ → ν → Bool} {key : κ} {value : ν}
    (kept : (map.retain keep).get? key = some value) : map.get? key = some value := by
  rw [get?_retain, Option.filter_eq_some_iff] at kept
  exact kept.1

theorem forall_get?_insert {added : κ} {value : ν} {Good : κ → ν → Prop}
    (old : ∀ key held, map.get? key = some held → Good key held) (new : Good added value) :
    ∀ key held, (map.insert added value).get? key = some held → Good key held := by
  intro key held found
  rw [get?_insert] at found
  split at found
  next same =>
    cases found
    exact same ▸ new
  next => exact old key held found

section Keyed

def Keyed (keyOf : ν → κ) (map : OrderedMap κ ν) : Prop :=
  ∀ ⦃key value⦄, map.get? key = some value → keyOf value = key

variable {keyOf : ν → κ} {map : OrderedMap κ ν}

theorem keyed_empty : Keyed keyOf (empty : OrderedMap κ ν) := by
  intro key value found
  cases found

variable (keyed : Keyed keyOf map)

include keyed

theorem Keyed.insert {key : κ} {value : ν} (own : keyOf value = key) :
    Keyed keyOf (map.insert key value) := by
  intro other held
  exact forall_get?_insert (fun _ _ found => keyed found) own other held

theorem Keyed.mem_values_iff {value : ν} :
    value ∈ map.values ↔ map.get? (keyOf value) = some value := by
  constructor
  · intro member
    obtain ⟨key, found⟩ := OrderedMap.mem_values_iff.mp member
    rw [keyed found]
    exact found
  · exact mem_values_of_get?

theorem Keyed.nodup_values : (map.values.map keyOf).Nodup := by
  have own : map.values.map keyOf = map.keys := by
    rw [values, map_map]
    refine map_congr_left fun entry member => ?_
    exact keyed (map.ascending.lookup_eq_some_iff.mpr member)
  rw [own]
  exact pairwise_map.mpr (map.ascending.imp ne_of_lt)

omit keyed

theorem get?_foldl_insert {values : List ν}
    (functional : ∀ left ∈ values, ∀ right ∈ values, keyOf left = keyOf right → left = right)
    (key : κ) (value : ν) :
    (values.foldl (fun held next => held.insert (keyOf next) next) empty).get? key = some value ↔
      value ∈ values ∧ keyOf value = key := by
  have last : ∀ start : OrderedMap κ ν,
      (values.foldl (fun held next => held.insert (keyOf next) next) start).get? key =
        (values.reverse.find? (keyOf · = key)).or (start.get? key) := by
    clear functional
    induction values with
    | nil => exact fun _ => rfl
    | cons first rest ih =>
      intro start
      rw [foldl_cons, ih, get?_insert, reverse_cons, find?_append, Option.or_assoc]
      by_cases own : key = keyOf first <;> simp [own, eq_comm]
  rw [last, show (empty : OrderedMap κ ν).get? key = none from rfl, Option.or_none]
  have sound : ∀ {other}, values.reverse.find? (keyOf · = key) = some other →
      other ∈ values ∧ keyOf other = key := fun found =>
    ⟨mem_reverse.mp (mem_of_find?_eq_some found), by simpa using find?_some found⟩
  refine ⟨sound, ?_⟩
  rintro ⟨member, rfl⟩
  have some_found : (values.reverse.find? (keyOf · = keyOf value)).isSome := by
    rw [find?_isSome]
    exact ⟨value, mem_reverse.mpr member, by simp⟩
  obtain ⟨other, found⟩ := Option.isSome_iff_exists.mp some_found
  rw [found, functional other (sound found).1 value member (sound found).2]

theorem Keyed.foldl_insert_values (keyed : Keyed keyOf map) {values : List ν}
    (same : ∀ value, value ∈ values ↔ value ∈ map.values) :
    values.foldl (fun held next => held.insert (keyOf next) next) empty = map := by
  have stored : ∀ {value}, value ∈ values ↔ map.get? (keyOf value) = some value := fun {value} =>
    (same value).trans keyed.mem_values_iff
  have functional : ∀ left ∈ values, ∀ right ∈ values, keyOf left = keyOf right →
      left = right := by
    intro left leftIn right rightIn keys
    have found := stored.mp leftIn
    rw [keys, stored.mp rightIn] at found
    exact (Option.some.inj found).symm
  refine ext_get? fun key => Option.ext fun value => ?_
  rw [get?_foldl_insert functional]
  constructor
  · rintro ⟨member, rfl⟩
    exact stored.mp member
  · intro found
    obtain rfl := keyed found
    exact ⟨stored.mpr found, rfl⟩

end Keyed

end OrderedMap

/-- A set is a map whose values say nothing. -/
abbrev OrderedSet (κ : Type) [LinearOrder κ] := OrderedMap κ Unit

def OrderedMap.ofKeys {κ : Type} [LinearOrder κ] (keys : List κ) : OrderedSet κ :=
  keys.foldl (fun held key => held.insert key ()) .empty

theorem OrderedMap.mem_keys_foldl_insert {κ : Type} [LinearOrder κ] {keys : List κ}
    {held : OrderedSet κ} {key : κ} :
    key ∈ (keys.foldl (fun held key => held.insert key ()) held).keys ↔
      key ∈ held.keys ∨ key ∈ keys := by
  induction keys generalizing held with
  | nil => simp
  | cons first rest ih =>
    rw [foldl_cons, ih, mem_keys_insert, mem_cons]
    exact or_assoc.trans or_left_comm

theorem OrderedMap.ext_keys {κ : Type} [LinearOrder κ] {left right : OrderedSet κ}
    (same : ∀ key, key ∈ left.keys ↔ key ∈ right.keys) : left = right := by
  refine ext_get? fun key => ?_
  have iff := same key
  rw [mem_keys_iff, mem_keys_iff] at iff
  cases found : left.get? key <;> cases other : right.get? key <;> simp_all

theorem OrderedMap.mem_keys_ofKeys {κ : Type} [LinearOrder κ] {keys : List κ} {key : κ} :
    key ∈ (OrderedMap.ofKeys keys).keys ↔ key ∈ keys := by
  rw [ofKeys, mem_keys_foldl_insert]
  simp [OrderedMap.keys, OrderedMap.empty]

end FrankenEngine.Library
