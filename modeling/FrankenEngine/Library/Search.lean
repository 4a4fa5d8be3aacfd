import Mathlib.Data.List.Nodup

/-!
# Searches that remember what they have seen

A search over keys is given by its body, which may search on from other keys and
passes on the keys that have been seen. The keys that are still outside of those
become fewer with each key that is added.
-/

set_option autoImplicit false

namespace FrankenEngine.Library.Search

open List

theorem find?_eq_some_iff {A K : Type} [DecidableEq K] {items : List A} {key : A → K}
    (distinct : (items.map key).Nodup) {sought : K} {item : A} :
    items.find? (key · = sought) = some item ↔ item ∈ items ∧ key item = sought := by
  constructor
  · intro found
    have same := find?_some found
    exact ⟨mem_of_find?_eq_some found, of_decide_eq_true same⟩
  · rintro ⟨member, rfl⟩
    have some_found : (items.find? (key · = key item)).isSome :=
      find?_isSome.mpr ⟨item, member, decide_eq_true rfl⟩
    obtain ⟨other, found⟩ := Option.isSome_iff_exists.mp some_found
    have same := find?_some found
    rw [found, inj_on_of_nodup_map distinct (mem_of_find?_eq_some found) member
      (of_decide_eq_true same)]

section Outside

variable {K : Type} [DecidableEq K]

def outside (keys seen : List K) : List K := keys.filter fun key => decide (key ∉ seen)

theorem length_outside_le {keys seen wider : List K} (subset : seen ⊆ wider) :
    (outside keys wider).length ≤ (outside keys seen).length := by
  apply Sublist.length_le
  apply monotone_filter_right
  intro key unseen
  rw [decide_eq_true_eq] at unseen ⊢
  exact fun member => unseen (subset member)

theorem length_outside_cons {keys seen : List K} {key : K} (member : key ∈ keys)
    (unseen : key ∉ seen) : (outside keys (key :: seen)).length < (outside keys seen).length := by
  have narrowed : outside keys (key :: seen) =
      (outside keys seen).filter fun other => decide (other ≠ key) := by
    unfold outside
    rw [filter_filter]
    apply filter_congr
    intro other _
    simp only [mem_cons, not_or, ne_eq, Bool.decide_and]
  rw [narrowed]
  apply length_filter_lt_length_iff_exists.mpr
  exact ⟨key, mem_filter.mpr ⟨member, by simpa using unseen⟩, by simp⟩

end Outside

variable {K R : Type}

/-- The search with at most the given number of nested calls. -/
def run (body : (List K → K → Option (R × List K)) → List K → K → Option (R × List K)) :
    Nat → List K → K → Option (R × List K)
  | 0, _, _ => none
  | levels + 1, seen, key => body (run body levels) seen key

end FrankenEngine.Library.Search
