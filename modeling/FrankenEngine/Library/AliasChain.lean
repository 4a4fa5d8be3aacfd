import Mathlib.Data.List.Perm.Subperm

/-!
# Alias chains

Aliases that are entered in one pass over a list of hops, each only if its
target is known by then. A name is wired when it is known from the start or has
a hop to a name that is wired by the hops in front of it: along the chain the
hops stand further and further to the front.
-/

set_option autoImplicit false

namespace FrankenEngine.Library.AliasChain

variable {Id : Type}

section Follow

variable [DecidableEq Id]

def follow (next : Id → Option Id) : Nat → List Id → Id → Id
  | 0, _, current => current
  | turns + 1, visited, current =>
    if current ∈ visited then current
    else
      match next current with
      | none => current
      | some target => follow next turns (current :: visited) target

end Follow

/-- The name leads to `last` by hops in front of the position. -/
inductive Wired (known : Id → Prop) (hops : List (Id × Id)) : Nat → Id → Id → Prop
  | known {position : Nat} {id : Id} (start : known id) : Wired known hops position id id
  | hop {position index : Nat} {id target last : Id} (listed : hops[index]? = some (id, target))
      (before : index < position) (wired : Wired known hops index target last) :
      Wired known hops position id last

variable {known : Id → Prop} {hops : List (Id × Id)} {position : Nat} {id last : Id}

namespace Wired

theorem mono (wired : Wired known hops position id last) {later : Nat} (le : position ≤ later) :
    Wired known hops later id last := by
  cases wired with
  | known start => exact .known start
  | hop listed before wired => exact .hop listed (Nat.lt_of_lt_of_le before le) wired

theorem succ_iff : Wired known hops (position + 1) id last ↔
      Wired known hops position id last ∨
        ∃ target, hops[position]? = some (id, target) ∧ Wired known hops position target last := by
  constructor
  · intro wired
    cases wired with
    | known start => exact .inl (.known start)
    | @hop _ index _ target _ listed before wired =>
      cases Nat.lt_succ_iff_lt_or_eq.mp before with
      | inl earlier => exact .inl (.hop listed earlier wired)
      | inr here =>
        subst here
        exact .inr ⟨target, listed, wired⟩
  · intro either
    cases either with
    | inl wired => exact wired.mono (Nat.le_succ position)
    | inr hop =>
      obtain ⟨target, listed, wired⟩ := hop
      exact .hop listed (Nat.lt_succ_self position) wired

end Wired

theorem index_unique (distinct : (hops.map Prod.fst).Nodup) {left right : Nat}
    {leftTarget rightTarget : Id} (listedLeft : hops[left]? = some (id, leftTarget))
    (listedRight : hops[right]? = some (id, rightTarget)) : left = right := by
  have leftName : (hops.map Prod.fst)[left]? = some id := by
    rw [List.getElem?_map, listedLeft, Option.map_some]
  have rightName : (hops.map Prod.fst)[right]? = some id := by
    rw [List.getElem?_map, listedRight, Option.map_some]
  have inside : left < (hops.map Prod.fst).length :=
    (List.getElem?_eq_some_iff.mp leftName).1
  exact (List.getElem?_inj inside distinct).mp (leftName.trans rightName.symm)

/-- Following the aliases of a wired name ends at what it leads to: no name is visited twice, so
that the number of aliased names bounds the turns. -/
theorem follow_eq_of_wired [DecidableEq Id] {next : Id → Option Id} (names : List Id)
    (distinct : (hops.map Prod.fst).Nodup)
    (ends : ∀ id, known id → next id = none ∧
      ∀ (index : Nat) (target : Id), hops[index]? ≠ some (id, target))
    (leads : ∀ {index : Nat} {id target last : Id}, hops[index]? = some (id, target) →
      Wired known hops index target last → next id = some target ∧ id ∈ names)
    (wired : Wired known hops position id last) {turns : Nat} {visited : List Id}
    (enough : names.length < turns + visited.length) (once : visited.Nodup)
    (aliased : visited ⊆ names)
    (behind : ∀ name ∈ visited, ∃ (index : Nat) (target : Id),
      position ≤ index ∧ hops[index]? = some (name, target)) :
    follow next turns visited id = last := by
  induction wired generalizing turns visited with
  | @known position id start =>
    cases turns with
    | zero => rfl
    | succ turns =>
      have fresh : id ∉ visited := by
        intro member
        obtain ⟨index, target, _, listed⟩ := behind id member
        exact (ends id start).2 index target listed
      rw [follow, if_neg fresh, (ends id start).1]
  | @hop position index id target last listed before wired ih =>
    obtain ⟨step, named⟩ := leads listed wired
    cases turns with
    | zero =>
      have bounded := (once.subperm aliased).length_le
      omega
    | succ turns =>
      have fresh : id ∉ visited := by
        intro member
        obtain ⟨other, otherTarget, le, otherListed⟩ := behind id member
        have same := index_unique distinct listed otherListed
        omega
      rw [follow, if_neg fresh, step]
      refine ih ?_ (List.nodup_cons.mpr ⟨fresh, once⟩) (List.cons_subset.mpr ⟨named, aliased⟩)
        fun name member => ?_
      · rw [List.length_cons]
        omega
      · cases member with
        | head => exact ⟨index, target, Nat.le_refl _, listed⟩
        | tail _ earlier =>
          obtain ⟨other, otherTarget, le, otherListed⟩ := behind name earlier
          exact ⟨other, otherTarget, by omega, otherListed⟩

end FrankenEngine.Library.AliasChain
