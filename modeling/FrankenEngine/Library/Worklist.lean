import FrankenEngine.Library.Search
import Mathlib.Logic.Relation

/-!
# Worklists

The search for all that leads to a vertex: take a vertex from the list, go
through all keys and put those that point to it on the list, each once. It finds
exactly the keys from which there is a path to the start.
-/

set_option autoImplicit false

namespace FrankenEngine.Library.Worklist

open List

variable {V : Type} [DecidableEq V] (keys : List V) (points : V → V → Bool)

/-- One key of the inner loop: what is found, and what is still to be taken from the list. -/
def consider (current : V) (state : List V × List V) (key : V) : List V × List V :=
  if key ∈ state.1 ∨ key = current then state
  else if points key current then (key :: state.1, key :: state.2)
  else state

def expand (current : V) (found pending : List V) : List V × List V :=
  keys.foldl (consider points current) (found, pending)

def run : Nat → List V → List V → List V
  | 0, found, _ => found
  | _ + 1, found, [] => found
  | turns + 1, found, current :: pending =>
    let next := expand keys points current found pending
    run turns next.1 next.2

/-- Every key is put on the list at most once, after the start. -/
def leadingTo (start : V) : List V := run keys points (keys.length + 1) [] [start]

variable {keys points}

/-- What one turn adds: new keys that point to the current vertex, to both lists. -/
structure Adds (keys : List V) (points : V → V → Bool) (current : V) (found pending : List V)
    (next : List V × List V) : Prop where
  exists_new : ∃ new, next = (new ++ found, new ++ pending) ∧ ∀ key ∈ new,
    key ∈ keys ∧ points key current = true
  room : next.2.length + (Search.outside keys next.1).length ≤
    pending.length + (Search.outside keys found).length

variable {current key : V} {found pending : List V}

theorem adds_consider {state : List V × List V} (isKey : key ∈ keys)
    (adds : Adds keys points current found pending state) :
    Adds keys points current found pending (consider points current state key) := by
  unfold consider
  split
  · exact adds
  · next fresh =>
    split
    · next pointing =>
      obtain ⟨new, rfl, each⟩ := adds.exists_new
      have outside : key ∉ new ++ found := fun member => fresh (.inl member)
      have narrower := Search.length_outside_cons isKey outside
      have room := adds.room
      refine ⟨⟨key :: new, rfl, ?_⟩, ?_⟩
      · intro other member
        cases member with
        | head => exact ⟨isKey, pointing⟩
        | tail _ earlier => exact each other earlier
      · simp only [length_cons] at room ⊢
        omega
    · exact adds

theorem adds_expand (keys : List V) (points : V → V → Bool) (current : V)
    (found pending : List V) :
    Adds keys points current found pending (expand keys points current found pending) := by
  have start : Adds keys points current found pending (found, pending) :=
    ⟨⟨[], rfl, by simp⟩, Nat.le_refl _⟩
  exact foldlRecOn keys _ start fun _ adds _ member => adds_consider member adds

theorem subset_foldl_consider (current : V) (rest : List V) (state : List V × List V) :
    state.1 ⊆ (rest.foldl (consider points current) state).1 := by
  refine foldlRecOn (motive := fun reached : List V × List V => state.1 ⊆ reached.1) rest _
    (Subset.refl _) fun reached subset key _ => ?_
  unfold consider
  split
  · exact subset
  · split
    · exact subset_cons_of_subset _ subset
    · exact subset

theorem mem_expand (isKey : key ∈ keys) (pointing : points key current = true)
    (different : key ≠ current) : key ∈ (expand keys points current found pending).1 := by
  obtain ⟨before, after, split⟩ := append_of_mem isKey
  have here : ∀ state : List V × List V, key ∈ (consider points current state key).1 := by
    intro state
    unfold consider
    split
    · next either => exact either.resolve_right different
    · exact .head _
  unfold expand
  rw [split, foldl_append, foldl_cons]
  exact subset_foldl_consider current after _ (here _)

def Leads (keys : List V) (points : V → V → Bool) : V → V → Prop :=
  Relation.TransGen fun key target => key ∈ keys ∧ points key target = true

variable {start : V}

theorem leads_of_mem_run {turns : Nat} (foundLeads : ∀ key ∈ found, Leads keys points key start)
    (pendingLeads : ∀ key ∈ pending, key = start ∨ Leads keys points key start) :
    ∀ key ∈ run keys points turns found pending, Leads keys points key start := by
  induction turns generalizing found pending with
  | zero => exact foundLeads
  | succ turns ih =>
    cases pending with
    | nil => exact foundLeads
    | cons current pending =>
      obtain ⟨new, next, each⟩ := (adds_expand keys points current found pending).exists_new
      have newLeads : ∀ key ∈ new, Leads keys points key start := by
        intro key member
        have edge : Leads keys points key current := .single (each key member)
        cases pendingLeads current (.head _) with
        | inl isStart => exact isStart ▸ edge
        | inr leads => exact edge.trans leads
      simp only [run, next]
      refine ih (fun key member => ?_) fun key member => ?_
      · exact (mem_append.mp member).elim (newLeads key) (foundLeads key)
      · refine (mem_append.mp member).elim (fun isNew => .inr (newLeads key isNew)) ?_
        exact fun earlier => pendingLeads key (.tail _ earlier)

def Closed (keys : List V) (points : V → V → Bool) (start : V) (found pending : List V) : Prop :=
  ∀ target, target = start ∨ target ∈ found → target ∉ pending → ∀ key ∈ keys,
    points key target = true → key ≠ target → key ∈ found

theorem closed_expand (closed : Closed keys points start found (current :: pending)) :
    Closed keys points start (expand keys points current found pending).1
      (expand keys points current found pending).2 := by
  obtain ⟨new, next, each⟩ := (adds_expand keys points current found pending).exists_new
  intro target reached taken key isKey pointing different
  by_cases isCurrent : target = current
  · subst isCurrent
    exact mem_expand isKey pointing different
  · rw [next] at reached taken ⊢
    rw [mem_append, not_or] at taken
    have earlier : target = start ∨ target ∈ found :=
      reached.imp_right fun member => (mem_append.mp member).resolve_left taken.1
    have before : target ∉ current :: pending := by
      intro member
      exact (mem_cons.mp member).elim isCurrent taken.2
    exact mem_append_right _ (closed target earlier before key isKey pointing different)

theorem closed_run {turns : Nat}
    (enough : pending.length + (Search.outside keys found).length ≤ turns)
    (closed : Closed keys points start found pending) :
    Closed keys points start (run keys points turns found pending) [] := by
  induction turns generalizing found pending with
  | zero =>
    have none : pending = [] := length_eq_zero_iff.mp (by omega)
    subst none
    exact closed
  | succ turns ih =>
    cases pending with
    | nil => exact closed
    | cons current pending =>
      have room := (adds_expand keys points current found pending).room
      rw [length_cons] at enough
      exact ih (by omega) (closed_expand closed)

theorem mem_leadingTo_iff (different : key ≠ start) :
    key ∈ leadingTo keys points start ↔ Leads keys points key start := by
  constructor
  · refine leads_of_mem_run (by simp) (fun other member => ?_) key
    exact .inl (mem_singleton.mp member)
  · intro leads
    have closed : Closed keys points start (leadingTo keys points start) [] := by
      apply closed_run
      · have bounded := length_filter_le (fun key => decide (key ∉ ([] : List V))) keys
        simp only [Search.outside, length_singleton]
        omega
      · intro target reached taken
        cases reached with
        | inl isStart => exact absurd (mem_singleton.mpr isStart) taken
        | inr member => cases member
    have along : ∀ other, Leads keys points other start →
        other = start ∨ other ∈ leadingTo keys points start := by
      intro other path
      induction path using Relation.TransGen.head_induction_on with
      | @single other edge =>
        by_cases same : other = start
        · exact .inl same
        · exact .inr (closed start (.inl rfl) (by simp) other edge.1 edge.2 same)
      | @head other middle edge _ reached =>
        by_cases same : other = middle
        · exact same ▸ reached
        · exact .inr (closed middle reached (by simp) other edge.1 edge.2 same)
    exact (along key leads).resolve_left different

theorem leads_of_mem_leadingTo (member : key ∈ leadingTo keys points start) :
    Leads keys points key start := by
  refine leads_of_mem_run (by simp) (fun other isStart => ?_) key member
  exact .inl (mem_singleton.mp isStart)

end FrankenEngine.Library.Worklist
