import FrankenEngine.Library.OrderedMap
import Mathlib.Data.List.Perm.Subperm

/-!
# Spreading through a graph

What can be reached along the successors of nodes, the breadth-first order of
this, and a search with a queue that follows the first nodes of the order only.
-/

set_option autoImplicit false

namespace FrankenEngine.Library

open OrderedMap List

namespace Reachability

variable {V : Type} [LinearOrder V]

abbrev Reached (successors : V → List V) : V → V → Prop :=
  Relation.ReflTransGen fun source next => next ∈ successors source

section Adjacency

variable (adjacency : OrderedMap V (OrderedSet V))

def neighbours (node : V) : List V := ((adjacency.get? node).map (·.keys)).getD []

variable {adjacency}

theorem neighbours_eq (node : V) :
    neighbours adjacency node = ((adjacency.get? node).getD .empty).keys := by
  rw [neighbours]
  cases adjacency.get? node <;> rfl

theorem mem_neighbours_insert {source target node next : V} :
    next ∈ neighbours (adjacency.insert source
        (((adjacency.get? source).getD .empty).insert target ())) node ↔
      next ∈ neighbours adjacency node ∨ node = source ∧ next = target := by
  rw [neighbours_eq, neighbours_eq, get?_insert]
  split
  next same => simp [same, mem_keys_insert, or_comm]
  next different => simp [different]

end Adjacency

/-!
## The breadth-first order
-/

section Order

variable (successors : V → List V) (root : V)

def note (seen : List V) (node : V) : List V := if node ∈ seen then seen else seen ++ [node]

/-- The nodes in the order in which they are met, when the given number of them has been
followed. -/
def discovered : Nat → List V
  | 0 => [root]
  | count + 1 =>
    match (discovered count)[count]? with
    | none => discovered count
    | some node => (successors node).foldl note (discovered count)

variable {successors root} {seen targets : List V} {node : V} {count later : Nat}

theorem mem_foldl_note : node ∈ targets.foldl note seen ↔ node ∈ seen ∨ node ∈ targets := by
  induction targets generalizing seen with
  | nil => simp
  | cons target targets ih =>
    rw [foldl_cons, ih, note, mem_cons]
    split
    next known => grind
    next => grind

theorem prefix_foldl_note : seen <+: targets.foldl note seen := by
  induction targets generalizing seen with
  | nil => exact prefix_rfl
  | cons target targets ih =>
    refine IsPrefix.trans ?_ ih
    rw [note]
    split
    next => exact prefix_rfl
    next => exact prefix_append _ _

theorem nodup_foldl_note (distinct : seen.Nodup) : (targets.foldl note seen).Nodup := by
  induction targets generalizing seen with
  | nil => exact distinct
  | cons target targets ih =>
    refine ih ?_
    rw [note]
    split
    next => exact distinct
    next unknown =>
      exact (perm_append_singleton _ _).nodup_iff.mpr (nodup_cons.mpr ⟨unknown, distinct⟩)

theorem length_foldl_note_le : (targets.foldl note seen).length ≤ seen.length + targets.length := by
  induction targets generalizing seen with
  | nil => exact le_rfl
  | cons target targets ih =>
    refine ih.trans ?_
    rw [note, length_cons]
    split
    next => omega
    next =>
      rw [length_append, length_singleton]
      omega

theorem length_discovered_le_succ (single : ∀ node, (successors node).length ≤ 1) (count : Nat) :
    (discovered successors root count).length ≤ count + 1 := by
  induction count with
  | zero => exact le_rfl
  | succ count ih =>
    rw [discovered]
    split
    next => omega
    next node _ =>
      have one := single node
      exact length_foldl_note_le.trans (by omega)

theorem discovered_succ_of_le (all : (discovered successors root count).length ≤ count) :
    discovered successors root (count + 1) = discovered successors root count := by
  rw [discovered, getElem?_eq_none all]

theorem discovered_prefix (earlier : count ≤ later) :
    discovered successors root count <+: discovered successors root later := by
  induction later, earlier using Nat.le_induction with
  | base => exact prefix_rfl
  | succ later _ ih =>
    refine ih.trans ?_
    rw [discovered]
    split
    next => exact prefix_rfl
    next => exact prefix_foldl_note

theorem root_mem_take_discovered {limit : Nat} (positive : 0 < limit) :
    root ∈ (discovered successors root count).take limit := by
  obtain ⟨more, same⟩ : [root] <+: discovered successors root count :=
    discovered_prefix (Nat.zero_le count)
  rw [← same, take_append]
  exact mem_append_left _ (by rw [take_of_length_le positive]; exact .head _)

theorem discovered_eq_of_le (all : (discovered successors root count).length ≤ count)
    (earlier : count ≤ later) :
    discovered successors root later = discovered successors root count := by
  induction later, earlier using Nat.le_induction with
  | base => rfl
  | succ later earlier ih => rw [discovered_succ_of_le (ih ▸ all.trans earlier), ih]

theorem nodup_discovered : (discovered successors root count).Nodup := by
  induction count with
  | zero => exact nodup_cons.mpr ⟨not_mem_nil, nodup_nil⟩
  | succ count ih =>
    rw [discovered]
    split
    next => exact ih
    next => exact nodup_foldl_note ih

theorem reached_of_mem_discovered (member : node ∈ discovered successors root count) :
    Reached successors root node := by
  induction count generalizing node with
  | zero => exact mem_singleton.mp member ▸ .refl
  | succ count ih =>
    rw [discovered] at member
    split at member
    next => exact ih member
    next source found =>
      rcases mem_foldl_note.mp member with known | edge
      · exact ih known
      · exact (ih (mem_of_getElem? found)).tail edge

/-- What is met is the root and the successors of the nodes that were followed. -/
theorem mem_discovered_iff : node ∈ discovered successors root count ↔ node = root ∨
    ∃ source ∈ (discovered successors root count).take count, node ∈ successors source := by
  induction count with
  | zero => simp [discovered]
  | succ count ih =>
    cases found : (discovered successors root count)[count]? with
    | none =>
      have all := getElem?_eq_none_iff.mp found
      rw [discovered_succ_of_le all, take_of_length_le (all.trans (Nat.le_succ _))]
      rw [take_of_length_le all] at ih
      exact ih
    | some source =>
      have grown : discovered successors root (count + 1) =
          (successors source).foldl note (discovered successors root count) := by
        rw [discovered, found]
      obtain ⟨below, -⟩ := List.getElem?_eq_some_iff.mp found
      have followed : (discovered successors root (count + 1)).take (count + 1) =
          (discovered successors root count).take count ++ [source] := by
        obtain ⟨more, same⟩ : discovered successors root count <+: _ := prefix_foldl_note
        rw [grown, ← same, take_append_of_le_length below, take_add_one, found]
        rfl
      rw [followed, grown, mem_foldl_note, ih]
      simp only [mem_append, mem_singleton, or_and_right, exists_or, exists_eq_left, or_assoc]

/-- The order is complete, so its first nodes are the ones that are followed first. -/
theorem take_discovered (all : (discovered successors root later).length ≤ later) (limit : Nat) :
    (discovered successors root later).take limit =
      (discovered successors root limit).take limit := by
  by_cases earlier : limit ≤ later
  · by_cases short : (discovered successors root limit).length ≤ limit
    · rw [discovered_eq_of_le short earlier]
    · obtain ⟨more, same⟩ : discovered successors root limit <+: _ := discovered_prefix earlier
      rw [← same, take_append_of_le_length (by omega)]
  · rw [discovered_eq_of_le all (by omega : later ≤ limit)]

end Order

/-!
## Spreading from a node, with a limit

Here a node is marked when it is met. Beyond the limit nodes are still marked,
but what they lead to is not looked at.
-/

section Spreading

def visit (limit : Nat) (state : List V × OrderedSet V) (node : V) : List V × OrderedSet V :=
  if (state.2.get? node).isSome then state
  else
    let visited := state.2.insert node ()
    (if visited.keys.length ≤ limit then state.1 ++ [node] else state.1, visited)

def spread (successors : V → List V) (limit : Nat) : Nat → List V → OrderedSet V → OrderedSet V
  | 0, _, visited => visited
  | _ + 1, [], visited => visited
  | turns + 1, node :: queue, visited =>
    let met := (successors node).foldl (visit limit) (queue, visited)
    spread successors limit turns met.1 met.2

/-- The nodes that were met are marked, and those of the first `limit` that were not followed yet
are queued. -/
structure Lockstep (limit count : Nat) (seen : List V) (state : List V × OrderedSet V) : Prop where
  followed : count ≤ (seen.take limit).length
  queue : state.1 = (seen.take limit).drop count
  marked : state.2.keys.Perm seen

variable {limit count bound : Nat} {seen : List V} {state : List V × OrderedSet V}
  {successors : V → List V} {root : V}

theorem Lockstep.visit (lockstep : Lockstep limit count seen state) (node : V) :
    Lockstep limit count (note seen node) (visit limit state node) := by
  have known : (state.2.get? node).isSome ↔ node ∈ seen :=
    mem_keys_iff.symm.trans lockstep.marked.mem_iff
  unfold Reachability.visit note
  by_cases member : node ∈ seen
  · rw [if_pos (known.mpr member), if_pos member]
    exact lockstep
  · rw [if_neg (mt known.mp member), if_neg member]
    have fresh : node ∉ state.2.keys := mt lockstep.marked.mem_iff.mp member
    have followed := lockstep.followed
    refine ⟨?_, ?_, ?_⟩
    · rw [take_append, length_append]
      omega
    · rw [take_append, drop_append_of_le_length followed, ← lockstep.queue]
      dsimp only
      rw [length_keys_insert fresh, lockstep.marked.length_eq]
      split
      next room => rw [take_of_length_le (by simpa using by omega)]
      next full => rw [Nat.sub_eq_zero_of_le (by omega), take_zero, append_nil]
    · exact (perm_keys_insert fresh ()).trans
        ((lockstep.marked.cons node).trans (perm_append_singleton node seen).symm)

theorem Lockstep.foldl (lockstep : Lockstep limit count seen state) (targets : List V) :
    Lockstep limit count (targets.foldl note seen) (targets.foldl (Reachability.visit limit) state) := by
  induction targets generalizing seen state with
  | nil => exact lockstep
  | cons node targets ih => exact ih (lockstep.visit node)

theorem Lockstep.pop {node : V} {queue : List V} {visited : OrderedSet V}
    (lockstep : Lockstep limit count seen (node :: queue, visited)) :
    seen[count]? = some node ∧ Lockstep limit (count + 1) seen (queue, visited) := by
  have queue := lockstep.queue
  have below : count < (seen.take limit).length := by
    by_contra beyond
    rw [drop_eq_nil_of_le (not_lt.mp beyond)] at queue
    cases queue
  rw [drop_eq_getElem_cons below] at queue
  obtain ⟨first, rest⟩ := cons.inj queue
  refine ⟨?_, below, rest, lockstep.marked⟩
  rw [first, getElem_take, List.getElem?_eq_getElem]

theorem Lockstep.perm_of_nil {visited : OrderedSet V}
    (lockstep : Lockstep limit count (discovered successors root count) ([], visited)) :
    visited.keys.Perm (discovered successors root limit) := by
  have followed := lockstep.followed
  have last := drop_eq_nil_iff.mp lockstep.queue.symm
  have marked : visited.keys.Perm (discovered successors root count) := lockstep.marked
  rw [length_take] at followed last
  by_cases full : limit = count
  · rwa [full]
  · rwa [discovered_eq_of_le (by omega) (by omega : count ≤ limit)]

/-- With enough turns, the nodes that are marked are those met when the first `limit` of the order
have been followed. -/
theorem Lockstep.spread {turns : Nat} {queue : List V} {visited : OrderedSet V}
    (lockstep : Lockstep limit count (discovered successors root count) (queue, visited))
    (bounded : ∀ count, (discovered successors root count).length ≤ bound)
    (enough : bound ≤ turns + count) :
    (spread successors limit turns queue visited).keys.Perm (discovered successors root limit) := by
  induction turns generalizing count queue visited with
  | zero =>
    have none : queue = [] := by
      refine lockstep.queue.trans (drop_eq_nil_of_le ((length_take_le' _ _).trans ?_))
      exact (bounded count).trans (by omega)
    subst none
    exact lockstep.perm_of_nil
  | succ turns ih =>
    cases queue with
    | nil => exact lockstep.perm_of_nil
    | cons node queue =>
      obtain ⟨found, popped⟩ := lockstep.pop
      have grown : discovered successors root (count + 1) =
          (successors node).foldl note (discovered successors root count) := by
        rw [discovered, found]
      exact ih (grown ▸ popped.foldl (successors node)) (by omega)

variable {nodes : List V}

theorem length_discovered_le (closed : ∀ source ∈ nodes, ∀ next ∈ successors source, next ∈ nodes)
    (inside : root ∈ nodes) (count : Nat) :
    (discovered successors root count).length ≤ nodes.length := by
  refine (subperm_of_subset nodup_discovered fun node member => ?_).length_le
  have path := reached_of_mem_discovered member
  clear member
  induction path with
  | refl => exact inside
  | tail _ edge ih => exact closed _ ih _ edge

theorem perm_spread (closed : ∀ source ∈ nodes, ∀ next ∈ successors source, next ∈ nodes)
    (inside : root ∈ nodes) (positive : 0 < limit) {turns : Nat}
    (enough : nodes.length ≤ turns) :
    (spread successors limit turns [root] (.ofKeys [root])).keys.Perm
      (discovered successors root limit) := by
  have start : Lockstep limit 0 (discovered successors root 0) ([root], .ofKeys [root]) :=
    ⟨Nat.zero_le _, by rw [discovered, take_of_length_le positive]; rfl, .refl _⟩
  exact start.spread (length_discovered_le closed inside) enough

/-- Only what can be reached is marked, and all of it exactly if each of these nodes follows one
of the first `limit` nodes of the order. -/
theorem spread_spec (closed : ∀ source ∈ nodes, ∀ next ∈ successors source, next ∈ nodes)
    (inside : root ∈ nodes) (positive : 0 < limit) {turns : Nat}
    (enough : nodes.length ≤ turns) :
    let marked := spread successors limit turns [root] (.ofKeys [root])
    (∀ node ∈ marked.keys, Reached successors root node) ∧
      ((∀ node, Reached successors root node → node ∈ marked.keys) ↔
        ∀ node, Reached successors root node → node = root ∨
          ∃ source ∈ (discovered successors root turns).take limit, node ∈ successors source) := by
  intro marked
  have met := perm_spread closed inside positive enough
  constructor
  · exact fun node member => reached_of_mem_discovered (met.mem_iff.mp member)
  · rw [take_discovered ((length_discovered_le closed inside turns).trans enough)]
    exact forall₂_congr fun node _ => met.mem_iff.trans mem_discovered_iff

end Spreading

end Reachability

end FrankenEngine.Library
