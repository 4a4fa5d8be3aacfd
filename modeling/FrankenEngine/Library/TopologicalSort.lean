import FrankenEngine.Library.History
import FrankenEngine.Library.OrderedMap
import Mathlib.Algebra.BigOperators.Group.Finset.Piecewise
import Mathlib.Data.Set.Finite.Basic
import Mathlib.Order.WellFounded

/-!
# Topological sorting by counting predecessors

A node is taken from the agenda once all edges into it are counted off, and then
counts off its own edges. What is never taken are the nodes on a cycle and
everything behind them.
-/

set_option autoImplicit false

namespace FrankenEngine.Library

open List Relation

variable {V : Type} [LinearOrder V]

/-- A list of nodes that are ready, with some order of taking them. -/
structure Agenda (V : Type) where
  push : List V → V → List V
  pop : List V → Option (V × List V)
  push_perm : ∀ {ready node}, node ∉ ready → (push ready node).Perm (node :: ready)
  pop_perm : ∀ {ready node rest}, pop ready = some (node, rest) → ready.Perm (node :: rest)
  pop_none : ∀ {ready}, pop ready = none → ready = []

namespace TopologicalSort

def countOff (agenda : Agenda V) (state : List V × OrderedMap V Nat) (node : V) :
    List V × OrderedMap V Nat :=
  match state.2.get? node with
  | none => state
  | some degree =>
    (if degree - 1 = 0 then agenda.push state.1 node else state.1,
      state.2.insert node (degree - 1))

def run (agenda : Agenda V) (successors : V → List V) :
    Nat → List V → OrderedMap V Nat → List V → List V
  | 0, _, _, order => order
  | turns + 1, ready, degrees, order =>
    match agenda.pop ready with
    | none => order
    | some (node, rest) =>
      let counted := (successors node).foldl (countOff agenda) (rest, degrees)
      run agenda successors turns counted.1 counted.2 (order ++ [node])

/-- Every node is taken at most once. -/
def sort (agenda : Agenda V) (successors : V → List V) (ready : List V)
    (degrees : OrderedMap V Nat) : List V :=
  run agenda successors degrees.keys.length ready degrees []

variable {agenda : Agenda V} {successors : V → List V} {nodes : Finset V}

variable {degrees : OrderedMap V Nat} {ready order : List V} {taken : V}

theorem foldl_countOff (agenda : Agenda V) (rest : V → Nat) (targets : List V)
    (inside : ∀ node ∈ targets, node ∈ nodes) (distinct : ready.Nodup)
    (degree : ∀ node ∈ nodes, degrees.get? node = some (targets.count node + rest node))
    (waiting : ∀ node ∈ targets, node ∉ ready) :
    let counted := targets.foldl (countOff agenda) (ready, degrees)
    counted.1.Nodup ∧ (∀ node ∈ nodes, counted.2.get? node = some (rest node)) ∧
      ∀ node, node ∈ counted.1 ↔ node ∈ ready ∨ node ∈ targets ∧ rest node = 0 := by
  induction targets generalizing ready degrees with
  | nil => exact ⟨distinct, by simpa using degree, by simp⟩
  | cons target targets ih =>
    obtain ⟨targetInside, inside⟩ := forall_mem_cons.mp inside
    obtain ⟨targetWaiting, waiting⟩ := forall_mem_cons.mp waiting
    have own := degree target targetInside
    rw [count_cons_self] at own
    have counted : countOff agenda (ready, degrees) target =
        (if targets.count target + rest target = 0 then agenda.push ready target else ready,
          degrees.insert target (targets.count target + rest target)) := by
      simp only [countOff, own]
      rw [show targets.count target + 1 + rest target - 1 =
        targets.count target + rest target by omega]
    have lowered : ∀ node ∈ nodes,
        (degrees.insert target (targets.count target + rest target)).get? node =
          some (targets.count node + rest node) := by
      intro node member
      rw [OrderedMap.get?_insert]
      split
      next same => rw [same]
      next different =>
        rw [degree node member, count_cons_of_ne (Ne.symm different)]
    rw [foldl_cons, counted]
    by_cases last : targets.count target + rest target = 0
    · have gone : target ∉ targets := count_eq_zero.mp (by omega)
      have pushed := agenda.push_perm targetWaiting
      rw [if_pos last]
      obtain ⟨distinct, rests, members⟩ := ih inside
        (pushed.nodup_iff.mpr (nodup_cons.mpr ⟨targetWaiting, distinct⟩)) lowered (by
          intro node member queued
          rcases mem_cons.mp (pushed.mem_iff.mp queued) with same | old
          · exact gone (same ▸ member)
          · exact waiting node member old)
      refine ⟨distinct, rests, fun node => ?_⟩
      rw [members, pushed.mem_iff, mem_cons, mem_cons]
      constructor
      · rintro ((rfl | old) | later)
        · exact .inr ⟨.inl rfl, by omega⟩
        · exact .inl old
        · exact .inr ⟨.inr later.1, later.2⟩
      · rintro (old | ⟨rfl | later, zero⟩)
        · exact .inl (.inr old)
        · exact .inl (.inl rfl)
        · exact .inr ⟨later, zero⟩
    · rw [if_neg last]
      obtain ⟨distinct, rests, members⟩ := ih inside distinct lowered waiting
      refine ⟨distinct, rests, fun node => ?_⟩
      rw [members, mem_cons]
      constructor
      · rintro (old | later)
        · exact .inl old
        · exact .inr ⟨.inr later.1, later.2⟩
      · rintro (old | ⟨rfl | later, zero⟩)
        · exact .inl old
        · -- It is a target once more.
          exact .inr ⟨count_pos_iff.mp (by omega), zero⟩
        · exact .inr ⟨later, zero⟩

def pending (successors : V → List V) (nodes : Finset V) (order : List V) (node : V) : Nat :=
  ∑ source ∈ nodes \ order.toFinset, (successors source).count node

theorem pending_snoc (member : taken ∈ nodes) (fresh : taken ∉ order) (node : V) :
    pending successors nodes order node =
      (successors taken).count node + pending successors nodes (order ++ [taken]) node := by
  have split : nodes \ order.toFinset =
      insert taken (nodes \ (order ++ [taken]).toFinset) := by
    ext other
    simp only [Finset.mem_insert, Finset.mem_sdiff, mem_toFinset, mem_append, mem_singleton, not_or]
    constructor
    · rintro ⟨inside, unseen⟩
      by_cases same : other = taken
      · exact .inl same
      · exact .inr ⟨inside, unseen, same⟩
    · rintro (rfl | ⟨inside, unseen, -⟩)
      · exact ⟨member, fresh⟩
      · exact ⟨inside, unseen⟩
  rw [pending, split, Finset.sum_insert (by simp), pending]

theorem pending_eq_zero_iff {node : V} : pending successors nodes order node = 0 ↔
      ∀ source ∈ nodes, node ∈ successors source → source ∈ order := by
  rw [pending, Finset.sum_eq_zero_iff]
  constructor
  · intro none source inside edge
    by_contra unseen
    have waits : source ∈ nodes \ order.toFinset := by simp [inside, unseen]
    exact count_eq_zero.mp (none source waits) edge
  · intro seen source member
    obtain ⟨inside, unseen⟩ := Finset.mem_sdiff.mp member
    exact count_eq_zero.mpr fun edge =>
      unseen (mem_toFinset.mpr (seen source inside edge))

def Sorted (successors : V → List V) (nodes : Finset V) (order : List V) : Prop :=
  ∀ earlier node later, order = earlier ++ node :: later →
    ∀ source ∈ nodes, node ∈ successors source → source ∈ earlier

omit [LinearOrder V] in
theorem Sorted.snoc (sorted : Sorted successors nodes order)
    (seen : ∀ source ∈ nodes, taken ∈ successors source → source ∈ order) :
    Sorted successors nodes (order ++ [taken]) :=
  forall_places_snoc.mpr ⟨sorted, seen⟩

structure Progress (successors : V → List V) (nodes : Finset V) (ready : List V)
    (degrees : OrderedMap V Nat) (order : List V) : Prop where
  degree : ∀ node ∈ nodes, degrees.get? node = some (pending successors nodes order node)
  mem_ready : ∀ node, node ∈ ready ↔
    node ∈ nodes ∧ node ∉ order ∧ pending successors nodes order node = 0
  ready_nodup : ready.Nodup
  order_nodup : order.Nodup
  inside : ∀ node ∈ order, node ∈ nodes
  sorted : Sorted successors nodes order

theorem Progress.take (closed : ∀ source ∈ nodes, ∀ node ∈ successors source, node ∈ nodes)
    {rest : List V} (progress : Progress successors nodes ready degrees order)
    (popped : agenda.pop ready = some (taken, rest)) :
    let counted := (successors taken).foldl (countOff agenda) (rest, degrees)
    Progress successors nodes counted.1 counted.2 (order ++ [taken]) := by
  have perm := agenda.pop_perm popped
  obtain ⟨inside, fresh, free⟩ := (progress.mem_ready taken).mp (perm.mem_iff.mpr (.head _))
  obtain ⟨gone, distinct⟩ := nodup_cons.mp (perm.nodup_iff.mp progress.ready_nodup)
  -- What has an edge from a node that was not taken is not ready.
  have waiting : ∀ node ∈ successors taken, node ∉ rest := by
    intro node edge queued
    obtain ⟨-, -, free⟩ := (progress.mem_ready node).mp (perm.mem_iff.mpr (.tail _ queued))
    exact fresh (pending_eq_zero_iff.mp free taken inside edge)
  obtain ⟨distinct, degree, members⟩ := foldl_countOff agenda
    (pending successors nodes (order ++ [taken])) (successors taken) (closed taken inside) distinct
    (fun node member => by rw [progress.degree node member, pending_snoc inside fresh]) waiting
  refine ⟨degree, fun node => ?_, distinct, ?_, ?_, ?_⟩
  · rw [members, mem_append, mem_singleton, not_or]
    have before := progress.mem_ready node
    rw [perm.mem_iff, mem_cons, pending_snoc inside fresh] at before
    constructor
    · rintro (queued | ⟨edge, free⟩)
      · obtain ⟨inside, unseen, none⟩ := before.mp (.inr queued)
        exact ⟨inside, ⟨unseen, fun same => gone (same ▸ queued)⟩, by omega⟩
      · refine ⟨closed taken inside node edge, ⟨fun seen => ?_, ?_⟩, free⟩
        · obtain ⟨earlier, later, rfl⟩ := append_of_mem seen
          exact fresh (mem_append_left _ (progress.sorted earlier node later rfl taken inside edge))
        · rintro rfl
          exact fresh (pending_eq_zero_iff.mp ‹_› node inside edge)
    · rintro ⟨inside, ⟨unseen, different⟩, free⟩
      by_cases edge : node ∈ successors taken
      · exact .inr ⟨edge, free⟩
      · rw [count_eq_zero.mpr edge, Nat.zero_add] at before
        exact .inl ((before.mpr ⟨inside, unseen, free⟩).resolve_left different)
  · rw [nodup_append]
    refine ⟨progress.order_nodup, pairwise_singleton _ _, ?_⟩
    rintro node seen other last rfl
    exact fresh (mem_singleton.mp last ▸ seen)
  · intro node member
    rcases mem_append.mp member with seen | last
    · exact progress.inside node seen
    · exact mem_singleton.mp last ▸ inside
  · exact progress.sorted.snoc (pending_eq_zero_iff.mp free)

theorem Progress.run (agenda : Agenda V)
    (closed : ∀ source ∈ nodes, ∀ node ∈ successors source, node ∈ nodes) {turns : Nat}
    (progress : Progress successors nodes ready degrees order)
    (enough : nodes.card ≤ order.length + turns) : ∃ degrees', Progress successors nodes [] degrees'
      (TopologicalSort.run agenda successors turns ready degrees order) := by
  induction turns generalizing ready degrees order with
  | zero =>
    -- As many nodes are taken as there are.
    have all : order.toFinset = nodes := by
      apply Finset.eq_of_subset_of_card_le
      · exact fun node member => progress.inside node (mem_toFinset.mp member)
      · rw [toFinset_card_of_nodup progress.order_nodup]
        exact enough
    have none : ready = [] := by
      rw [eq_nil_iff_forall_not_mem]
      intro node queued
      obtain ⟨inside, unseen, -⟩ := (progress.mem_ready node).mp queued
      exact unseen (mem_toFinset.mp (all ▸ inside))
    exact ⟨degrees, none ▸ progress⟩
  | succ turns ih =>
    rw [TopologicalSort.run]
    split
    next popped => exact ⟨degrees, agenda.pop_none popped ▸ progress⟩
    next taken rest popped =>
      refine ih (progress.take closed popped) ?_
      rw [length_append, length_singleton]
      omega

section Cycles

omit [LinearOrder V]

def Edge (successors : V → List V) (nodes : Finset V) (source node : V) : Prop :=
  source ∈ nodes ∧ node ∈ successors source

/-- A cycle leads to the node, which may lie on it. -/
def BehindCycle (successors : V → List V) (nodes : Finset V) (node : V) : Prop :=
  ∃ entry, Relation.TransGen (Edge successors nodes) entry entry ∧
    Relation.ReflTransGen (Edge successors nodes) entry node

variable {node : V} {order : List V}

variable (sorted : Sorted successors nodes order)

include sorted

theorem Sorted.mem_earlier {source : V}
    (path : TransGen (Edge successors nodes) source node) {earlier later : List V}
    (split : order = earlier ++ node :: later) : source ∈ earlier := by
  induction path generalizing earlier later with
  | single edge => exact sorted earlier _ later split source edge.1 edge.2
  | tail _ edge ih =>
    obtain ⟨front, back, rfl⟩ := append_of_mem (sorted earlier _ later split _ edge.1 edge.2)
    rw [append_assoc, cons_append] at split
    exact mem_append_left _ (ih split)

theorem Sorted.mem_later (distinct : order.Nodup) {source : V}
    (edge : Edge successors nodes source node) (member : node ∈ order) {earlier later : List V}
    (split : order = earlier ++ source :: later) : node ∈ later := by
  have parted := distinct
  rw [split, nodup_append, nodup_cons] at parted
  have notBefore : ∀ {front back : List V}, order = front ++ node :: back → source ∈ front :=
    fun divided => sorted _ _ _ divided source edge.1 edge.2
  rw [split] at member
  rcases mem_append.mp member with before | here
  · obtain ⟨front, back, rfl⟩ := append_of_mem before
    rw [append_assoc, cons_append] at split
    exact absurd rfl (parted.2.2 source (mem_append_left _ (notBefore split)) source (.head _))
  · rcases mem_cons.mp here with rfl | later
    · exact absurd rfl (parted.2.2 node (notBefore split) node (.head _))
    · exact later

theorem Sorted.not_behindCycle (distinct : order.Nodup) (member : node ∈ order) :
    ¬ BehindCycle successors nodes node := by
  rintro ⟨entry, cycle, path⟩
  obtain ⟨earlier, later, split⟩ := append_of_mem member
  have seen : entry ∈ order := by
    rcases reflTransGen_iff_eq_or_transGen.mp path with same | path
    · exact same ▸ member
    · rw [split]
      exact mem_append_left _ (sorted.mem_earlier path split)
  obtain ⟨front, back, divided⟩ := append_of_mem seen
  have before := sorted.mem_earlier cycle divided
  rw [divided, nodup_append] at distinct
  exact distinct.2.2 entry before entry (.head _) rfl

omit sorted

theorem exists_cycle_of_predecessors {R : V → V → Prop} (members : Finset V)
    (predecessor : ∀ node ∈ members, ∃ source ∈ members, R source node) (member : node ∈ members) :
    ∃ entry, TransGen R entry entry ∧ ReflTransGen R entry node := by
  by_contra acyclic
  -- Without a cycle, the paths order the members that lead to the node, and a first one has no
  -- predecessor.
  let Leading := { source // source ∈ members ∧ ReflTransGen R source node }
  have : Finite Leading := by
    refine Set.Finite.subset members.finite_toSet ?_
    exact fun source leading => leading.1
  let before : Leading → Leading → Prop := fun source target =>
    TransGen R source.1 target.1
  have : IsTrans Leading before := ⟨fun _ _ _ => TransGen.trans⟩
  have : Std.Irrefl before := ⟨fun source cycle => acyclic ⟨source.1, cycle, source.2.2⟩⟩
  have founded : WellFounded before := Finite.wellFounded_of_trans_of_irrefl before
  obtain ⟨first, -, least⟩ := founded.has_min Set.univ ⟨⟨node, member, .refl⟩, trivial⟩
  obtain ⟨source, inside, edge⟩ := predecessor first.1 first.2.1
  exact least ⟨source, inside, .head edge first.2.2⟩ trivial (.single edge)

end Cycles

theorem Progress.mem_order_iff (progress : Progress successors nodes [] degrees order) {node : V} :
    node ∈ order ↔ node ∈ nodes ∧ ¬ BehindCycle successors nodes node := by
  constructor
  · intro member
    exact ⟨progress.inside node member, progress.sorted.not_behindCycle progress.order_nodup member⟩
  · rintro ⟨inside, free⟩
    by_contra unseen
    refine free (exists_cycle_of_predecessors (nodes.filter (· ∉ order)) ?_
      (Finset.mem_filter.mpr ⟨inside, unseen⟩))
    intro target member
    obtain ⟨inside, unseen⟩ := Finset.mem_filter.mp member
    have waiting : pending successors nodes order target ≠ 0 := by
      intro none
      cases (progress.mem_ready target).mpr ⟨inside, unseen, none⟩
    rw [ne_eq, pending_eq_zero_iff] at waiting
    push Not at waiting
    obtain ⟨source, inside, edge, unseen⟩ := waiting
    exact ⟨source, Finset.mem_filter.mpr ⟨inside, unseen⟩, inside, edge⟩

/-- The degrees are kept for the noted nodes and the targets of the edges. They count the edges
into a node, and the successors list those out of it. -/
structure Tables (nodes : List V) (edges : List (V × V)) (degrees : OrderedMap V Nat)
    (successors : V → List V) : Prop where
  keys : ∀ node, node ∈ degrees.keys ↔ node ∈ nodes ∨ node ∈ edges.map (·.2)
  sources : ∀ edge ∈ edges, edge.1 ∈ nodes
  degree : ∀ node, (degrees.get? node).getD 0 = (edges.map (·.2)).count node
  successors : ∀ source, (successors source).Perm ((edges.filter (·.1 = source)).map (·.2))

variable {noted : List V} {edges : List (V × V)}

theorem sum_count_targets (nodes : Finset V) (inside : ∀ edge ∈ edges, edge.1 ∈ nodes) (node : V) :
    ∑ source ∈ nodes, ((edges.filter (·.1 = source)).map (·.2)).count node =
      (edges.map (·.2)).count node := by
  induction edges with
  | nil => simp
  | cons edge rest ih =>
    obtain ⟨own, inside⟩ := forall_mem_cons.mp inside
    have each : ∀ source, (((edge :: rest).filter (·.1 = source)).map (·.2)).count node =
        (if edge.1 = source then [edge.2].count node else 0) +
          ((rest.filter (·.1 = source)).map (·.2)).count node := by
      intro source
      by_cases same : edge.1 = source
      · simp [same, count_cons, Nat.add_comm]
      · simp [same]
    rw [Finset.sum_congr rfl fun source _ => each source, Finset.sum_add_distrib, ih inside,
      Finset.sum_ite_eq, if_pos own, ← count_append]
    rfl

section Sorting

variable (tables : Tables noted edges degrees successors)

include tables

theorem Tables.mem_successors {source node : V} :
    node ∈ successors source ↔ (source, node) ∈ edges := by
  rw [(tables.successors source).mem_iff]
  simp

theorem Tables.edge_iff {source node : V} :
    Edge successors degrees.keys.toFinset source node ↔ (source, node) ∈ edges := by
  rw [Edge, tables.mem_successors, mem_toFinset, tables.keys]
  exact and_iff_right_of_imp fun edge => .inl (tables.sources _ edge)

theorem Tables.get?_eq {node : V} (member : node ∈ degrees.keys) :
    degrees.get? node = some (pending successors degrees.keys.toFinset [] node) := by
  obtain ⟨degree, found⟩ := Option.isSome_iff_exists.mp (OrderedMap.mem_keys_iff.mp member)
  have count := tables.degree node
  rw [found, Option.getD_some] at count
  rw [found, count, pending, toFinset_nil, Finset.sdiff_empty,
    ← sum_count_targets degrees.keys.toFinset fun edge member =>
      mem_toFinset.mpr ((tables.keys _).mpr (.inl (tables.sources edge member)))]
  exact congrArg some (Finset.sum_congr rfl fun source _ =>
    ((tables.successors source).count_eq node).symm)

theorem Tables.note (node : V) :
    Tables (noted ++ [node]) edges (degrees.insert node ((degrees.get? node).getD 0)) successors where
  keys other := by
    rw [OrderedMap.mem_keys_insert, tables.keys, mem_append, mem_singleton, or_right_comm, or_comm]
  sources edge member := mem_append_left _ (tables.sources edge member)
  degree other := by
    rw [← tables.degree, OrderedMap.get?_insert]
    split
    next same => rw [same]; rfl
    next => rfl
  successors := tables.successors

variable {ready : List V} (start : ready.Perm ((degrees.entries.filter (·.2 = 0)).map (·.1)))

include start

theorem Tables.progress : Progress successors degrees.keys.toFinset ready degrees [] := by
  refine ⟨fun node member => tables.get?_eq (mem_toFinset.mp member), fun node => ?_, ?_, .nil,
    forall_mem_nil _, ?_⟩
  · have mem_ready : node ∈ ready ↔ degrees.get? node = some 0 := by
      rw [start.mem_iff, OrderedMap.get?, degrees.ascending.lookup_eq_some_iff]
      simp
    rw [mem_ready, mem_toFinset]
    constructor
    · intro none
      have member : node ∈ degrees.keys := OrderedMap.mem_keys_iff.mpr (none ▸ rfl)
      exact ⟨member, not_mem_nil, Option.some.inj ((tables.get?_eq member).symm.trans none)⟩
    · rintro ⟨member, -, none⟩
      rw [tables.get?_eq member, none]
  · exact start.nodup_iff.mpr (Pairwise.map _ (fun _ _ below => below.ne)
      (degrees.ascending.filter _))
  · intro earlier node later split
    cases earlier <;> cases split

/-- Started with the number of edges into each node and the nodes without one, the sort lists
exactly the nodes that are not behind a cycle, once, each behind its predecessors. -/
theorem Tables.sort_spec (agenda : Agenda V) :
    let order := sort agenda successors ready degrees
    order.Nodup ∧ Sorted successors degrees.keys.toFinset order ∧
      ∀ node, node ∈ order ↔ node ∈ degrees.keys ∧
        ¬ BehindCycle successors degrees.keys.toFinset node := by
  have closed : ∀ source ∈ degrees.keys.toFinset, ∀ node ∈ successors source,
      node ∈ degrees.keys.toFinset := by
    intro source _ node edge
    rw [tables.mem_successors] at edge
    exact mem_toFinset.mpr ((tables.keys node).mpr (.inr (mem_map_of_mem edge)))
  have enough : degrees.keys.toFinset.card ≤ ([] : List V).length + degrees.keys.length :=
    (toFinset_card_le _).trans (Nat.le_add_left _ _)
  obtain ⟨_, finished⟩ := (tables.progress start).run agenda closed enough
  refine ⟨finished.order_nodup, finished.sorted, fun node => ?_⟩
  exact finished.mem_order_iff.trans (and_congr_left' mem_toFinset)

end Sorting

variable {targets : OrderedMap V (List V)}
  (tables : Tables noted edges degrees fun node => (targets.get? node).getD [])

theorem Tables.empty : Tables [] [] (.empty : OrderedMap V Nat) fun node =>
    ((.empty : OrderedMap V (List V)).get? node).getD [] where
  keys _ := by simp [OrderedMap.keys, OrderedMap.empty]
  sources := nofun
  degree _ := rfl
  successors _ := .refl _

include tables

theorem Tables.add {source : V} (isNoted : source ∈ noted) (node : V) :
    Tables noted (edges ++ [(source, node)])
      (degrees.insert node ((degrees.get? node).getD 0 + 1))
      fun other => ((targets.insert source ((targets.get? source).getD [] ++ [node])).get?
        other).getD [] where
  keys other := by
    rw [OrderedMap.mem_keys_insert, tables.keys, map_append, mem_append, map_singleton,
      mem_singleton, or_comm, or_assoc]
  sources := by
    intro edge member
    rcases mem_append.mp member with old | new
    · exact tables.sources edge old
    · exact mem_singleton.mp new ▸ isNoted
  degree other := by
    rw [OrderedMap.get?_insert, map_append, count_append, ← tables.degree, map_singleton,
      count_singleton]
    split
    next same => simp [same]
    next different => simp [Ne.symm different]
  successors other := by
    rw [OrderedMap.get?_insert, filter_append, map_append]
    by_cases same : other = source
    · subst same
      simpa using (tables.successors other).append_right [node]
    · simpa [same, Ne.symm same] using tables.successors other

end TopologicalSort

end FrankenEngine.Library
