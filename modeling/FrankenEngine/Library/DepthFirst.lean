import FrankenEngine.Library.History
import FrankenEngine.Library.Search
import Mathlib.Data.List.Perm.Basic

/-!
# Depth-first walks

A walk over a graph that is given by the list of successors of each vertex. It
opens a vertex when it meets it for the first time, walks to the successors in
order and closes the vertex behind them. A vertex that is met while it is open
but not closed is the end of a back edge.
-/

set_option autoImplicit false

namespace FrankenEngine.Library

open List

structure Walk (V : Type) where
  /-- The vertices in the order in which they were opened. -/
  opened : List V
  /-- The vertices in the order in which they were closed. -/
  closed : List V
  back : List V

namespace Walk

variable {V : Type}

def start : Walk V := { opened := [], closed := [], back := [] }

def enter (walk : Walk V) (vertex : V) : Walk V :=
  { walk with opened := walk.opened ++ [vertex] }

def leave (walk : Walk V) (vertex : V) : Walk V :=
  { walk with closed := walk.closed ++ [vertex] }

/-!
## What a walk opens and closes
-/

/-- The vertices that a path along successors leads to. -/
abbrev Reaches (successors : V → List V) : V → V → Prop :=
  Relation.ReflTransGen fun vertex next => next ∈ successors vertex

/-- Closed vertices are open, and no vertex is opened or closed twice. -/
structure Sound (walk : Walk V) : Prop where
  opened : walk.opened.Nodup
  closed : walk.closed.Nodup
  subset : ∀ vertex ∈ walk.closed, vertex ∈ walk.opened

theorem sound_start : (start : Walk V).Sound where
  opened := .nil
  closed := .nil
  subset := nofun

/-- From one walk to a later one: the fresh vertices are opened and closed, and
nothing else is. -/
structure Opens (successors : V → List V) (walk after : Walk V) (fresh : List V) : Prop where
  opened : after.opened = walk.opened ++ fresh
  closed : ∃ order, after.closed = walk.closed ++ order ∧ order.Perm fresh
  back : walk.back <+: after.back
  successors : ∀ vertex ∈ fresh, ∀ next ∈ successors vertex, next ∈ after.opened

namespace Opens

variable {successors : V → List V} {walk middle after : Walk V} {fresh later : List V} {vertex : V}

theorem refl (walk : Walk V) : Opens successors walk walk [] where
  opened := (append_nil _).symm
  closed := ⟨[], (append_nil _).symm, .nil⟩
  back := prefix_rfl
  successors := nofun

theorem trans (one : Opens successors walk middle fresh) (two : Opens successors middle after later) :
    Opens successors walk after (fresh ++ later) where
  opened := by rw [two.opened, one.opened, append_assoc]
  closed := by
    obtain ⟨order, closed, permuted⟩ := one.closed
    obtain ⟨laterOrder, closedLater, permutedLater⟩ := two.closed
    refine ⟨order ++ laterOrder, ?_, permuted.append permutedLater⟩
    rw [closedLater, closed, append_assoc]
  back := one.back.trans two.back
  successors := by
    intro vertex member next edge
    rcases mem_append.mp member with early | late
    · rw [two.opened]
      exact mem_append_left _ (one.successors vertex early next edge)
    · exact two.successors vertex late next edge

variable (opens : Opens successors walk after fresh)

include opens

theorem mem_opened_iff : vertex ∈ after.opened ↔ vertex ∈ walk.opened ∨ vertex ∈ fresh := by
  rw [opens.opened, mem_append]

theorem mem_closed_iff : vertex ∈ after.closed ↔ vertex ∈ walk.closed ∨ vertex ∈ fresh := by
  obtain ⟨order, closed, permuted⟩ := opens.closed
  rw [closed, mem_append, permuted.mem_iff]

theorem active (isOpen : vertex ∈ after.opened) (unclosed : vertex ∉ after.closed) :
    vertex ∈ walk.opened ∧ vertex ∉ walk.closed := by
  rw [opens.mem_closed_iff, not_or] at unclosed
  rcases opens.mem_opened_iff.mp isOpen with before | isFresh
  · exact ⟨before, unclosed.1⟩
  · exact absurd isFresh unclosed.2

omit opens

theorem around (opens : Opens successors (walk.enter vertex) after fresh)
    (met : ∀ next ∈ successors vertex, next ∈ after.opened) :
    Opens successors walk (after.leave vertex) (vertex :: fresh) where
  opened := by
    rw [leave, opens.opened, enter, append_assoc]
    rfl
  closed := by
    obtain ⟨order, closed, permuted⟩ := opens.closed
    refine ⟨order ++ [vertex], ?_, (perm_append_singleton _ _).trans (permuted.cons _)⟩
    rw [leave, closed, enter, append_assoc]
  back := opens.back
  successors := by
    intro inner member next edge
    rcases mem_cons.mp member with rfl | member
    · exact met next edge
    · exact opens.successors inner member next edge

end Opens

/-- Each closed vertex stands behind its successors, except for those that were
met as ends of back edges and lead back to it. -/
def Settled (successors : V → List V) (back order : List V) : Prop :=
  ∀ front vertex rest, order = front ++ vertex :: rest →
    ∀ next ∈ successors vertex, next ∈ front ∨ next ∈ back ∧ Reaches successors next vertex

theorem settled_nil (successors : V → List V) (back : List V) : Settled successors back [] := by
  intro front vertex rest split
  exact absurd split.symm (append_ne_nil_of_right_ne_nil front (cons_ne_nil vertex rest))

theorem Settled.mono {successors : V → List V} {back wider order : List V}
    (settled : Settled successors back order) (subset : back ⊆ wider) :
    Settled successors wider order := by
  intro front vertex rest split next edge
  rcases settled front vertex rest split next edge with before | ⟨isBack, reaches⟩
  · exact .inl before
  · exact .inr ⟨subset isBack, reaches⟩

variable {vertex : V}

theorem Settled.snoc {successors : V → List V} {back order : List V}
    (settled : Settled successors back order)
    (last : ∀ next ∈ successors vertex,
      next ∈ order ∨ next ∈ back ∧ Reaches successors next vertex) :
    Settled successors back (order ++ [vertex]) :=
  forall_places_snoc.mpr ⟨settled, last⟩

/-!
## The walk
-/

variable [DecidableEq V]

def meet (walk : Walk V) (vertex : V) : Walk V :=
  { walk with back := if vertex ∈ walk.closed then walk.back else walk.back ++ [vertex] }

/-- The walk from a vertex, with at most the given number of vertices on its path. -/
def visit (successors : V → List V) : Nat → Walk V → V → Option (Walk V)
  | 0, _, _ => none
  | levels + 1, walk, vertex =>
    if vertex ∈ walk.opened then some (walk.meet vertex)
    else
      ((successors vertex).foldlM (visit successors levels) (walk.enter vertex)).map
        (·.leave vertex)

/-!
## Induction over a walk
-/

variable {successors : V → List V} {walk after : Walk V}

/-- What holds of the visit of a met vertex, and of the visit of a fresh vertex
if it holds along its successors, holds of every visit. -/
theorem visit_rule {C : Walk V → V → Walk V → Prop} {L : Walk V → List V → Walk V → Prop}
    (met : ∀ walk vertex, vertex ∈ walk.opened → C walk vertex (walk.meet vertex))
    (fresh : ∀ walk vertex after, vertex ∉ walk.opened →
      L (walk.enter vertex) (successors vertex) after → C walk vertex (after.leave vertex))
    (done : ∀ walk, L walk [] walk)
    (step : ∀ walk vertex vertices middle after,
      C walk vertex middle → L middle vertices after → L walk (vertex :: vertices) after)
    {levels : Nat} (visited : visit successors levels walk vertex = some after) :
    C walk vertex after := by
  induction levels generalizing walk after vertex with
  | zero => cases visited
  | succ levels ih =>
    have loop : ∀ vertices walk after,
        vertices.foldlM (visit successors levels) walk = some after → L walk vertices after := by
      intro vertices
      induction vertices with
      | nil =>
        intro walk after run
        cases run
        exact done walk
      | cons vertex vertices rest =>
        intro walk after run
        obtain ⟨middle, first, last⟩ := Option.bind_eq_some_iff.mp run
        exact step walk vertex vertices middle after (ih first) (rest middle after last)
    rw [visit] at visited
    split at visited
    next seen =>
      cases visited
      exact met walk vertex seen
    next unseen =>
      obtain ⟨inner, run, rfl⟩ := Option.map_eq_some_iff.mp visited
      exact fresh walk vertex inner unseen (loop _ _ _ run)

/-!
## What a visit does
-/

theorem back_meet_isPrefix (walk : Walk V) (vertex : V) :
    walk.back <+: (walk.meet vertex).back := by
  unfold meet
  split
  next => exact prefix_rfl
  next => exact prefix_append _ _

theorem opens_meet (walk : Walk V) (vertex : V) : Opens successors walk (walk.meet vertex) [] where
  opened := (append_nil _).symm
  closed := ⟨[], (append_nil _).symm, .nil⟩
  back := back_meet_isPrefix walk vertex
  successors := nofun

variable {walk : Walk V}

theorem Sound.meet (sound : walk.Sound) (vertex : V) : (walk.meet vertex).Sound :=
  ⟨sound.opened, sound.closed, sound.subset⟩

theorem done_meet (walk : Walk V) (vertex : V) :
    vertex ∈ (walk.meet vertex).closed ∨ vertex ∈ (walk.meet vertex).back := by
  by_cases closed : vertex ∈ walk.closed
  · exact .inl closed
  · refine .inr ?_
    rw [meet, if_neg closed]
    exact mem_append_right _ (mem_singleton.mpr rfl)

omit [DecidableEq V] in
theorem Sound.enter (sound : walk.Sound) (unseen : vertex ∉ walk.opened) :
    (walk.enter vertex).Sound where
  opened := by
    rw [Walk.enter, nodup_append_comm]
    exact nodup_cons.mpr ⟨unseen, sound.opened⟩
  closed := sound.closed
  subset := by
    intro closed member
    exact mem_append_left _ (sound.subset closed member)

/-- Visiting the vertices opens what is fresh among what they reach, meets all of
them and, if all open vertices reach them, keeps the order of closing settled. -/
structure Visited (successors : V → List V) (walk : Walk V) (vertices : List V)
    (after : Walk V) : Prop where
  sound : after.Sound
  fresh : ∃ fresh, Opens successors walk after fresh ∧
    ∀ reached ∈ fresh, ∃ vertex ∈ vertices, Reaches successors vertex reached
  met : ∀ vertex ∈ vertices, vertex ∈ after.opened
  first : ∀ vertex, vertices.head? = some vertex → vertex ∉ walk.opened →
    walk.opened ++ [vertex] <+: after.opened
  done : ∀ vertex ∈ vertices, vertex ∈ after.closed ∨ vertex ∈ after.back
  settled : (∀ vertex ∈ walk.opened, vertex ∉ walk.closed →
      ∀ target ∈ vertices, Reaches successors vertex target) →
    Settled successors walk.back walk.closed → Settled successors after.back after.closed

theorem visited_meet (sound : walk.Sound) (seen : vertex ∈ walk.opened) :
    Visited successors walk [vertex] (walk.meet vertex) where
  sound := sound.meet vertex
  fresh := ⟨[], opens_meet walk vertex, nofun⟩
  met := by
    intro target member
    obtain rfl := mem_singleton.mp member
    have opens : Opens successors walk (walk.meet target) [] := opens_meet walk target
    exact opens.mem_opened_iff.mpr (.inl seen)
  first := by
    intro target head unseen
    cases head
    exact absurd seen unseen
  done := by
    intro target member
    obtain rfl := mem_singleton.mp member
    exact done_meet walk target
  settled := fun _ settled => settled.mono (back_meet_isPrefix walk vertex).subset

omit [DecidableEq V] in
theorem Visited.cons {walk middle after : Walk V} {vertices : List V}
    (one : Visited successors walk [vertex] middle)
    (more : Visited successors middle vertices after) :
    Visited successors walk (vertex :: vertices) after := by
  obtain ⟨fresh, opens, reached⟩ := one.fresh
  obtain ⟨later, opensLater, reachedLater⟩ := more.fresh
  refine ⟨more.sound, ⟨fresh ++ later, opens.trans opensLater, ?_⟩, ?_, ?_, ?_, ?_⟩
  · intro target member
    rcases mem_append.mp member with early | late
    · obtain ⟨source, isVertex, reaches⟩ := reached target early
      obtain rfl := mem_singleton.mp isVertex
      exact ⟨source, .head _, reaches⟩
    · obtain ⟨source, isVertex, reaches⟩ := reachedLater target late
      exact ⟨source, .tail _ isVertex, reaches⟩
  · intro target member
    rcases mem_cons.mp member with rfl | member
    · exact opensLater.mem_opened_iff.mpr (.inl (one.met target (.head _)))
    · exact more.met target member
  · intro target head unseen
    have prefixLater : middle.opened <+: after.opened := ⟨later, opensLater.opened.symm⟩
    exact (one.first target head unseen).trans prefixLater
  · intro target member
    rcases mem_cons.mp member with rfl | member
    · rcases one.done target (.head _) with closed | isBack
      · exact .inl (opensLater.mem_closed_iff.mpr (.inl closed))
      · exact .inr (opensLater.back.subset isBack)
    · exact more.done target member
  · intro active settled
    refine more.settled ?_ (one.settled ?_ settled)
    · intro source isOpen unclosed target member
      obtain ⟨before, unclosedBefore⟩ := opens.active isOpen unclosed
      exact active source before unclosedBefore target (.tail _ member)
    · intro source isOpen unclosed target member
      obtain rfl := mem_singleton.mp member
      exact active source isOpen unclosed target (.head _)

omit [DecidableEq V] in
theorem Visited.around (sound : walk.Sound) (unseen : vertex ∉ walk.opened)
    (inner : Visited successors (walk.enter vertex) (successors vertex) after) :
    Visited successors walk [vertex] (after.leave vertex) := by
  obtain ⟨fresh, opens, reached⟩ := inner.fresh
  have notFresh : vertex ∉ fresh := by
    have distinct := inner.sound.opened
    rw [opens.opened] at distinct
    intro isFresh
    exact (disjoint_of_nodup_append distinct)
      (mem_append_right _ (mem_singleton.mpr rfl)) isFresh
  have notClosed : vertex ∉ after.closed := by
    rw [opens.mem_closed_iff, not_or]
    exact ⟨fun closed => unseen (sound.subset vertex closed), notFresh⟩
  have entered : vertex ∈ after.opened :=
    opens.mem_opened_iff.mpr (.inl (mem_append_right _ (mem_singleton.mpr rfl)))
  refine ⟨⟨inner.sound.opened, ?_, ?_⟩, ⟨vertex :: fresh, opens.around inner.met, ?_⟩, ?_, ?_, ?_, ?_⟩
  · rw [leave, nodup_append_comm]
    exact nodup_cons.mpr ⟨notClosed, inner.sound.closed⟩
  · intro closed member
    rcases mem_append.mp member with before | last
    · exact inner.sound.subset closed before
    · obtain rfl := mem_singleton.mp last
      exact entered
  · intro target member
    refine ⟨vertex, .head _, ?_⟩
    rcases mem_cons.mp member with rfl | member
    · exact .refl
    · obtain ⟨next, edge, reaches⟩ := reached target member
      exact .head edge reaches
  · intro target member
    obtain rfl := mem_singleton.mp member
    exact entered
  · intro target head _
    cases head
    exact ⟨fresh, opens.opened.symm⟩
  · intro target member
    obtain rfl := mem_singleton.mp member
    exact .inl (mem_append_right _ (mem_singleton.mpr rfl))
  · intro active settled
    -- while the vertex is open, the open vertices are those from before and itself
    have activeInside : ∀ source ∈ (walk.enter vertex).opened, source ∉ walk.closed →
        Reaches successors source vertex := by
      intro source isOpen unclosed
      rcases mem_append.mp isOpen with before | itself
      · exact active source before unclosed vertex (.head _)
      · obtain rfl := mem_singleton.mp itself
        exact .refl
    have settledInside := inner.settled
      (fun source isOpen unclosed next edge => (activeInside source isOpen unclosed).tail edge)
      settled
    refine settledInside.snoc fun next edge => ?_
    rcases inner.done next edge with closed | isBack
    · exact .inl closed
    · by_cases closed : next ∈ after.closed
      · exact .inl closed
      · obtain ⟨isOpen, unclosed⟩ := opens.active (inner.met next edge) closed
        exact .inr ⟨isBack, activeInside next isOpen unclosed⟩

theorem visited_of_visit {levels : Nat} (sound : walk.Sound)
    (visited : visit successors levels walk vertex = some after) :
    Visited successors walk [vertex] after := by
  revert sound
  refine visit_rule
    (C := fun walk vertex after => walk.Sound → Visited successors walk [vertex] after)
    (L := fun walk vertices after => walk.Sound → Visited successors walk vertices after)
    ?_ ?_ ?_ ?_ visited
  · intro walk vertex seen sound
    exact visited_meet sound seen
  · intro walk vertex after unseen inner sound
    exact .around sound unseen (inner (sound.enter unseen))
  · intro walk sound
    exact ⟨sound, ⟨[], .refl walk, nofun⟩, nofun, nofun, nofun, fun _ settled => settled⟩
  · intro walk vertex vertices middle after one more sound
    exact (one sound).cons (more (one sound).sound)

section FromStart

variable {levels : Nat} {root : V} {after : Walk V}

variable (visited : visit successors levels start root = some after)

include visited

theorem mem_opened_iff_reaches (vertex : V) :
    vertex ∈ after.opened ↔ Reaches successors root vertex := by
  have outcome := visited_of_visit sound_start visited
  obtain ⟨fresh, opens, reached⟩ := outcome.fresh
  have opened : after.opened = fresh := opens.opened
  constructor
  · intro member
    rw [opened] at member
    obtain ⟨source, isRoot, reaches⟩ := reached vertex member
    obtain rfl := mem_singleton.mp isRoot
    exact reaches
  · intro reaches
    induction reaches with
    | refl => exact outcome.met root (.head _)
    | tail _ edge ih =>
      rw [opened] at ih
      exact opens.successors _ ih _ edge

theorem perm_of_visit : after.closed.Perm after.opened := by
  obtain ⟨fresh, opens, -⟩ := (visited_of_visit sound_start visited).fresh
  obtain ⟨order, closed, permuted⟩ := opens.closed
  rw [closed, opens.opened]
  exact permuted

theorem settled_of_visit : Settled successors after.back after.closed :=
  (visited_of_visit sound_start visited).settled nofun (settled_nil _ _)

omit visited

omit [DecidableEq V] in
theorem Settled.mem_front {order front rest : List V} {vertex target : V}
    (settled : Settled successors [] order) (split : order = front ++ vertex :: rest)
    (path : Relation.TransGen (fun vertex next => next ∈ successors vertex) vertex target) :
    target ∈ front := by
  induction path using Relation.TransGen.head_induction_on generalizing front rest with
  | single edge =>
    rcases settled front _ rest split target edge with before | ⟨impossible, -⟩
    · exact before
    · cases impossible
  | head edge _ ih =>
    rcases settled front _ rest split _ edge with before | ⟨impossible, -⟩
    · obtain ⟨earlier, between, rfl⟩ := mem_iff_append.mp before
      rw [append_assoc, cons_append] at split
      exact mem_append_left _ (ih split)
    · cases impossible

theorem acyclic_of_visit (visited : visit successors levels start root = some after)
    (none : after.back = []) {vertex : V} (reaches : Reaches successors root vertex) :
    ¬ Relation.TransGen (fun vertex next => next ∈ successors vertex) vertex vertex := by
  intro cycle
  have settled := settled_of_visit visited
  rw [none] at settled
  have closed := (perm_of_visit visited).mem_iff.mpr ((mem_opened_iff_reaches visited _).mpr reaches)
  obtain ⟨front, rest, split⟩ := mem_iff_append.mp closed
  have distinct := (visited_of_visit sound_start visited).sound.closed
  rw [split, nodup_middle, nodup_cons] at distinct
  exact distinct.1 (mem_append_left _ (settled.mem_front split cycle))

end FromStart

/-!
## Walks end
-/

/-- A walk in a finite graph ends if more vertices may stand on its path than
the graph has left. -/
theorem exists_visit {vertices : List V}
    (closed : ∀ vertex ∈ vertices, ∀ next ∈ successors vertex, next ∈ vertices) {levels : Nat}
    (sound : walk.Sound) (member : vertex ∈ vertices)
    (room : (Search.outside vertices walk.opened).length < levels) :
    ∃ after, visit successors levels walk vertex = some after := by
  induction levels generalizing walk vertex with
  | zero => exact absurd room (Nat.not_lt_zero _)
  | succ levels ih =>
    rw [visit]
    split
    next => exact ⟨_, rfl⟩
    next unseen =>
      have loop : ∀ (targets : List V) walk, walk.Sound → (∀ target ∈ targets, target ∈ vertices) →
          (Search.outside vertices walk.opened).length < levels →
          ∃ after, targets.foldlM (visit successors levels) walk = some after := by
        intro targets
        induction targets with
        | nil => exact fun walk _ _ _ => ⟨walk, rfl⟩
        | cons target targets rest =>
          intro walk sound members room
          obtain ⟨middle, visited⟩ := ih sound (members target (.head _)) room
          have outcome := visited_of_visit sound visited
          obtain ⟨fresh, opens, -⟩ := outcome.fresh
          have wider : walk.opened ⊆ middle.opened := fun other isOpen =>
            opens.mem_opened_iff.mpr (.inl isOpen)
          obtain ⟨after, run⟩ := rest middle outcome.sound
            (fun other member => members other (.tail _ member))
            (Nat.lt_of_le_of_lt (Search.length_outside_le wider) room)
          exact ⟨after, by rw [foldlM_cons, visited]; exact run⟩
      have entered : vertex :: walk.opened ⊆ (walk.enter vertex).opened :=
        cons_subset.mpr ⟨mem_append_right _ (.head _), subset_append_left _ _⟩
      have smaller := Nat.lt_of_le_of_lt (Search.length_outside_le entered)
        (Search.length_outside_cons member unseen)
      obtain ⟨after, run⟩ := loop (successors vertex) (walk.enter vertex) (sound.enter unseen)
        (closed vertex member) (Nat.lt_of_lt_of_le smaller (Nat.lt_succ_iff.mp room))
      exact ⟨after.leave vertex, by rw [run, Option.map_some]⟩

end Walk

end FrankenEngine.Library
