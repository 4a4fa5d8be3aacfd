import FrankenEngine.Esm.Components
import Mathlib.Order.MinMax
import Mathlib.Order.WellFounded

/-!
# What the component search finds

Every visit keeps the invariant of the search. From an entry, the search opens
all that the entry leads to, and a module ends with the index of the last root
that leads to it. That tells the strongly connected components apart exactly if
each of them is discovered before all that it leads to.
-/

set_option autoImplicit false

namespace FrankenEngine.Esm

open Library Library.Walk List

namespace Scan

variable {V : Type} [DecidableEq V] {next : V → List V}

/-!
## What a visit finds
-/

/-- What the visits of the vertices leave behind, if the answer so far was
`before` and is `answer` then. The answer is below the index of a module on the
stack only if the visited vertices lead below that module. -/
structure Searched (next : V → List V) (scan : Scan V) (vertices : List V) (before answer : Nat)
    (after : Scan V) : Prop where
  inv : Inv next after
  walk : Visited next scan.walk vertices after.walk
  grows : ∃ fresh added, Grows scan after fresh added ∧
    ∀ known ∈ scan.walk.opened, (known ∈ vertices ∨ ∃ source ∈ fresh, known ∈ next source) →
      answer ≤ scan.answer known
  le : answer ≤ before
  witness : ∀ stacked ∈ scan.stack, answer < scan.place stacked → before < scan.place stacked ∨
    ∃ vertex ∈ vertices, ∃ lower ∈ after.walk.opened, Reaches next vertex lower ∧
      after.place lower < scan.place stacked

def Towards (next : V → List V) (scan : Scan V) (vertices : List V) : Prop :=
  ∀ source ∈ scan.walk.opened, source ∉ scan.walk.closed → ∀ vertex ∈ vertices,
    Relation.TransGen (fun vertex target => target ∈ next vertex) source vertex

variable {scan : Scan V}

theorem grows_meet (inv : Inv next scan) (vertex : V) : Grows scan (scan.meet vertex) [] [] :=
  ⟨inv.sound.opened, (append_nil _).symm, rfl, nofun, fun _ _ => rfl⟩

variable {vertex : V}

theorem inv_meet (inv : Inv next scan) (towards : Towards next scan [vertex])
    (seen : vertex ∈ scan.walk.opened) : Inv next (scan.meet vertex) where
  sound := inv.sound.meet vertex
  opened := inv.opened
  closed := inv.closed
  successors := inv.successors
  component := by
    intro other linked
    obtain ⟨root, ancestor, component⟩ := inv.component other linked
    exact ⟨root, ancestor, (grows_meet inv vertex).component inv linked component⟩
  unfinished := inv.unfinished
  back := by
    intro target isBack
    unfold meet
    by_cases stacked : vertex ∈ scan.stack
    · rw [if_pos stacked]
      unfold meet Walk.meet at isBack
      split at isBack
      · exact mem_append_left _ (inv.back target isBack)
      · rcases mem_append.mp isBack with known | last
        · exact mem_append_left _ (inv.back target known)
        · exact mem_append_right _ last
    · have closed := inv.closed vertex ⟨seen, stacked⟩
      unfold meet Walk.meet at isBack
      rw [if_pos closed] at isBack
      rw [if_neg stacked]
      exact inv.back target isBack
  reports := by
    intro target isReport
    unfold meet at isReport
    split at isReport
    next stacked =>
      rcases mem_append.mp isReport with known | last
      · exact inv.reports target known
      · obtain rfl := mem_singleton.mp last
        refine ⟨seen, fun other opened _ reaches => ?_⟩
        -- a linked module leads to linked ones only, so the other one is on the stack
        have otherStacked : other ∈ scan.stack := by
          by_contra unstacked
          exact (inv.linked_of_reaches ⟨opened, unstacked⟩ reaches).2 stacked
        by_cases closed : other ∈ scan.walk.closed
        · exact .inr (inv.unfinished other otherStacked closed)
        · exact .inl (towards other opened closed target (.head _))
    next => exact inv.reports target isReport

theorem searched_meet (inv : Inv next scan) (towards : Towards next scan [vertex])
    (seen : vertex ∈ scan.walk.opened) (before : Nat) :
    Searched next scan [vertex] before (min (scan.answer vertex) before) (scan.meet vertex) where
  inv := inv_meet inv towards seen
  walk := visited_meet inv.sound seen
  grows := by
    refine ⟨[], [], grows_meet inv vertex, ?_⟩
    intro known opened reason
    rcases reason with member | ⟨source, impossible, -⟩
    · obtain rfl := mem_singleton.mp member
      exact Nat.min_le_left _ _
    · cases impossible
  le := Nat.min_le_right _ _
  witness := by
    intro stacked isStacked below
    rcases min_lt_iff.mp below with fromAnswer | fromBefore
    · refine .inr ⟨vertex, .head _, vertex, seen, .refl, ?_⟩
      unfold answer at fromAnswer
      split at fromAnswer
      next => exact fromAnswer
      next unstacked =>
        -- the stacked module would lie between the root and the vertex otherwise
        obtain ⟨root, ancestor, component⟩ := inv.component vertex ⟨seen, unstacked⟩
        rw [ancestor, Option.getD_some] at fromAnswer
        by_contra above
        exact component.between stacked (inv.opened stacked isStacked) fromAnswer.le
          (Nat.not_lt.mp above) isStacked
    · exact .inl fromBefore

theorem Searched.cons {scan middle after : Scan V} {rest : List V} {before answer final : Nat}
    (inv : Inv next scan) (one : Searched next scan [vertex] before answer middle)
    (more : Searched next middle rest answer final after) :
    Searched next scan (vertex :: rest) before final after := by
  obtain ⟨fresh, added, grows, bound⟩ := one.grows
  obtain ⟨later, moreAdded, growsLater, boundLater⟩ := more.grows
  refine ⟨more.inv, one.walk.cons more.walk,
    ⟨fresh ++ later, moreAdded ++ added, grows.trans growsLater, ?_⟩, more.le.trans one.le, ?_⟩
  · intro known opened reason
    by_cases late : known ∈ rest ∨ ∃ source ∈ later, known ∈ next source
    · rw [← grows.answer_eq opened]
      exact boundLater known (grows.mem_opened opened) late
    · refine more.le.trans (bound known opened ?_)
      rcases reason with member | ⟨source, isFresh, edge⟩
      · rcases mem_cons.mp member with rfl | member
        · exact .inl (.head _)
        · exact absurd (.inl member) late
      · rcases mem_append.mp isFresh with early | isLater
        · exact .inr ⟨source, early, edge⟩
        · exact absurd (.inr ⟨source, isLater, edge⟩) late
  · intro stacked isStacked below
    have opened := inv.opened stacked isStacked
    have stackedMiddle : stacked ∈ middle.stack := by
      rw [grows.stack]
      exact mem_append_right _ isStacked
    rw [← grows.place_eq opened] at below
    rcases more.witness stacked stackedMiddle below with early | ⟨source, isRest, lower, found⟩
    · rw [grows.place_eq opened] at early
      rcases one.witness stacked isStacked early with done | ⟨source, isVertex, lower, found⟩
      · exact .inl done
      · obtain rfl := mem_singleton.mp isVertex
        obtain ⟨lowerOpened, reaches, lowerPlace⟩ := found
        refine .inr ⟨source, .head _, lower, growsLater.mem_opened lowerOpened, reaches, ?_⟩
        rw [growsLater.place_eq lowerOpened]
        exact lowerPlace
    · rw [grows.place_eq opened] at found
      exact .inr ⟨source, .tail _ isRest, lower, found⟩

/-!
## Entering and leaving a module
-/

theorem grows_enter (inv : Inv next scan) (unseen : vertex ∉ scan.walk.opened) :
    Grows scan (scan.enter vertex) [vertex] [vertex] where
  distinct := (inv.sound.enter unseen).opened
  opened := rfl
  stack := rfl
  added := fun _ member => member
  kept := by
    intro other linked
    exact Function.update_of_ne (ne_of_mem_of_not_mem linked.1 unseen) _ _

theorem inv_enter (inv : Inv next scan) (unseen : vertex ∉ scan.walk.opened) :
    Inv next (scan.enter vertex) := by
  have grows := grows_enter inv unseen
  -- the module itself is on the stack, so that the linked modules stay the same
  have linkedBefore : ∀ other, (scan.enter vertex).Linked other → scan.Linked other := by
    intro other linked
    have apart : other ≠ vertex ∧ other ∉ scan.stack := by
      have unstacked := linked.2
      rwa [enter, mem_cons, not_or] at unstacked
    rcases mem_append.mp linked.1 with opened | last
    · exact ⟨opened, apart.2⟩
    · exact absurd (mem_singleton.mp last) apart.1
  refine ⟨inv.sound.enter unseen, ?_, ?_, ?_, ?_, ?_, inv.back, ?_⟩
  · intro other stacked
    rcases mem_cons.mp stacked with rfl | stacked
    · exact mem_append_right _ (.head _)
    · exact grows.mem_opened (inv.opened other stacked)
  · intro other linked
    exact inv.closed other (linkedBefore other linked)
  · intro other linked target edge
    exact grows.linked (inv.successors other (linkedBefore other linked) target edge)
  · intro other linked
    have linkedOther := linkedBefore other linked
    obtain ⟨root, ancestor, component⟩ := inv.component other linkedOther
    refine ⟨root, ?_, grows.component inv linkedOther component⟩
    rw [grows.kept other linkedOther, grows.place_eq component.linked.1]
    exact ancestor
  · intro other stacked closed
    have opened := inv.sound.subset other closed
    rcases mem_cons.mp stacked with rfl | stacked
    · exact absurd opened unseen
    · exact grows.low opened (inv.unfinished other stacked closed)
  · intro target isReport
    exact grows.reported (inv.reports target isReport)

theorem towards_enter (towards : Towards next scan [vertex]) :
    Towards next (scan.enter vertex) (next vertex) := by
  intro source opened unclosed target edge
  rcases mem_append.mp opened with before | last
  · exact (towards source before unclosed vertex (.head _)).tail edge
  · obtain rfl := mem_singleton.mp last
    exact .single edge

theorem above_append {added rest : List V} (absent : vertex ∉ added) :
    above (added ++ vertex :: rest) vertex = added ++ [vertex] := by
  have passes : ∀ other ∈ added, decide (other ≠ vertex) = true := fun other member =>
    decide_eq_true (ne_of_mem_of_not_mem member absent)
  rw [above, takeWhile_append_of_pos passes, takeWhile_cons_of_neg (by simp), append_nil]

theorem below_append {added rest : List V} (absent : vertex ∉ added) :
    below (added ++ vertex :: rest) vertex = rest := by
  have passes : ∀ other ∈ added, decide (other ≠ vertex) = true := fun other member =>
    decide_eq_true (ne_of_mem_of_not_mem member absent)
  rw [below, dropWhile_append_of_pos passes, dropWhile_cons_of_neg (by simp), tail_cons]

section Leave

variable {scan after : Scan V} {vertex : V} {ancestor : Nat} {fresh added : List V}

theorem place_enter (unseen : vertex ∉ scan.walk.opened) :
    (scan.enter vertex).place vertex = scan.walk.opened.length := by
  rw [place, enter, Walk.enter, idxOf_append_of_notMem unseen, idxOf_cons_self]
  rfl

theorem inv_leave_low (inv : Inv next after) (visited : (after.walk.leave vertex).Sound)
    (stacked : vertex ∈ after.stack) {index : Nat} (low : ancestor ≠ index)
    (isLow : Low next after.walk.opened vertex) : Inv next (after.leave vertex index ancestor) := by
  rw [leave, if_neg low]
  refine ⟨visited, inv.opened, ?_, inv.successors, ?_, ?_, inv.back, inv.reports⟩
  · intro other linked
    exact mem_append_left _ (inv.closed other linked)
  · intro other linked
    obtain ⟨root, found, component⟩ := inv.component other linked
    refine ⟨root, ?_, component.linked, component.reaches, component.least, component.last,
      component.between⟩
    exact (Function.update_of_ne (ne_of_mem_of_not_mem stacked linked.2).symm _ _).trans found
  · intro other otherStacked closed
    rcases mem_append.mp closed with before | last
    · exact inv.unfinished other otherStacked before
    · obtain rfl := mem_singleton.mp last
      exact isLow

omit [DecidableEq V] in
theorem mem_of_reaches {vertices : List V} (closed : ∀ source ∈ vertices, ∀ target ∈ next source,
      target ∈ vertices) {source target : V} (member : source ∈ vertices)
    (reaches : Reaches next source target) : target ∈ vertices := by
  induction reaches with
  | refl => exact member
  | tail _ edge ih => exact closed _ ih _ edge

/-- The module leads to one that was opened before it if its dependencies answer
below its own index. -/
theorem low_of_answer (unseen : vertex ∉ scan.walk.opened)
    (inner : Searched next (scan.enter vertex) (next vertex) scan.walk.opened.length ancestor after)
    (below : ancestor < scan.walk.opened.length) : Low next after.walk.opened vertex := by
  obtain ⟨fresh, added, grows, -⟩ := inner.grows
  have entered : vertex ∈ (scan.enter vertex).walk.opened := mem_append_right _ (.head _)
  have found := inner.witness vertex (.head _)
  rw [place_enter unseen] at found
  rcases found below with impossible | ⟨source, edge, lower, opened, reaches, lowerPlace⟩
  · exact absurd impossible (Nat.lt_irrefl _)
  · refine ⟨lower, opened, .head edge reaches, ?_⟩
    change after.place lower < after.place vertex
    rw [grows.place_eq entered, place_enter unseen]
    exact lowerPlace

variable (inv : Inv next scan) (unseen : vertex ∉ scan.walk.opened)

include inv unseen

section Grown

variable (inner : Grows (scan.enter vertex) after fresh added)

include inner

theorem grows_leave_low (low : ancestor ≠ scan.walk.opened.length) :
    Grows scan (after.leave vertex scan.walk.opened.length ancestor) (vertex :: fresh)
      (added ++ [vertex]) := by
  have grows := (grows_enter inv unseen).trans inner
  rw [leave, if_neg low]
  refine ⟨grows.distinct, grows.opened, grows.stack, grows.added, ?_⟩
  intro other linked
  rw [← grows.kept other linked]
  exact Function.update_of_ne (ne_of_mem_of_not_mem linked.1 unseen) _ _

theorem grows_leave_root :
    Grows scan (after.leave vertex scan.walk.opened.length scan.walk.opened.length)
      (vertex :: fresh) [] := by
  have grows := (grows_enter inv unseen).trans inner
  have absent : vertex ∉ added := fun member => inner.not_fresh
    (mem_append_right _ (.head _)) (inner.added vertex member)
  have stack : after.stack = added ++ vertex :: scan.stack := inner.stack
  rw [leave, if_pos rfl, stack, above_append absent, below_append absent]
  refine ⟨grows.distinct, grows.opened, rfl, nofun, ?_⟩
  intro other linked
  have unpopped : other ∉ added ++ [vertex] := fun popped =>
    grows.not_fresh linked.1 (grows.added other popped)
  rw [← grows.kept other linked]
  exact if_neg unpopped

theorem inv_leave_root (innerInv : Inv next after)
    (visited : Visited next scan.walk [vertex] (after.walk.leave vertex))
    (inside : ∀ source ∈ vertex :: fresh, ∀ target ∈ next source, target ∈ vertex :: fresh) :
    Inv next (after.leave vertex scan.walk.opened.length scan.walk.opened.length) := by
  have absent : vertex ∉ added := fun member => inner.not_fresh
    (mem_append_right _ (.head _)) (inner.added vertex member)
  have stack : after.stack = added ++ vertex :: scan.stack := inner.stack
  have grows := (grows_enter inv unseen).trans inner
  have opened : after.walk.opened = scan.walk.opened ++ vertex :: fresh := grows.opened
  obtain ⟨visitedFresh, opens, reached⟩ := visited.fresh
  obtain rfl : visitedFresh = vertex :: fresh :=
    append_cancel_left (opens.opened.symm.trans opened)
  have placed : after.place vertex = scan.walk.opened.length := by
    rw [inner.place_eq (mem_append_right _ (.head _)), place_enter unseen]
  rw [leave, if_pos rfl, stack, above_append absent, below_append absent]
  refine ⟨visited.sound, ?_, ?_, ?_, ?_, ?_, innerInv.back, innerInv.reports⟩
  · intro other stacked
    exact grows.mem_opened (inv.opened other stacked)
  · rintro other ⟨isOpen, unstacked⟩
    rcases opens.mem_opened_iff.mp isOpen with before | isFresh
    · exact opens.mem_closed_iff.mpr (.inl (inv.closed other ⟨before, unstacked⟩))
    · exact opens.mem_closed_iff.mpr (.inr isFresh)
  · rintro other ⟨isOpen, unstacked⟩ target edge
    rcases opens.mem_opened_iff.mp isOpen with before | isFresh
    · obtain ⟨targetOpened, targetUnstacked⟩ := inv.successors other ⟨before, unstacked⟩ target edge
      exact ⟨grows.mem_opened targetOpened, targetUnstacked⟩
    · have targetFresh := inside other isFresh target edge
      exact ⟨opens.mem_opened_iff.mpr (.inr targetFresh),
        fun stacked => grows.not_fresh (inv.opened target stacked) targetFresh⟩
  · rintro other ⟨isOpen, unstacked⟩
    by_cases popped : other ∈ added ++ [vertex]
    · refine ⟨vertex, ?_, ?_⟩
      · exact (if_pos popped).trans (congrArg some placed.symm)
      · have otherFresh : other ∈ vertex :: fresh := grows.added other popped
        refine ⟨⟨opens.mem_opened_iff.mpr (.inr (.head _)), fun stacked =>
          unseen (inv.opened vertex stacked)⟩, ?_, ?_, ?_, ?_⟩
        · obtain ⟨source, isVertex, reaches⟩ := reached other otherFresh
          obtain rfl := mem_singleton.mp isVertex
          exact reaches
        · intro target reaches
          have targetFresh := mem_of_reaches inside (.head _) reaches
          change after.place vertex ≤ after.place target
          rw [placed]
          exact grows.le_place fun before => grows.not_fresh before targetFresh
        · intro rival rivalOpened reaches notLow
          change after.place rival ≤ after.place vertex
          -- a rival above the vertex on the stack is low, and a linked one leads to linked modules
          have otherStacked : other ∈ after.stack := by
            rw [grows.stack]
            exact mem_append_left _ popped
          by_cases rivalStacked : rival ∈ after.stack
          · by_cases closed : rival ∈ after.walk.closed
            · exact absurd (innerInv.unfinished rival rivalStacked closed) notLow
            · rcases mem_append.mp (opened ▸ rivalOpened) with before | isFresh
              · rw [placed, grows.place_eq before]
                exact (Grows.place_lt before).le
              · have finished := opens.mem_closed_iff.mpr (.inr isFresh)
                rcases mem_append.mp finished with early | last
                · exact absurd early closed
                · rw [mem_singleton.mp last]
          · exact absurd otherStacked
              (innerInv.linked_of_reaches ⟨rivalOpened, rivalStacked⟩ reaches).2
        · intro rival _ above _ stacked
          have rivalOpened := inv.opened rival stacked
          change after.place vertex ≤ after.place rival at above
          rw [placed, grows.place_eq rivalOpened] at above
          exact absurd (Grows.place_lt rivalOpened) (Nat.not_lt.mpr above)
    · have linkedAfter : after.Linked other := by
        refine ⟨isOpen, ?_⟩
        rw [grows.stack, mem_append, not_or]
        exact ⟨popped, unstacked⟩
      have unstackedAfter : ∀ stackless, stackless ∉ after.stack → stackless ∉ scan.stack := by
        intro stackless notAfter stacked
        rw [grows.stack] at notAfter
        exact notAfter (mem_append_right _ stacked)
      obtain ⟨root, found, component⟩ := innerInv.component other linkedAfter
      refine ⟨root, (if_neg popped).trans found,
        ⟨component.linked.1, unstackedAfter root component.linked.2⟩, component.reaches,
        component.least, component.last, ?_⟩
      intro rival rivalOpened above upTo
      exact unstackedAfter rival (component.between rival rivalOpened above upTo)
  · intro other stacked closed
    have otherOpened := inv.opened other stacked
    rcases opens.mem_closed_iff.mp closed with before | isFresh
    · exact grows.low otherOpened (inv.unfinished other stacked before)
    · exact absurd isFresh (grows.not_fresh otherOpened)

/-- No edge leads from the module or what it opened back below the module if its
dependencies do not answer below its own index. -/
theorem inside_of_answer
    (visited : Visited next scan.walk [vertex] (after.walk.leave vertex))
    (bound : ∀ known ∈ scan.walk.opened, ∀ source ∈ vertex :: fresh, known ∈ next source →
      scan.walk.opened.length ≤ scan.answer known) :
    ∀ source ∈ vertex :: fresh, ∀ target ∈ next source, target ∈ vertex :: fresh := by
  intro source member target edge
  obtain ⟨visitedFresh, opens, -⟩ := visited.fresh
  obtain rfl : visitedFresh = vertex :: fresh := append_cancel_left
    (opens.opened.symm.trans ((grows_enter inv unseen).trans inner).opened)
  rcases opens.mem_opened_iff.mp (opens.successors source member target edge) with before | isFresh
  · have low := (bound target before source member edge).trans (inv.answer_le before)
    exact absurd (Grows.place_lt before) (Nat.not_lt.mpr low)
  · exact isFresh

end Grown

theorem Searched.around
    (inner : Searched next (scan.enter vertex) (next vertex) scan.walk.opened.length ancestor after)
    (before : Nat) : Searched next scan [vertex] before (min ancestor before)
      (after.leave vertex scan.walk.opened.length ancestor) := by
  obtain ⟨fresh, added, grows, bound⟩ := inner.grows
  have visited : Visited next scan.walk [vertex] (after.walk.leave vertex) :=
    .around inv.sound unseen inner.walk
  have edges : ∀ known ∈ scan.walk.opened, ∀ source ∈ vertex :: fresh, known ∈ next source →
      ancestor ≤ scan.answer known := by
    intro known opened source member edge
    rw [← (grows_enter inv unseen).answer_eq opened]
    refine bound known (mem_append_left _ opened) ?_
    rcases mem_cons.mp member with rfl | isFresh
    · exact .inl edge
    · exact .inr ⟨source, isFresh, edge⟩
  have invGrows : Inv next (after.leave vertex scan.walk.opened.length ancestor) ∧
      ∃ added, Grows scan (after.leave vertex scan.walk.opened.length ancestor) (vertex :: fresh)
        added := by
    rcases Nat.lt_or_eq_of_le inner.le with below | rfl
    · have stacked : vertex ∈ after.stack := by
        rw [grows.stack]
        exact mem_append_right _ (.head _)
      exact ⟨inv_leave_low inner.inv visited.sound stacked below.ne (low_of_answer unseen inner below),
        _, grows_leave_low inv unseen grows below.ne⟩
    · exact ⟨inv_leave_root inv unseen grows inner.inv visited
        (inside_of_answer inv unseen grows visited edges), _, grows_leave_root inv unseen grows⟩
  obtain ⟨invAfter, addedAfter, growsAfter⟩ := invGrows
  refine ⟨invAfter, ?_, ⟨vertex :: fresh, addedAfter, growsAfter, ?_⟩, Nat.min_le_right _ _, ?_⟩
  · rw [walk_leave]
    exact visited
  · intro known opened reason
    refine (Nat.min_le_left _ _).trans ?_
    rcases reason with member | ⟨source, member, edge⟩
    · exact absurd (mem_singleton.mp member ▸ opened) unseen
    · exact edges known opened source member edge
  · intro stacked isStacked below
    rcases min_lt_iff.mp below with fromAnswer | fromBefore
    · have opened := inv.opened stacked isStacked
      have found := inner.witness stacked (.tail _ isStacked)
      rw [(grows_enter inv unseen).place_eq opened] at found
      rcases found fromAnswer with impossible | ⟨source, edge, lower, lowerOpened, reaches, lowerPlace⟩
      · exact absurd impossible (Nat.not_lt.mpr (Grows.place_lt opened).le)
      · refine .inr ⟨vertex, .head _, lower, ?_, .head edge reaches, ?_⟩
        · rw [walk_leave]
          exact lowerOpened
        · rw [place, walk_leave]
          exact lowerPlace
    · exact .inl fromBefore

end Leave

/-!
## Every visit
-/

theorem searched_nil (inv : Inv next scan) (before : Nat) :
    Searched next scan [] before before scan where
  inv := inv
  walk := ⟨inv.sound, ⟨[], .refl _, nofun⟩, nofun, nofun, nofun, fun _ settled => settled⟩
  grows := by
    refine ⟨[], [], ⟨inv.sound.opened, (append_nil _).symm, rfl, nofun, fun _ _ => rfl⟩, ?_⟩
    intro known _ reason
    rcases reason with impossible | ⟨_, impossible, _⟩ <;> cases impossible
  le := Nat.le_refl _
  witness := fun _ _ below => .inl below

omit [DecidableEq V] in
theorem Towards.head {rest : List V} (towards : Towards next scan (vertex :: rest)) :
    Towards next scan [vertex] := by
  intro source opened unclosed target member
  obtain rfl := mem_singleton.mp member
  exact towards source opened unclosed target (.head _)

theorem Towards.rest {scan middle : Scan V} {rest : List V} {before answer : Nat}
    (towards : Towards next scan (vertex :: rest))
    (one : Searched next scan [vertex] before answer middle) : Towards next middle rest := by
  intro source opened unclosed target member
  obtain ⟨fresh, opens, -⟩ := one.walk.fresh
  obtain ⟨openedBefore, unclosedBefore⟩ := opens.active opened unclosed
  exact towards source openedBefore unclosedBefore target (.tail _ member)

theorem searched_of_visit {levels : Nat} {scan after : Scan V} {answer : Nat}
    (inv : Inv next scan) (towards : Towards next scan [vertex])
    (visited : visit next levels scan vertex = some (answer, after)) (before : Nat) :
    Searched next scan [vertex] before (min answer before) after := by
  revert inv towards before
  refine visit_rule
    (C := fun scan vertex answer after => Inv next scan → Towards next scan [vertex] →
      ∀ before, Searched next scan [vertex] before (min answer before) after)
    (L := fun scan vertices before final after => Inv next scan → Towards next scan vertices →
      Searched next scan vertices before final after)
    ?_ ?_ ?_ ?_ visited
  · intro scan vertex seen inv towards before
    exact searched_meet inv towards seen before
  · intro scan vertex ancestor after unseen inner inv towards before
    exact .around inv unseen (inner (inv_enter inv unseen) (towards_enter towards)) before
  · intro scan ancestor inv _
    exact searched_nil inv ancestor
  · intro scan vertex rest before answer middle final after one more inv towards
    have first := one inv towards.head before
    exact first.cons inv (more first.inv (towards.rest first))

theorem searched_of_visitAll {levels : Nat} {vertices : List V} {scan after : Scan V}
    {before final : Nat} (inv : Inv next scan) (towards : Towards next scan vertices)
    (visited : visitAll (visit next levels) vertices before scan = some (final, after)) :
    Searched next scan vertices before final after := by
  induction vertices generalizing scan before with
  | nil =>
    cases visited
    exact searched_nil inv _
  | cons vertex rest ih =>
    obtain ⟨⟨answer, middle⟩, one, more⟩ := Option.bind_eq_some_iff.mp visited
    have first := searched_of_visit inv towards.head one before
    exact first.cons inv (ih first.inv (towards.rest first) more)

/-!
## The search from a root
-/

theorem Component.not_low {root vertex : V} (component : Component next scan root vertex) :
    ¬ Low next scan.walk.opened root := by
  rintro ⟨lower, -, reaches, below⟩
  exact absurd below (Nat.not_lt.mpr (component.least lower reaches))

theorem Component.place_eq {rootOne one rootTwo two : V}
    (componentOne : Component next scan rootOne one)
    (componentTwo : Component next scan rootTwo two) (there : Reaches next rootOne two)
    (back : Reaches next rootTwo one) : scan.place rootOne = scan.place rootTwo := by
  have upTo := componentTwo.last rootOne componentOne.linked.1 there componentOne.not_low
  have downTo := componentOne.last rootTwo componentTwo.linked.1 back componentTwo.not_low
  exact Nat.le_antisymm upTo downTo

section FromStart

variable {levels answer : Nat} {entry : V} {after : Scan V}

variable (visited : visit next levels start entry = some (answer, after))

include visited

theorem inv_of_visit : Inv next after :=
  (searched_of_visit inv_start nofun visited 0).inv

theorem walk_of_visit : Walk.visit next levels .start entry = some after.walk := by
  have walked : (visit next levels start entry).map (·.2.walk) = _ := walk_visit levels start entry
  rw [visited] at walked
  exact walked.symm

variable {vertex : V}

theorem linked_of_visit (reaches : Reaches next entry vertex) : after.Linked vertex := by
  have inv := inv_of_visit visited
  have walked := walk_of_visit visited
  have outcome := visited_of_visit sound_start walked
  have entryOpened := outcome.met entry (.head _)
  have entryClosed := (perm_of_visit walked).mem_iff.mpr entryOpened
  refine inv.linked_of_reaches ⟨entryOpened, fun stacked => ?_⟩ reaches
  obtain ⟨rest, opened⟩ := outcome.first entry rfl (not_mem_nil)
  obtain ⟨lower, -, -, below⟩ := inv.unfinished entry stacked entryClosed
  have first : after.walk.opened = entry :: rest := opened.symm
  rw [first, idxOf_cons_self] at below
  exact absurd below (Nat.not_lt_zero _)

theorem exists_component (reaches : Reaches next entry vertex) :
    ∃ root, after.ancestor vertex = some (after.place root) ∧ Component next after root vertex :=
  (inv_of_visit visited).component vertex (linked_of_visit visited reaches)

omit visited

/-- Each module leads only to modules that were opened no earlier than some
module of its own component. -/
def DiscoversFirst (next : V → List V) (entry : V) (place : V → Nat) : Prop :=
  ∀ source target, Reaches next entry source → Reaches next source target →
    ∃ first, Reaches next source first ∧ Reaches next first source ∧ place first ≤ place target

theorem ancestor_eq_of_mutual (visited : visit next levels start entry = some (answer, after))
    {one two : V} (reaches : Reaches next entry one) (there : Reaches next one two)
    (back : Reaches next two one) : after.ancestor one = after.ancestor two := by
  obtain ⟨rootOne, ancestorOne, componentOne⟩ := exists_component visited reaches
  obtain ⟨rootTwo, ancestorTwo, componentTwo⟩ := exists_component visited (reaches.trans there)
  rw [ancestorOne, ancestorTwo, componentOne.place_eq componentTwo
    (componentOne.reaches.trans there) (componentTwo.reaches.trans back)]

theorem exists_first (discovers : DiscoversFirst next entry after.place)
    (reaches : Reaches next entry vertex) :
    ∃ first, Reaches next vertex first ∧ Reaches next first vertex ∧
      ∀ target, Reaches next first target → after.place first ≤ after.place target := by
  obtain ⟨first, ⟨there, back⟩, least⟩ := (measure after.place).wf.has_min
    {other | Reaches next vertex other ∧ Reaches next other vertex} ⟨vertex, .refl, .refl⟩
  refine ⟨first, there, back, fun target path => ?_⟩
  obtain ⟨other, toOther, fromOther, upTo⟩ := discovers first target (reaches.trans there) path
  exact (Nat.not_lt.mp (least other ⟨there.trans toOther, fromOther.trans back⟩)).trans upTo

variable (visited : visit next levels start entry = some (answer, after))

include visited

theorem reaches_root (discovers : DiscoversFirst next entry after.place) {root vertex : V}
    (reaches : Reaches next entry vertex) (component : Component next after root vertex) :
    Reaches next vertex root := by
  obtain ⟨first, there, back, least⟩ := exists_first discovers reaches
  have opened := (linked_of_visit visited (reaches.trans there)).1
  have upTo := component.last first opened back fun ⟨lower, _, path, below⟩ =>
    absurd below (Nat.not_lt.mpr (least lower path))
  have downTo := component.least first (component.reaches.trans there)
  obtain rfl := (idxOf_inj opened).mp (Nat.le_antisymm upTo downTo)
  exact there

/-- The indices tell the components apart exactly if each component is discovered
before all that it leads to. -/
theorem components_iff : (∀ one two, Reaches next entry one → Reaches next entry two →
      (after.ancestor one = after.ancestor two ↔ Reaches next one two ∧ Reaches next two one)) ↔
      DiscoversFirst next entry after.place := by
  constructor
  · intro components source target reaches path
    obtain ⟨root, ancestor, component⟩ := exists_component visited reaches
    -- the root of the root reaches the module too, so that both have the same index
    have rootReaches := (mem_opened_iff_reaches (walk_of_visit visited) root).mp component.linked.1
    obtain ⟨rootRoot, rootAncestor, rootComponent⟩ := exists_component visited rootReaches
    have same : after.ancestor source = after.ancestor root := by
      rw [ancestor, rootAncestor, component.place_eq rootComponent .refl
        (rootComponent.reaches.trans component.reaches)]
    obtain ⟨there, back⟩ := (components source root reaches rootReaches).mp same
    exact ⟨root, there, back, component.least target (back.trans path)⟩
  · intro discovers one two reachesOne reachesTwo
    constructor
    · intro same
      obtain ⟨root, ancestor, component⟩ := exists_component visited reachesOne
      obtain ⟨rootTwo, ancestorTwo, componentTwo⟩ := exists_component visited reachesTwo
      rw [ancestor, ancestorTwo, Option.some_inj] at same
      obtain rfl := (idxOf_inj component.linked.1).mp same
      exact ⟨(reaches_root visited discovers reachesOne component).trans componentTwo.reaches,
        (reaches_root visited discovers reachesTwo componentTwo).trans component.reaches⟩
    · rintro ⟨there, back⟩
      exact ancestor_eq_of_mutual visited reachesOne there back

theorem reports_ne_nil (reaches : Reaches next entry vertex)
    (cycle : Relation.TransGen (fun vertex target => target ∈ next vertex) vertex vertex) :
    after.reports ≠ [] := by
  intro empty
  have noBack : after.walk.back = [] := by
    apply eq_nil_iff_forall_not_mem.mpr
    intro target isBack
    have isReport := (inv_of_visit visited).back target isBack
    rw [empty] at isReport
    cases isReport
  exact acyclic_of_visit (walk_of_visit visited) noBack reaches cycle

theorem reaches_of_report (isReport : vertex ∈ after.reports) : Reaches next entry vertex :=
  (mem_opened_iff_reaches (walk_of_visit visited) vertex).mp
    ((inv_of_visit visited).reports vertex isReport).1

theorem cycle_of_report (discovers : DiscoversFirst next entry after.place)
    (isReport : vertex ∈ after.reports) :
    Relation.TransGen (fun vertex target => target ∈ next vertex) vertex vertex := by
  have reaches := reaches_of_report visited isReport
  obtain ⟨first, there, back, least⟩ := exists_first discovers reaches
  have opened := (linked_of_visit visited (reaches.trans there)).1
  rcases ((inv_of_visit visited).reports vertex isReport).2 first opened (least vertex back) back with
    path | ⟨lower, -, reachesLower, below⟩
  · exact .trans_right there path
  · exact absurd below (Nat.not_lt.mpr (least lower reachesLower))

end FromStart

end Scan

end FrankenEngine.Esm
