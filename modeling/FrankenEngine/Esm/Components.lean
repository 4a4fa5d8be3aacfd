import FrankenEngine.Library.DepthFirst

/-!
# The component search of linking

Linking is a depth-first walk that keeps the open modules and the finished ones
without a component on a stack. A module that finishes with its own index as
answer takes all that stands above it on the stack as its component. Unlike the
search for strongly connected components, a module that has a component already
answers with the index of that component.
-/

set_option autoImplicit false

namespace FrankenEngine.Esm

open Library Library.Walk List

structure Scan (V : Type) where
  walk : Walk V
  /-- The last module pushed stands first. -/
  stack : List V
  ancestor : V → Option Nat
  reports : List V

namespace Scan

variable {V : Type} [DecidableEq V]

def start : Scan V := { walk := .start, stack := [], ancestor := fun _ => none, reports := [] }

def place (scan : Scan V) (vertex : V) : Nat := scan.walk.opened.idxOf vertex

def Linked (scan : Scan V) (vertex : V) : Prop :=
  vertex ∈ scan.walk.opened ∧ vertex ∉ scan.stack

def answer (scan : Scan V) (vertex : V) : Nat :=
  if vertex ∈ scan.stack then scan.place vertex else (scan.ancestor vertex).getD 0xFFFFFFFF

def meet (scan : Scan V) (vertex : V) : Scan V :=
  { scan with
    walk := scan.walk.meet vertex
    reports := if vertex ∈ scan.stack then scan.reports ++ [vertex] else scan.reports }

def enter (scan : Scan V) (vertex : V) : Scan V :=
  { scan with
    walk := scan.walk.enter vertex
    stack := vertex :: scan.stack
    ancestor := Function.update scan.ancestor vertex (some scan.walk.opened.length) }

/-- What stands on the stack down to the vertex, and what stands below it. -/
def above (stack : List V) (vertex : V) : List V := stack.takeWhile (· ≠ vertex) ++ [vertex]

def below (stack : List V) (vertex : V) : List V := (stack.dropWhile (· ≠ vertex)).tail

def leave (scan : Scan V) (vertex : V) (index ancestor : Nat) : Scan V :=
  if ancestor = index then
    { scan with
      walk := scan.walk.leave vertex
      stack := below scan.stack vertex
      ancestor := fun other =>
        if other ∈ above scan.stack vertex then some index else scan.ancestor other }
  else
    { scan with
      walk := scan.walk.leave vertex
      ancestor := Function.update scan.ancestor vertex (some ancestor) }

variable (next : V → List V)

def visitAll (visit : Scan V → V → Option (Nat × Scan V)) :
    List V → Nat → Scan V → Option (Nat × Scan V)
  | [], ancestor, scan => some (ancestor, scan)
  | vertex :: rest, ancestor, scan => do
      let (answer, scan) ← visit scan vertex
      visitAll visit rest (min answer ancestor) scan

def visit : Nat → Scan V → V → Option (Nat × Scan V)
  | 0, _, _ => none
  | levels + 1, scan, vertex =>
    if vertex ∈ scan.walk.opened then some (scan.answer vertex, scan.meet vertex)
    else do
      let (ancestor, inner) ←
        visitAll (visit levels) (next vertex) scan.walk.opened.length (scan.enter vertex)
      some (ancestor, inner.leave vertex scan.walk.opened.length ancestor)

variable {next} (scan : Scan V)

@[simp] theorem walk_leave (vertex : V) (index ancestor : Nat) :
    (scan.leave vertex index ancestor).walk = scan.walk.leave vertex := by
  unfold leave
  split <;> rfl

@[simp] theorem opened_leave (vertex : V) (index ancestor : Nat) :
    (scan.leave vertex index ancestor).walk.opened = scan.walk.opened := by
  rw [walk_leave]
  rfl

@[simp] theorem place_leave (vertex : V) (index ancestor : Nat) :
    (scan.leave vertex index ancestor).place = scan.place := by
  funext other
  rw [place, opened_leave]
  rfl

@[simp] theorem reports_leave (vertex : V) (index ancestor : Nat) :
    (scan.leave vertex index ancestor).reports = scan.reports := by
  unfold leave
  split <;> rfl

theorem walk_visit (levels : Nat) (scan : Scan V) (vertex : V) :
    (visit next levels scan vertex).map (·.2.walk) =
      Walk.visit next levels scan.walk vertex := by
  induction levels generalizing scan vertex with
  | zero => rfl
  | succ levels ih =>
    have loop : ∀ (vertices : List V) (ancestor : Nat) (scan : Scan V),
        (visitAll (visit next levels) vertices ancestor scan).map (·.2.walk) =
          vertices.foldlM (Walk.visit next levels) scan.walk := by
      intro vertices
      induction vertices with
      | nil => exact fun _ _ => rfl
      | cons vertex rest ihRest =>
        intro ancestor scan
        rw [visitAll, foldlM_cons, ← ih]
        cases visit next levels scan vertex with
        | none => rfl
        | some result => exact ihRest _ _
    rw [visit, Walk.visit]
    split
    next => rfl
    next =>
      have inner := loop (next vertex) scan.walk.opened.length (scan.enter vertex)
      change _ = Option.map _ (foldlM _ (scan.enter vertex).walk _)
      rw [← inner]
      cases visitAll (visit next levels) (next vertex) scan.walk.opened.length
        (scan.enter vertex) with
      | none => rfl
      | some result => exact congrArg some (walk_leave _ _ _ _)

/-- What holds of every visit, from what holds of a visit to a module that is
known and of the visits along the dependencies of a fresh one. -/
theorem visit_rule {C : Scan V → V → Nat → Scan V → Prop}
    {L : Scan V → List V → Nat → Nat → Scan V → Prop}
    (met : ∀ scan vertex, vertex ∈ scan.walk.opened →
      C scan vertex (scan.answer vertex) (scan.meet vertex))
    (fresh : ∀ scan vertex ancestor after, vertex ∉ scan.walk.opened →
      L (scan.enter vertex) (next vertex) scan.walk.opened.length ancestor after →
      C scan vertex ancestor (after.leave vertex scan.walk.opened.length ancestor))
    (done : ∀ scan ancestor, L scan [] ancestor ancestor scan)
    (step : ∀ scan vertex rest ancestor answer middle final after, C scan vertex answer middle →
      L middle rest (min answer ancestor) final after → L scan (vertex :: rest) ancestor final after)
    {levels : Nat} {scan after : Scan V} {vertex : V} {ancestor : Nat}
    (visited : visit next levels scan vertex = some (ancestor, after)) :
    C scan vertex ancestor after := by
  induction levels generalizing scan vertex ancestor after with
  | zero => cases visited
  | succ levels ih =>
    have loop : ∀ (vertices : List V) (ancestor final : Nat) (scan after : Scan V),
        visitAll (visit next levels) vertices ancestor scan = some (final, after) →
          L scan vertices ancestor final after := by
      intro vertices
      induction vertices with
      | nil =>
        intro ancestor final scan after run
        cases run
        exact done scan ancestor
      | cons vertex rest ihRest =>
        intro ancestor final scan after run
        obtain ⟨⟨answer, middle⟩, first, last⟩ := Option.bind_eq_some_iff.mp run
        exact step _ _ _ _ _ _ _ _ (ih first) (ihRest _ _ _ _ last)
    rw [visit] at visited
    split at visited
    next seen =>
      cases visited
      exact met scan vertex seen
    next unseen =>
      obtain ⟨⟨found, inner⟩, run, result⟩ := Option.bind_eq_some_iff.mp visited
      cases result
      exact fresh scan vertex _ _ unseen (loop _ _ _ _ _ run)

def Low (next : V → List V) (opened : List V) (vertex : V) : Prop :=
  ∃ lower ∈ opened, Reaches next vertex lower ∧ opened.idxOf lower < opened.idxOf vertex

/-- The component of a vertex is that of its root: the last root that reaches
the vertex, a root being opened before all that it reaches. -/
structure Component (next : V → List V) (scan : Scan V) (root vertex : V) : Prop where
  linked : scan.Linked root
  reaches : Reaches next root vertex
  least : ∀ reached, Reaches next root reached → scan.place root ≤ scan.place reached
  last : ∀ other ∈ scan.walk.opened, Reaches next other vertex →
    ¬ Low next scan.walk.opened other → scan.place other ≤ scan.place root
  between : ∀ other ∈ scan.walk.opened, scan.place root ≤ scan.place other →
    scan.place other ≤ scan.place vertex → other ∉ scan.stack

/-- What leads to the vertex and was opened no later either leads to it along at
least one edge or is not the first of all that it leads to. -/
def Reported (next : V → List V) (opened : List V) (vertex : V) : Prop :=
  vertex ∈ opened ∧ ∀ other ∈ opened, opened.idxOf other ≤ opened.idxOf vertex →
    Reaches next other vertex →
      Relation.TransGen (fun vertex target => target ∈ next vertex) other vertex ∨
        Low next opened other

structure Inv (next : V → List V) (scan : Scan V) : Prop where
  sound : scan.walk.Sound
  opened : ∀ vertex ∈ scan.stack, vertex ∈ scan.walk.opened
  closed : ∀ vertex, scan.Linked vertex → vertex ∈ scan.walk.closed
  successors : ∀ vertex, scan.Linked vertex → ∀ target ∈ next vertex, scan.Linked target
  component : ∀ vertex, scan.Linked vertex →
    ∃ root, scan.ancestor vertex = some (scan.place root) ∧ Component next scan root vertex
  unfinished : ∀ vertex ∈ scan.stack, vertex ∈ scan.walk.closed →
    Low next scan.walk.opened vertex
  back : ∀ vertex ∈ scan.walk.back, vertex ∈ scan.reports
  reports : ∀ vertex ∈ scan.reports, Reported next scan.walk.opened vertex

theorem inv_start : Inv next (start : Scan V) where
  sound := sound_start
  opened := nofun
  closed := nofun
  successors := nofun
  component := nofun
  unfinished := nofun
  back := nofun
  reports := nofun

theorem Inv.linked_of_reaches {scan : Scan V} {vertex target : V} (inv : Inv next scan)
    (linked : scan.Linked vertex) (reaches : Reaches next vertex target) : scan.Linked target := by
  induction reaches with
  | refl => exact linked
  | tail _ edge ih => exact inv.successors _ ih _ edge

theorem Inv.answer_le {scan : Scan V} {vertex : V} (inv : Inv next scan)
    (opened : vertex ∈ scan.walk.opened) : scan.answer vertex ≤ scan.place vertex := by
  unfold answer
  split
  next => exact Nat.le_refl _
  next unstacked =>
    obtain ⟨root, ancestor, component⟩ := inv.component vertex ⟨opened, unstacked⟩
    rw [ancestor]
    exact component.least vertex component.reaches

/-- A later state of the search: the fresh modules are open, some of them on top
of the stack, and what was linked keeps its component. -/
structure Grows (scan after : Scan V) (fresh added : List V) : Prop where
  distinct : after.walk.opened.Nodup
  opened : after.walk.opened = scan.walk.opened ++ fresh
  stack : after.stack = added ++ scan.stack
  added : ∀ vertex ∈ added, vertex ∈ fresh
  kept : ∀ vertex, scan.Linked vertex → after.ancestor vertex = scan.ancestor vertex

namespace Grows

variable {scan middle after : Scan V} {fresh added later more : List V} {vertex : V}

variable (grows : Grows scan after fresh added)

include grows

omit [DecidableEq V] in
theorem mem_opened (member : vertex ∈ scan.walk.opened) : vertex ∈ after.walk.opened := by
  rw [grows.opened]
  exact mem_append_left _ member

omit [DecidableEq V] in
theorem not_fresh (member : vertex ∈ scan.walk.opened) : vertex ∉ fresh := by
  have distinct := grows.distinct
  rw [grows.opened, nodup_append] at distinct
  exact fun isFresh => distinct.2.2 vertex member vertex isFresh rfl

omit [DecidableEq V] in
theorem linked (linked : scan.Linked vertex) : after.Linked vertex := by
  refine ⟨grows.mem_opened linked.1, ?_⟩
  rw [grows.stack, mem_append, not_or]
  exact ⟨fun isAdded => grows.not_fresh linked.1 (grows.added vertex isAdded), linked.2⟩

omit grows

omit [DecidableEq V] in
theorem trans (one : Grows scan middle fresh added) (two : Grows middle after later more) :
    Grows scan after (fresh ++ later) (more ++ added) where
  distinct := two.distinct
  opened := by rw [two.opened, one.opened, append_assoc]
  stack := by rw [two.stack, one.stack, append_assoc]
  added := by
    intro vertex member
    rcases mem_append.mp member with isLater | isEarlier
    · exact mem_append_right _ (two.added vertex isLater)
    · exact mem_append_left _ (one.added vertex isEarlier)
  kept := by
    intro vertex linked
    rw [two.kept vertex (one.linked linked), one.kept vertex linked]

theorem place_eq (grows : Grows scan after fresh added) (member : vertex ∈ scan.walk.opened) :
    after.place vertex = scan.place vertex := by
  rw [place, place, grows.opened, idxOf_append_of_mem member]

theorem place_lt (member : vertex ∈ scan.walk.opened) :
    scan.place vertex < scan.walk.opened.length :=
  idxOf_lt_length_of_mem member

variable (grows : Grows scan after fresh added)

include grows

theorem le_place (unopened : vertex ∉ scan.walk.opened) :
    scan.walk.opened.length ≤ after.place vertex := by
  rw [place, grows.opened, idxOf_append_of_notMem unopened]
  exact Nat.le_add_right _ _

theorem opened_of_place (early : after.place vertex < scan.walk.opened.length) :
    vertex ∈ scan.walk.opened := by
  by_contra unopened
  exact absurd early (Nat.not_lt.mpr (grows.le_place unopened))

variable (member : vertex ∈ scan.walk.opened)

include member

theorem low (isLow : Low next scan.walk.opened vertex) : Low next after.walk.opened vertex := by
  obtain ⟨lower, opened, reaches, below⟩ := isLow
  refine ⟨lower, grows.mem_opened opened, reaches, ?_⟩
  have lowerPlace := grows.place_eq opened
  have vertexPlace := grows.place_eq member
  unfold place at lowerPlace vertexPlace
  rw [lowerPlace, vertexPlace]
  exact below

theorem low_of_fresh {other : V} (unopened : other ∉ scan.walk.opened)
    (reaches : Reaches next other vertex) : Low next after.walk.opened other := by
  refine ⟨vertex, grows.mem_opened member, reaches, ?_⟩
  change after.place vertex < after.place other
  rw [grows.place_eq member]
  exact Nat.lt_of_lt_of_le (place_lt member) (grows.le_place unopened)

theorem answer_eq : after.answer vertex = scan.answer vertex := by
  unfold answer
  by_cases stacked : vertex ∈ scan.stack
  · have stackedAfter : vertex ∈ after.stack := by
      rw [grows.stack]
      exact mem_append_right _ stacked
    rw [if_pos stacked, if_pos stackedAfter, grows.place_eq member]
  · rw [if_neg stacked, if_neg (grows.linked ⟨member, stacked⟩).2, grows.kept _ ⟨member, stacked⟩]

omit member

theorem component (inv : Inv next scan) {root : V} (linked : scan.Linked vertex)
    (component : Component next scan root vertex) : Component next after root vertex where
  linked := grows.linked component.linked
  reaches := component.reaches
  least := by
    intro reached reaches
    have opened := (inv.linked_of_reaches component.linked reaches).1
    rw [grows.place_eq opened, grows.place_eq component.linked.1]
    exact component.least reached reaches
  last := by
    intro other opened reaches notLow
    by_cases openedBefore : other ∈ scan.walk.opened
    · rw [grows.place_eq openedBefore, grows.place_eq component.linked.1]
      exact component.last other openedBefore reaches fun isLow => notLow (grows.low openedBefore isLow)
    · exact absurd (grows.low_of_fresh linked.1 openedBefore reaches) notLow
  between := by
    intro other opened above upTo
    rw [grows.place_eq linked.1] at upTo
    have openedBefore := grows.opened_of_place (Nat.lt_of_le_of_lt upTo (place_lt linked.1))
    rw [grows.place_eq openedBefore] at above upTo
    rw [grows.place_eq component.linked.1] at above
    rw [grows.stack, mem_append, not_or]
    exact ⟨fun isAdded => grows.not_fresh openedBefore (grows.added other isAdded),
      component.between other openedBefore above upTo⟩

theorem reported (reported : Reported next scan.walk.opened vertex) :
    Reported next after.walk.opened vertex := by
  refine ⟨grows.mem_opened reported.1, fun other opened upTo reaches => ?_⟩
  change after.place other ≤ after.place vertex at upTo
  rw [grows.place_eq reported.1] at upTo
  have openedBefore := grows.opened_of_place (Nat.lt_of_le_of_lt upTo (place_lt reported.1))
  rw [grows.place_eq openedBefore] at upTo
  rcases reported.2 other openedBefore upTo reaches with path | isLow
  · exact .inl path
  · exact .inr (grows.low openedBefore isLow)

end Grows

end Scan

end FrankenEngine.Esm
