import FrankenEngine.Esm.Graph
import FrankenEngine.Esm.ComponentProperties
import FrankenEngine.Library.Result

/-!
# Linking refines the component search

The modules that linking has changed are told by a state of the component
search. Linking answers as the search does, fails only where the search runs out
of levels or where a dependency is not in the graph, and leaves the modules
marked as the search has found them.
-/

set_option autoImplicit false

namespace FrankenEngine.Esm

open Library Library.Walk Scan OrderedMap Option LinkState Function

namespace ModuleGraph

def dependenciesOf (graph : ModuleGraph) (specifier : String) : List String :=
  ((graph.modules.get? specifier).map (·.dependencies.keys)).getD []

def Fresh (graph : ModuleGraph) : Prop :=
  ∀ specifier module, graph.modules.get? specifier = some module → module.status = .unlinked

def Complete (graph : ModuleGraph) : Prop :=
  ∀ specifier module, graph.modules.get? specifier = some module →
    ∀ dependency ∈ module.dependencies.keys, (graph.modules.get? dependency).isSome

theorem dependenciesOf_eq {graph : ModuleGraph} {specifier : String} {module : EsmModule}
    (present : graph.modules.get? specifier = some module) :
    graph.dependenciesOf specifier = module.dependencies.keys := by
  rw [dependenciesOf, present]
  rfl

theorem get?_update (graph : ModuleGraph) (specifier other : String)
    (change : EsmModule → EsmModule) : (graph.update specifier change).modules.get? other =
      if other = specifier then (graph.modules.get? other).map change
      else graph.modules.get? other :=
  get?_modify _ _ _ _

end ModuleGraph

/-- A module of the graph as linking has marked it when the search stands here. -/
def mark (scan : Scan String) (specifier : String) (module : EsmModule) : EsmModule :=
  if specifier ∈ scan.walk.opened then
    { module with
      status := if specifier ∈ scan.stack then .linking else .linked
      dfsIndex := some (scan.place specifier)
      dfsAncestorIndex := scan.ancestor specifier }
  else module

structure Tracks (graph : ModuleGraph) (state : LinkState) (scan : Scan String) : Prop where
  modules : ∀ specifier, state.graph.modules.get? specifier =
    (graph.modules.get? specifier).map (mark scan specifier)
  counter : state.dfsCounter = scan.walk.opened.length
  stack : state.stack = scan.stack
  cycles : state.cycles.map (·.specifier) = scan.reports
  present : ∀ specifier ∈ scan.walk.opened, (graph.modules.get? specifier).isSome
  entryPoint : state.graph.entryPoint = graph.entryPoint

variable {specifier : String}

theorem mark_of_opened {scan : Scan String} (opened : specifier ∈ scan.walk.opened)
    (module : EsmModule) : mark scan specifier module =
      { module with
        status := if specifier ∈ scan.stack then .linking else .linked
        dfsIndex := some (scan.place specifier)
        dfsAncestorIndex := scan.ancestor specifier } :=
  if_pos opened

theorem mark_congr {scan other : Scan String}
    (opened : specifier ∈ scan.walk.opened ↔ specifier ∈ other.walk.opened)
    (stack : specifier ∈ scan.stack ↔ specifier ∈ other.stack)
    (place : specifier ∈ other.walk.opened → scan.place specifier = other.place specifier)
    (ancestor : scan.ancestor specifier = other.ancestor specifier) (module : EsmModule) :
    mark scan specifier module = mark other specifier module := by
  unfold mark
  by_cases isOpen : specifier ∈ other.walk.opened
  · rw [if_pos (opened.mpr isOpen), if_pos isOpen, place isOpen, ancestor]
    simp only [stack]
  · rw [if_neg (mt opened.mp isOpen), if_neg isOpen]

def close (index : Nat) (module : EsmModule) : EsmModule :=
  { module with status := .linked, dfsAncestorIndex := some index }

/-!
## Entering a module
-/

section Steps

variable {graph : ModuleGraph} {state : LinkState} {scan : Scan String} {specifier : String}

theorem tracks_report (tracks : Tracks graph state scan) (stacked : specifier ∈ scan.stack)
    (depth : Nat) : Tracks graph (state.reportCycle specifier depth) (scan.meet specifier) :=
  { tracks with
    cycles := by
      rw [Scan.meet, if_pos stacked, ← tracks.cycles]
      exact List.map_append }

theorem tracks_meet (tracks : Tracks graph state scan) (unstacked : specifier ∉ scan.stack) :
    Tracks graph state (scan.meet specifier) :=
  { tracks with
    cycles := by
      rw [Scan.meet, if_neg unstacked]
      exact tracks.cycles }

theorem mark_enter_self (unseen : specifier ∉ scan.walk.opened) (module : EsmModule) :
    mark (scan.enter specifier) specifier module =
      { mark scan specifier module with
        status := .linking
        dfsIndex := some scan.walk.opened.length
        dfsAncestorIndex := some scan.walk.opened.length } := by
  have entered : specifier ∈ (scan.enter specifier).walk.opened := List.mem_append_right _ (.head _)
  have stacked : specifier ∈ (scan.enter specifier).stack := .head _
  rw [mark, if_pos entered, if_pos stacked, mark, if_neg unseen, Scan.place_enter unseen]
  simp only [Scan.enter, update_self]

theorem mark_enter_of_ne (inv : Inv graph.dependenciesOf scan)
    (unseen : specifier ∉ scan.walk.opened) {other : String} (apart : other ≠ specifier)
    (module : EsmModule) : mark (scan.enter specifier) other module = mark scan other module := by
  refine mark_congr ?_ ?_ (grows_enter inv unseen).place_eq (update_of_ne apart _ _)
    module
  · simp [Scan.enter, Walk.enter, apart]
  · simp [Scan.enter, apart]

theorem tracks_enter (inv : Inv graph.dependenciesOf scan) (tracks : Tracks graph state scan)
    (unseen : specifier ∉ scan.walk.opened) (present : (graph.modules.get? specifier).isSome) :
    Tracks graph (state.enter specifier) (scan.enter specifier) where
  modules := by
    intro other
    have marked := (state.graph.get?_update specifier other) fun module =>
      { module with
        status := .linking, dfsIndex := some state.dfsCounter
        dfsAncestorIndex := some state.dfsCounter }
    refine marked.trans ?_
    rw [tracks.modules, map_map, tracks.counter]
    split
    next same =>
      obtain rfl := same
      exact map_congr fun module _ => (mark_enter_self unseen module).symm
    next apart =>
      exact map_congr fun module _ => (mark_enter_of_ne inv unseen apart module).symm
  counter := by
    rw [Scan.enter, Walk.enter, List.length_append, ← tracks.counter]
    rfl
  stack := congrArg (specifier :: ·) tracks.stack
  cycles := tracks.cycles
  present := by
    intro other opened
    rcases List.mem_append.mp opened with before | last
    · exact tracks.present other before
    · rw [List.mem_singleton.mp last]
      exact present
  entryPoint := tracks.entryPoint

/-!
## Leaving a module
-/

theorem entryPoint_popComponent (specifier : String) (index : Nat) (stack : List String)
    (current : ModuleGraph) :
    (popComponent specifier index stack current).2.entryPoint = current.entryPoint := by
  induction stack generalizing current with
  | nil => rfl
  | cons top rest ih =>
    rw [popComponent]
    split
    next => rfl
    next => exact ih _

theorem popComponent_append (index : Nat) {added : List String} (rest : List String)
    (absent : specifier ∉ added) (current : ModuleGraph) :
    (popComponent specifier index (added ++ specifier :: rest) current).1 = rest ∧
      ∀ other, (popComponent specifier index (added ++ specifier :: rest)
          current).2.modules.get? other =
        if other ∈ added ++ [specifier] then (current.modules.get? other).map (close index)
        else current.modules.get? other := by
  induction added generalizing current with
  | nil =>
    rw [List.nil_append, popComponent, if_pos rfl]
    refine ⟨rfl, fun other => ?_⟩
    simp only [List.nil_append, List.mem_singleton]
    exact current.get?_update specifier other (close index)
  | cons top added ih =>
    have apart : top ≠ specifier := fun same => absent (same ▸ .head _)
    obtain ⟨stack, modules⟩ := ih (fun member => absent (.tail _ member))
      (current.update top (close index))
    rw [List.cons_append, popComponent, if_neg apart]
    refine ⟨stack, fun other => (modules other).trans ?_⟩
    rw [current.get?_update]
    by_cases isTop : other = top
    · simp only [isTop, ↓reduceIte, map_map, List.cons_append, List.mem_cons, true_or]
      split
      next => rfl
      next => rfl
    · simp only [isTop, ↓reduceIte, List.cons_append, List.mem_cons, false_or]

def leaveModule (inner : LinkState) (specifier : String) (index ancestor : Nat) : LinkState :=
  if ancestor = index then (inner.setAncestor specifier ancestor).closeComponent specifier index
  else inner.setAncestor specifier ancestor

variable {inner : LinkState} {after : Scan String} {fresh added : List String} {ancestor index : Nat}

theorem tracks_leave_low (tracks : Tracks graph inner after)
    (opened : specifier ∈ after.walk.opened) (low : ancestor ≠ index) :
    Tracks graph (leaveModule inner specifier index ancestor)
      (after.leave specifier index ancestor) := by
  have stack : (after.leave specifier index ancestor).stack = after.stack := by
    rw [Scan.leave, if_neg low]
  have ancestors : (after.leave specifier index ancestor).ancestor =
      update after.ancestor specifier (some ancestor) := by
    rw [Scan.leave, if_neg low]
  rw [leaveModule, if_neg low]
  refine ⟨fun other => ?_, ?_, ?_, ?_, ?_, tracks.entryPoint⟩
  · refine (inner.graph.get?_update specifier other _).trans ?_
    rw [tracks.modules, map_map]
    split
    next same =>
      obtain rfl := same
      refine map_congr fun module _ => ?_
      have openedAfter : other ∈ (after.leave other index ancestor).walk.opened := by
        rw [opened_leave]
        exact opened
      rw [mark_of_opened openedAfter, stack, ancestors, place_leave, update_self,
        comp_apply, mark_of_opened opened]
    next apart =>
      refine map_congr fun module _ => mark_congr ?_ ?_ ?_ ?_ module
      · rw [opened_leave]
      · rw [stack]
      · exact fun _ => by rw [place_leave]
      · rw [ancestors, update_of_ne apart]
  · rw [opened_leave]
    exact tracks.counter
  · rw [stack]
    exact tracks.stack
  · rw [reports_leave]
    exact tracks.cycles
  · rw [opened_leave]
    exact tracks.present

theorem tracks_leave_root (inv : Inv graph.dependenciesOf scan)
    (unseen : specifier ∉ scan.walk.opened)
    (grows : (scan.enter specifier).Grows after fresh added) (tracks : Tracks graph inner after) :
    Tracks graph (leaveModule inner specifier index index) (after.leave specifier index index) := by
  have whole := (grows_enter inv unseen).trans grows
  have stack : after.stack = added ++ specifier :: scan.stack := grows.stack
  have absent : specifier ∉ added := fun member => grows.not_fresh
    (List.mem_append_right _ (.head _)) (grows.added specifier member)
  have stackAfter : (after.leave specifier index index).stack = scan.stack := by
    rw [Scan.leave, if_pos rfl, stack, Scan.below_append absent]
  have ancestors : ∀ other, (after.leave specifier index index).ancestor other =
      if other ∈ added ++ [specifier] then some index else after.ancestor other := by
    intro other
    rw [Scan.leave, if_pos rfl, stack, Scan.above_append absent]
  obtain ⟨rest, modules⟩ := popComponent_append index scan.stack absent
    (inner.setAncestor specifier index).graph
  rw [← stack, ← tracks.stack] at rest modules
  rw [leaveModule, if_pos rfl]
  refine ⟨fun other => (modules other).trans ?_, ?_, ?_, ?_, ?_, ?_⟩
  · have updated := inner.graph.get?_update specifier other fun module =>
      { module with dfsAncestorIndex := some index }
    rw [setAncestor, updated, tracks.modules]
    by_cases popped : other ∈ added ++ [specifier]
    · have isFresh : other ∈ specifier :: fresh := whole.added other popped
      have opened : other ∈ after.walk.opened := by
        rw [whole.opened]
        exact List.mem_append_right _ isFresh
      have closed : ∀ module, close index (mark after other module) =
          mark (after.leave specifier index index) other module := by
        intro module
        have openedAfter : other ∈ (after.leave specifier index index).walk.opened := by
          rw [opened_leave]
          exact opened
        have unstacked : other ∉ (after.leave specifier index index).stack := by
          rw [stackAfter]
          exact fun stacked => whole.not_fresh (inv.opened other stacked) isFresh
        rw [mark_of_opened opened, mark_of_opened openedAfter, if_neg unstacked, ancestors,
          if_pos popped, place_leave]
        rfl
      rw [if_pos popped]
      -- closing writes over the ancestor that the module itself has just been given
      split
      next =>
        rw [map_map, map_map]
        exact map_congr fun module _ => closed module
      next =>
        rw [map_map]
        exact map_congr fun module _ => closed module
    · have apart : other ≠ specifier := fun same =>
        popped (same ▸ List.mem_append_right _ (.head _))
      rw [if_neg popped, if_neg apart]
      refine map_congr fun module _ => mark_congr ?_ ?_ ?_ ?_ module
      · rw [opened_leave]
      · rw [stackAfter, whole.stack, List.mem_append, or_iff_right popped]
      · exact fun _ => by rw [place_leave]
      · rw [ancestors, if_neg popped]
  · rw [opened_leave]
    exact tracks.counter
  · rw [stackAfter]
    exact rest
  · rw [reports_leave]
    exact tracks.cycles
  · rw [opened_leave]
    exact tracks.present
  · exact (entryPoint_popComponent _ _ _ _).trans tracks.entryPoint

end Steps

/-!
## Agreement
-/

/-- Linking and the search answer the same, or linking fails where the search
ends or where the graph misses a dependency. -/
inductive Agrees (graph : ModuleGraph) :
    Except EsmLoaderError (Nat × LinkState) → Option (Nat × Scan String) → Prop
  | ok {ancestor : Nat} {state : LinkState} {scan : Scan String} (tracks : Tracks graph state scan) :
      Agrees graph (.ok (ancestor, state)) (some (ancestor, scan))
  | limit (error : EsmLoaderError) : Agrees graph (.error error) none
  | incomplete (error : EsmLoaderError) (found : Option (Nat × Scan String))
      (missing : ¬ graph.Complete) : Agrees graph (.error error) found

theorem lower_eq_min (answer ancestor : Nat) :
    (if answer < ancestor then answer else ancestor) = min answer ancestor := by
  by_cases lower : answer < ancestor
  · rw [if_pos lower, min_eq_left lower.le]
  · rw [if_neg lower, min_eq_right (Nat.not_lt.mp lower)]

section Agreement

variable {graph : ModuleGraph} {specifier : String} {module : EsmModule}

theorem agrees_linkDependencies {levels : Nat}
    (visit : ∀ {state : LinkState} {scan : Scan String} {dependency : String}
      {target : EsmModule}, Scan.Inv graph.dependenciesOf scan →
      Scan.Towards graph.dependenciesOf scan [dependency] → Tracks graph state scan →
      graph.modules.get? dependency = some target →
      Agrees graph (linkModule levels state dependency)
        (Scan.visit graph.dependenciesOf levels scan dependency))
    (present : graph.modules.get? specifier = some module) {dependencies : List String}
    (edges : ∀ dependency ∈ dependencies, dependency ∈ module.dependencies.keys)
    {state : LinkState} {scan : Scan String} (inv : Scan.Inv graph.dependenciesOf scan)
    (towards : Scan.Towards graph.dependenciesOf scan dependencies) (tracks : Tracks graph state scan)
    (ancestor : Nat) :
    Agrees graph (linkDependencies (linkModule levels) specifier dependencies ancestor state)
      (Scan.visitAll (Scan.visit graph.dependenciesOf levels) dependencies ancestor scan) := by
  induction dependencies generalizing state scan ancestor with
  | nil => exact .ok tracks
  | cons dependency rest ih =>
    rw [linkDependencies, Scan.visitAll, tracks.modules]
    cases known : graph.modules.get? dependency with
    | none =>
      refine .incomplete _ _ fun complete => ?_
      have isSome := complete specifier module present dependency (edges dependency (.head _))
      rw [known] at isSome
      cases isSome
    | some target =>
      have agrees := visit inv towards.head tracks known
      generalize linkModule levels state dependency = result at agrees
      generalize visited : Scan.visit graph.dependenciesOf levels scan dependency = found
        at agrees
      cases agrees with
      | limit error => exact .limit error
      | incomplete error _ missing => exact .incomplete error _ missing
      | ok tracksMiddle =>
        have first := Scan.searched_of_visit inv towards.head visited ancestor
        change Agrees graph (linkDependencies _ _ _ _ _) (Scan.visitAll _ _ _ _)
        rw [lower_eq_min]
        exact ih (fun other member => edges other (.tail _ member)) first.inv
          (towards.rest first) tracksMiddle _

theorem agrees_linkModule (levels : Nat) (fresh : graph.Fresh) {state : LinkState} {scan : Scan String}
    (inv : Scan.Inv graph.dependenciesOf scan)
    (towards : Scan.Towards graph.dependenciesOf scan [specifier]) (tracks : Tracks graph state scan)
    (present : graph.modules.get? specifier = some module) :
    Agrees graph (linkModule levels state specifier)
      (Scan.visit graph.dependenciesOf levels scan specifier) := by
  induction levels generalizing state scan specifier module with
  | zero => exact .limit _
  | succ levels ih =>
    have known : state.graph.modules.get? specifier = some (mark scan specifier module) := by
      rw [tracks.modules, present, map_some]
    simp only [linkModule, known, Scan.visit]
    by_cases opened : specifier ∈ scan.walk.opened
    · rw [if_pos opened, mark_of_opened opened, Scan.answer]
      by_cases stacked : specifier ∈ scan.stack
      · simp only [if_pos stacked]
        exact .ok (tracks_report tracks stacked _)
      · simp only [if_neg stacked]
        exact .ok (tracks_meet tracks stacked)
    · have unmarked : mark scan specifier module = module := if_neg opened
      have agrees := agrees_linkDependencies ih present (fun _ edge => edge)
        (Scan.inv_enter inv opened) (graph.dependenciesOf_eq present ▸ Scan.towards_enter towards)
        (tracks_enter inv tracks opened (isSome_of_eq_some present)) scan.walk.opened.length
      rw [unmarked, fresh specifier module present, if_neg opened, tracks.counter,
        graph.dependenciesOf_eq present]
      generalize linkDependencies _ _ _ _ _ = result at agrees
      generalize visited : Scan.visitAll _ _ _ _ = found at agrees
      cases agrees with
      | limit error => exact .limit error
      | incomplete error _ missing => exact .incomplete error _ missing
      | @ok ancestor inner after tracksInner =>
        have searched := Scan.searched_of_visitAll (Scan.inv_enter inv opened)
          (graph.dependenciesOf_eq present ▸ Scan.towards_enter towards) visited
        obtain ⟨freshInner, added, grows, -⟩ := searched.grows
        refine .ok ?_
        by_cases isRoot : ancestor = scan.walk.opened.length
        · rw [isRoot]
          exact tracks_leave_root inv opened grows tracksInner
        · exact tracks_leave_low tracksInner
            (grows.mem_opened (List.mem_append_right _ (.head _))) isRoot

end Agreement

/-!
## Linking a graph
-/

theorem tracks_start (graph : ModuleGraph) :
    Tracks graph { graph, dfsCounter := 0, stack := [], cycles := [] } .start where
  modules := fun _ => map_id'.symm
  counter := rfl
  stack := rfl
  cycles := rfl
  present := nofun
  entryPoint := rfl

namespace ModuleGraph

variable {graph linked : ModuleGraph} {entry : String} {result : LinkResult}

/-- What `link` returned is told by a search from the entry point. -/
structure LinkedBy (graph : ModuleGraph) (entry : String) (result : LinkResult)
    (linked : ModuleGraph) (scan : Scan String) : Prop where
  visited : ∃ answer,
    Scan.visit graph.dependenciesOf maxModuleDepth .start entry = some (answer, scan)
  modules : ∀ specifier, linked.modules.get? specifier =
    (graph.modules.get? specifier).map (mark scan specifier)
  cycles : result.cycles.map (·.specifier) = scan.reports
  present : ∀ specifier ∈ scan.walk.opened, (graph.modules.get? specifier).isSome
  entryPoint : linked.entryPoint = graph.entryPoint

theorem linkedBy_of_link (fresh : graph.Fresh) (isEntry : graph.entryPoint = some entry)
    (accepted : graph.link = .ok (result, linked)) :
    ∃ scan, LinkedBy graph entry result linked scan := by
  rw [link, isEntry] at accepted
  obtain ⟨⟨answer, state⟩, run, returned⟩ := bind_ok accepted
  cases returned
  cases present : graph.modules.get? entry with
  | none =>
    rw [maxModuleDepth, linkModule] at run
    simp only [present] at run
    cases run
  | some module =>
    have agrees := agrees_linkModule maxModuleDepth fresh Scan.inv_start nofun
      (tracks_start graph) present
    rw [run] at agrees
    generalize visited : Scan.visit graph.dependenciesOf _ _ _ = found at agrees
    cases agrees with
    | ok tracks =>
      exact ⟨_, ⟨_, visited⟩, tracks.modules, tracks.cycles, tracks.present, tracks.entryPoint⟩

theorem exists_link (fresh : graph.Fresh) (complete : graph.Complete)
    (size : graph.modules.keys.length < maxModuleDepth) (isEntry : graph.entryPoint = some entry)
    (present : (graph.modules.get? entry).isSome) :
    ∃ result linked, graph.link = .ok (result, linked) := by
  have closed : ∀ vertex ∈ graph.modules.keys, ∀ next ∈ graph.dependenciesOf vertex,
      next ∈ graph.modules.keys := by
    intro vertex member next edge
    obtain ⟨module, found⟩ := isSome_iff_exists.mp (mem_keys_iff.mp member)
    rw [dependenciesOf_eq found] at edge
    exact mem_keys_iff.mpr (complete vertex module found next edge)
  obtain ⟨walk, walked⟩ := Walk.exists_visit closed Walk.sound_start
    (mem_keys_iff.mpr present) (Nat.lt_of_le_of_lt (List.length_filter_le _ _) size)
  obtain ⟨⟨answer, scan⟩, visited, -⟩ := map_eq_some_iff.mp
    ((walk_visit maxModuleDepth .start entry).trans walked)
  obtain ⟨module, found⟩ := isSome_iff_exists.mp present
  have agrees := agrees_linkModule maxModuleDepth fresh inv_start nofun
    (tracks_start graph) found
  rw [visited] at agrees
  generalize run : linkModule _ _ _ = outcome at agrees
  cases agrees with
  | ok tracks =>
    rw [link, isEntry]
    exact ⟨_, _, congrArg (· >>= _) run⟩
  | incomplete error _ missing => exact absurd complete missing

/-!
## Components and cycles
-/

/-- The modules that an entry point leads to, in the order in which a walk along the
dependencies meets them. -/
def preorder (graph : ModuleGraph) (entry : String) : List String :=
  ((Walk.visit graph.dependenciesOf maxModuleDepth .start entry).map (·.opened)).getD []

def dfsAncestorIndexOf (graph : ModuleGraph) (specifier : String) : Option Nat :=
  (graph.modules.get? specifier).bind (·.dfsAncestorIndex)

def OnCycle (graph : ModuleGraph) (specifier : String) : Prop :=
  Relation.TransGen (fun source target => target ∈ graph.dependenciesOf source) specifier specifier

/-- Linking has found the cycles and the strongly connected components. -/
structure ComponentsFound (graph : ModuleGraph) (entry : String) (result : LinkResult)
    (linked : ModuleGraph) : Prop where
  cycles : result.cycles = [] ↔
    ∀ specifier, Reaches graph.dependenciesOf entry specifier → ¬ graph.OnCycle specifier
  reported : ∀ cycle ∈ result.cycles, graph.OnCycle cycle.specifier
  components : ∀ one two, Reaches graph.dependenciesOf entry one →
    Reaches graph.dependenciesOf entry two →
      (linked.dfsAncestorIndexOf one = linked.dfsAncestorIndexOf two ↔
        Reaches graph.dependenciesOf one two ∧ Reaches graph.dependenciesOf two one)

namespace LinkedBy

variable {scan : Scan String} {specifier : String} (told : LinkedBy graph entry result linked scan)

include told

variable (reaches : Reaches graph.dependenciesOf entry specifier)

include reaches

theorem get?_of_reaches : ∃ module, graph.modules.get? specifier = some module ∧
      linked.modules.get? specifier = some
        { module with
          status := .linked
          dfsIndex := some (scan.place specifier)
          dfsAncestorIndex := scan.ancestor specifier } := by
  obtain ⟨answer, visited⟩ := told.visited
  have isLinked := linked_of_visit visited reaches
  obtain ⟨module, found⟩ := isSome_iff_exists.mp (told.present specifier isLinked.1)
  refine ⟨module, found, ?_⟩
  rw [told.modules, found, map_some, mark_of_opened isLinked.1, if_neg isLinked.2]

theorem dfsAncestorIndexOf_eq : linked.dfsAncestorIndexOf specifier = scan.ancestor specifier := by
  obtain ⟨module, -, found⟩ := told.get?_of_reaches reaches
  rw [dfsAncestorIndexOf, found]
  rfl

omit reaches

theorem idxOf_preorder : (graph.preorder entry).idxOf = scan.place := by
  obtain ⟨answer, visited⟩ := told.visited
  rw [preorder, walk_of_visit visited]
  rfl

theorem cycles_ne_nil (reaches : Reaches graph.dependenciesOf entry specifier)
    (cycle : graph.OnCycle specifier) : result.cycles ≠ [] := by
  obtain ⟨answer, visited⟩ := told.visited
  intro empty
  refine reports_ne_nil visited reaches cycle ?_
  rw [← told.cycles, empty, List.map_nil]

theorem onCycle_of_mem (discovers : DiscoversFirst graph.dependenciesOf entry scan.place)
    {cycle : CycleInfo} (member : cycle ∈ result.cycles) : graph.OnCycle cycle.specifier := by
  obtain ⟨answer, visited⟩ := told.visited
  refine cycle_of_report visited discovers ?_
  rw [← told.cycles]
  exact List.mem_map_of_mem member

theorem componentsFound_iff : ComponentsFound graph entry result linked ↔
      DiscoversFirst graph.dependenciesOf entry (graph.preorder entry).idxOf := by
  obtain ⟨answer, visited⟩ := told.visited
  rw [told.idxOf_preorder]
  constructor
  · intro components
    refine (components_iff visited).mp fun one two reachesOne reachesTwo => ?_
    rw [← told.dfsAncestorIndexOf_eq reachesOne, ← told.dfsAncestorIndexOf_eq reachesTwo]
    exact components.components one two reachesOne reachesTwo
  · intro discovers
    refine ⟨⟨?_, ?_⟩, fun cycle member => told.onCycle_of_mem discovers member, ?_⟩
    · intro empty specifier reaches cycle
      exact told.cycles_ne_nil reaches cycle empty
    · intro acyclic
      apply List.eq_nil_iff_forall_not_mem.mpr
      intro cycle member
      have isReport : cycle.specifier ∈ scan.reports := by
        rw [← told.cycles]
        exact List.mem_map_of_mem member
      exact acyclic cycle.specifier (reaches_of_report visited isReport)
        (told.onCycle_of_mem discovers member)
    · intro one two reachesOne reachesTwo
      rw [told.dfsAncestorIndexOf_eq reachesOne, told.dfsAncestorIndexOf_eq reachesTwo]
      exact (components_iff visited).mpr discovers one two reachesOne reachesTwo

end LinkedBy

/-- A complete graph of fresh modules below the depth limit is linked, with all
modules that the entry point leads to, and a reachable cycle is never missed. The
cycles and components that linking reports are the true ones exactly if, in the
preorder of the graph, no module leads to one that stands before the whole
component of the module. -/
theorem link_components_iff (fresh : graph.Fresh) (complete : graph.Complete)
    (size : graph.modules.keys.length < maxModuleDepth) (isEntry : graph.entryPoint = some entry)
    (present : (graph.modules.get? entry).isSome) :
    ∃ result linked, graph.link = .ok (result, linked) ∧
      (∀ specifier, Reaches graph.dependenciesOf entry specifier →
        ∃ module, linked.modules.get? specifier = some module ∧ module.status = .linked) ∧
      (∀ specifier, Reaches graph.dependenciesOf entry specifier → graph.OnCycle specifier →
        result.cycles ≠ []) ∧
      (ComponentsFound graph entry result linked ↔
        Scan.DiscoversFirst graph.dependenciesOf entry (graph.preorder entry).idxOf) := by
  obtain ⟨result, linked, accepted⟩ := exists_link fresh complete size isEntry present
  obtain ⟨scan, told⟩ := linkedBy_of_link fresh isEntry accepted
  refine ⟨result, linked, accepted, fun specifier reaches => ?_, fun specifier reaches cycle =>
    told.cycles_ne_nil reaches cycle, told.componentsFound_iff⟩
  obtain ⟨module, -, found⟩ := told.get?_of_reaches reaches
  exact ⟨_, found, rfl⟩

theorem fresh_of_values (unlinked : ∀ module ∈ graph.modules.values, module.status = .unlinked) :
    graph.Fresh :=
  fun _ module found => unlinked module (mem_values_of_get? found)

theorem complete_of_values (present : ∀ module ∈ graph.modules.values,
      ∀ dependency ∈ module.dependencies.keys, (graph.modules.get? dependency).isSome) :
    graph.Complete :=
  fun _ module found => present module (mem_values_of_get? found)

theorem not_onCycle_of_rank (rank : String → Nat) (lower : ∀ source ∈ graph.modules.keys,
      ∀ target ∈ graph.dependenciesOf source, rank target < rank source) (specifier : String) :
    ¬ graph.OnCycle specifier := by
  have edge : ∀ source target, target ∈ graph.dependenciesOf source → rank target < rank source := by
    intro source target member
    by_cases known : source ∈ graph.modules.keys
    · exact lower source known target member
    · rw [mem_keys_iff, Bool.not_eq_true, isSome_eq_false_iff, isNone_iff_eq_none] at known
      rw [dependenciesOf, known] at member
      cases member
  have path : ∀ source target,
      Relation.TransGen (fun source target => target ∈ graph.dependenciesOf source) source target →
        rank target < rank source := by
    intro source target path
    induction path with
    | single member => exact edge _ _ member
    | tail _ member ih => exact (edge _ _ member).trans ih
  exact fun cycle => absurd (path specifier specifier cycle) (Nat.lt_irrefl _)

/-!
## Two graphs
-/

def importing (specifier : String) (requests : List String) : EsmModule :=
  requests.foldl (fun module request =>
    module.addImport { moduleRequest := request, importName := "value", localName := "value" })
    (.new specifier)

def ofImports (imports : List (String × List String)) : ModuleGraph where
  modules := imports.foldl (fun modules (specifier, requests) =>
    modules.insert specifier (importing specifier requests)) .empty
  entryPoint := imports.head?.map (·.1)
  traceEvents := []

def ring : ModuleGraph := ofImports [("a", ["b"]), ("b", ["a"])]

theorem discoversFirst_ring :
    DiscoversFirst ring.dependenciesOf "a" (ring.preorder "a").idxOf := by
  have first : (ring.preorder "a").idxOf "a" = 0 := by decide +kernel
  have forth : Reaches ring.dependenciesOf "a" "b" := .single (by decide +kernel)
  have back : Reaches ring.dependenciesOf "b" "a" := .single (by decide +kernel)
  intro source target reaches _
  have known : source ∈ ["a", "b"] := mem_of_reaches (by decide +kernel) (.head _) reaches
  refine ⟨"a", ?_, ?_, first.trans_le (Nat.zero_le _)⟩
  · rcases List.mem_pair.mp known with rfl | rfl
    · exact .refl
    · exact back
  · rcases List.mem_pair.mp known with rfl | rfl
    · exact .refl
    · exact forth

theorem link_components_ring : ∃ result linked, ring.link = .ok (result, linked) ∧
    ComponentsFound ring "a" result linked := by
  have fresh : ring.Fresh := fresh_of_values (by decide +kernel)
  obtain ⟨result, linked, accepted, -, -, iff⟩ := link_components_iff fresh
    (complete_of_values (by decide +kernel)) (by decide +kernel) rfl (by decide +kernel)
  exact ⟨result, linked, accepted, iff.mpr discoversFirst_ring⟩

def crossed : ModuleGraph :=
  ofImports [("a", ["b", "c", "d"]), ("b", []), ("c", ["b"]), ("d", ["c"])]

/-- Without any cycle in the graph, linking reports one at the module "c" and
gives the entry point and "d" one component, though "d" does not lead back. -/
theorem link_reports_false_cycle :
    crossed.Fresh ∧ crossed.Complete ∧ crossed.modules.keys.length < maxModuleDepth ∧
      crossed.entryPoint = some "a" ∧ (∀ specifier, ¬ crossed.OnCycle specifier) ∧
      ¬ Reaches crossed.dependenciesOf "d" "a" ∧
      ∃ result linked, crossed.link = .ok (result, linked) ∧
        result.cycles.map (·.specifier) = ["c"] ∧
        linked.dfsAncestorIndexOf "a" = linked.dfsAncestorIndexOf "d" := by
  refine ⟨fresh_of_values (by decide +kernel), complete_of_values (by decide +kernel),
    by decide +kernel, rfl, ?_, ?_, ?_⟩
  · exact not_onCycle_of_rank (fun specifier => ["b", "c", "d", "a"].idxOf specifier)
      (by decide +kernel)
  · intro reaches
    have known : "a" ∈ ["d", "c", "b"] := Scan.mem_of_reaches (by decide +kernel) (.head _) reaches
    exact absurd known (by decide)
  · have found : crossed.link.toOption.map (fun outcome =>
        (outcome.1.cycles.map (·.specifier),
          decide (outcome.2.dfsAncestorIndexOf "a" = outcome.2.dfsAncestorIndexOf "d"))) =
        some (["c"], true) := by decide +kernel
    cases accepted : crossed.link with
    | error error =>
      rw [accepted] at found
      cases found
    | ok outcome =>
      rw [accepted] at found
      obtain ⟨reported, same⟩ := Prod.mk.inj (Option.some_inj.mp found)
      exact ⟨outcome.1, outcome.2, rfl, reported, of_decide_eq_true same⟩

end ModuleGraph

end FrankenEngine.Esm
