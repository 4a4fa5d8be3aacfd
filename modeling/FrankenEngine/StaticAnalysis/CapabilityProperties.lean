import FrankenEngine.Library.TopologicalSort
import Mathlib.Data.String.Basic

/-!
# Transitive capabilities

The registered components of `static_analysis_graph.rs` and the computation of
their transitive capabilities. Children are named by id and need not be
registered. The order lists every id that is not behind a cycle of child edges,
so the capabilities of a component are computed after those of its children.
What is on a cycle or behind one is passed over and keeps the set it had. The
nodes and edges of the analysis and its reports are left out.
-/

set_option autoImplicit false

namespace FrankenEngine.StaticAnalysis

open Library

structure CapabilityBoundary where
  directCapabilities : OrderedSet String
  transitiveCapabilities : OrderedSet String
  deriving DecidableEq

def CapabilityBoundary.allCapabilities (boundary : CapabilityBoundary) : OrderedSet String :=
  boundary.transitiveCapabilities.keys.foldl (fun all capability => all.insert capability ())
    boundary.directCapabilities

structure ComponentDescriptor where
  id : String
  /-- Of the hook slots only the number is read. -/
  hookSlotCount : Nat
  capabilityBoundary : CapabilityBoundary
  children : List String
  deriving DecidableEq

inductive AnalysisEventKind where
  | componentRegistered
  | capabilityBoundaryComputed
  deriving DecidableEq

structure AnalysisEvent where
  seq : UInt64
  kind : AnalysisEventKind
  entityId : String
  detail : String
  deriving DecidableEq

inductive AnalysisError where
  | hookSlotLimitExceeded (component : String) (count max : Nat)
  | duplicateComponent (component : String)
  deriving DecidableEq

def maxHookSlots : Nat := 256

structure StaticAnalysisGraph where
  components : OrderedMap String ComponentDescriptor
  events : List AnalysisEvent
  nextEventSeq : UInt64

namespace StaticAnalysisGraph

def new : StaticAnalysisGraph where
  components := .empty
  events := []
  nextEventSeq := 0

variable (graph : StaticAnalysisGraph)

def emitEvent (kind : AnalysisEventKind) (entityId detail : String) : StaticAnalysisGraph :=
  { graph with
    nextEventSeq := graph.nextEventSeq + 1
    events := graph.events ++ [{ seq := graph.nextEventSeq, kind, entityId, detail }] }

def registerComponent (descriptor : ComponentDescriptor) :
    StaticAnalysisGraph × Except AnalysisError Unit :=
  if maxHookSlots < descriptor.hookSlotCount then
    (graph, .error (.hookSlotLimitExceeded descriptor.id descriptor.hookSlotCount maxHookSlots))
  else if (graph.components.get? descriptor.id).isSome then
    (graph, .error (.duplicateComponent descriptor.id))
  else
    let noted := graph.emitEvent .componentRegistered descriptor.id ""
    ({ noted with components := noted.components.insert descriptor.id descriptor }, .ok ())

/-!
## Topological order
-/

/-- The number of edges into each id, and the children of each component. -/
structure ChildEdges where
  inDegree : OrderedMap String Nat
  childrenMap : OrderedMap String (List String)

def ChildEdges.add (edges : ChildEdges) (key child : String) : ChildEdges where
  inDegree := edges.inDegree.insert child ((edges.inDegree.get? child).getD 0 + 1)
  childrenMap := edges.childrenMap.insert key ((edges.childrenMap.get? key).getD [] ++ [child])

def ChildEdges.addComponent (edges : ChildEdges) (entry : String × ComponentDescriptor) :
    ChildEdges :=
  entry.2.children.foldl (fun edges child => edges.add entry.1 child)
    { edges with inDegree := edges.inDegree.insert entry.1 ((edges.inDegree.get? entry.1).getD 0) }

def childEdges : ChildEdges :=
  graph.components.entries.foldl ChildEdges.addComponent ⟨.empty, .empty⟩

def sortedQueue : Agenda String where
  push queue node := (queue ++ [node]).insertionSort (· ≤ ·)
  pop
    | [] => none
    | node :: rest => some (node, rest)
  push_perm _ := (List.perm_insertionSort _ _).trans (List.perm_append_singleton _ _)
  pop_perm := by
    intro ready node rest popped
    cases ready with
    | nil => cases popped
    | cons first others => cases popped; exact .refl _
  pop_none := by
    intro ready empty
    cases ready with
    | nil => rfl
    | cons first others => cases empty

def topologicalSortComponents : List String :=
  let edges := graph.childEdges
  let queue := (edges.inDegree.entries.filter fun entry => entry.2 = 0).map (·.1)
  TopologicalSort.sort sortedQueue (fun node => (edges.childrenMap.get? node).getD [])
    (queue.insertionSort (· ≤ ·)) edges.inDegree

/-!
## Transitive capabilities
-/

def childrenCapabilities (descriptor : ComponentDescriptor) : OrderedSet String :=
  .ofKeys (descriptor.children.flatMap fun child =>
    ((graph.components.get? child).map fun found =>
      found.capabilityBoundary.allCapabilities.keys).getD [])

def computeComponent (id : String) : StaticAnalysisGraph :=
  match graph.components.get? id with
  | none => graph
  | some descriptor =>
    let boundary := { descriptor.capabilityBoundary with
      transitiveCapabilities := graph.childrenCapabilities descriptor }
    emitEvent
      { graph with
        components := graph.components.insert id
          { descriptor with capabilityBoundary := boundary } }
      .capabilityBoundaryComputed id ""

def computeTransitiveCapabilities : StaticAnalysisGraph :=
  graph.topologicalSortComponents.reverse.foldl computeComponent graph

end StaticAnalysisGraph

/-!
## What the order lists
-/

open OrderedMap List TopologicalSort Relation.TransGen

theorem CapabilityBoundary.mem_allCapabilities {boundary : CapabilityBoundary}
    {capability : String} : capability ∈ boundary.allCapabilities.keys ↔
      capability ∈ boundary.directCapabilities.keys ∨
        capability ∈ boundary.transitiveCapabilities.keys :=
  mem_keys_foldl_insert

namespace StaticAnalysisGraph

/-!
## The edges
-/

def childrenOf (graph : StaticAnalysisGraph) (id : String) : List String :=
  ((graph.components.get? id).map (·.children)).getD []

def Child (graph : StaticAnalysisGraph) (id child : String) : Prop := child ∈ graph.childrenOf id

variable {id capability : String} {after : StaticAnalysisGraph}

theorem child_iff {graph : StaticAnalysisGraph} {child : String} : graph.Child id child ↔
      ∃ descriptor, graph.components.get? id = some descriptor ∧ child ∈ descriptor.children := by
  rw [Child, childrenOf]
  cases graph.components.get? id <;> simp

/-- The edges in the order in which they are entered. -/
def childPairs (entries : List (String × ComponentDescriptor)) : List (String × String) :=
  entries.flatMap fun entry => entry.2.children.map (entry.1, ·)

theorem mem_childPairs {graph : StaticAnalysisGraph} {child : String} :
    (id, child) ∈ childPairs graph.components.entries ↔ graph.Child id child := by
  rw [child_iff, childPairs, mem_flatMap]
  constructor
  · rintro ⟨⟨key, descriptor⟩, member, listed⟩
    obtain ⟨_, isChild, same⟩ := mem_map.mp listed
    cases same
    exact ⟨descriptor, graph.components.ascending.lookup_eq_some_iff.mpr member, isChild⟩
  · rintro ⟨descriptor, found, isChild⟩
    exact ⟨_, graph.components.ascending.lookup_eq_some_iff.mp found, mem_map_of_mem isChild⟩

def ChildEdges.childrenOf (edges : ChildEdges) (id : String) : List String :=
  (edges.childrenMap.get? id).getD []

section Entered

variable {edges : ChildEdges} {noted : List String} {pairs : List (String × String)}
  (tables : Tables noted pairs edges.inDegree edges.childrenOf)

include tables

theorem tables_foldl_add {key : String} (isNoted : key ∈ noted) (children : List String) :
    let added := children.foldl (fun edges child => edges.add key child) edges
    Tables noted (pairs ++ children.map (key, ·)) added.inDegree added.childrenOf := by
  induction children generalizing edges pairs with
  | nil => simpa using tables
  | cons child rest ih =>
    have added : Tables noted (pairs ++ [(key, child)]) (edges.add key child).inDegree
        (edges.add key child).childrenOf := tables.add isNoted child
    have next := ih added
    rwa [append_assoc] at next

theorem tables_foldl_addComponent (entries : List (String × ComponentDescriptor)) :
    let added := entries.foldl ChildEdges.addComponent edges
    Tables (noted ++ entries.map (·.1)) (pairs ++ childPairs entries) added.inDegree
      added.childrenOf := by
  induction entries generalizing edges noted pairs with
  | nil => simpa [childPairs] using tables
  | cons entry rest ih =>
    let noting := { edges with
      inDegree := edges.inDegree.insert entry.1 ((edges.inDegree.get? entry.1).getD 0) }
    have first : Tables (noted ++ [entry.1]) pairs noting.inDegree noting.childrenOf :=
      tables.note entry.1
    have next := ih (tables_foldl_add first (mem_append_right _ (.head _)) entry.2.children)
    rwa [append_assoc, append_assoc] at next

end Entered

variable (graph : StaticAnalysisGraph)

theorem tables_childEdges : Tables graph.components.keys (childPairs graph.components.entries)
    graph.childEdges.inDegree graph.childEdges.childrenOf :=
  @tables_foldl_addComponent ⟨.empty, .empty⟩ [] [] .empty graph.components.entries

/-!
## The order
-/

/-- A cycle of child edges leads to the id, which may lie on it. -/
def BehindCycle (id : String) : Prop :=
  ∃ entry, Relation.TransGen graph.Child entry entry ∧ Relation.ReflTransGen graph.Child entry id

theorem edge_eq_child :
    Edge graph.childEdges.childrenOf graph.childEdges.inDegree.keys.toFinset = graph.Child := by
  funext source child
  exact propext (graph.tables_childEdges.edge_iff.trans mem_childPairs)

theorem topologicalSortComponents_spec : graph.topologicalSortComponents.Nodup ∧
      Sorted graph.childEdges.childrenOf graph.childEdges.inDegree.keys.toFinset
        graph.topologicalSortComponents ∧
      ∀ id, id ∈ graph.components.keys →
        (id ∈ graph.topologicalSortComponents ↔ ¬ graph.BehindCycle id) := by
  obtain ⟨distinct, sorted, members⟩ :=
    graph.tables_childEdges.sort_spec (perm_insertionSort (· ≤ ·) _) sortedQueue
  refine ⟨distinct, sorted, fun id registered => (members id).trans ?_⟩
  rw [TopologicalSort.BehindCycle, edge_eq_child]
  exact and_iff_right ((graph.tables_childEdges.keys id).mpr (.inl registered))

/-!
## The capabilities
-/

variable {graph}

def Reaches (graph : StaticAnalysisGraph) : String → String → Prop :=
  Relation.TransGen graph.Child

/-- Some registered component that is reached from the id requires the capability. -/
def Requires (graph : StaticAnalysisGraph) (id capability : String) : Prop :=
  ∃ target descriptor, graph.Reaches id target ∧ graph.components.get? target = some descriptor ∧
    capability ∈ descriptor.capabilityBoundary.directCapabilities.keys

/-- The transitive capabilities of the component are those that what it reaches requires. -/
def Exact (graph : StaticAnalysisGraph) (id : String) : Prop :=
  ∀ descriptor, graph.components.get? id = some descriptor → ∀ capability,
    capability ∈ descriptor.capabilityBoundary.transitiveCapabilities.keys ↔
      graph.Requires id capability

theorem requires_iff : graph.Requires id capability ↔ ∃ child descriptor, graph.Child id child ∧
      graph.components.get? child = some descriptor ∧
        (capability ∈ descriptor.capabilityBoundary.directCapabilities.keys ∨
          graph.Requires child capability) := by
  constructor
  · rintro ⟨target, descriptor, path, found, required⟩
    obtain ⟨child, edge, rest⟩ := head'_iff.mp path
    rcases Relation.reflTransGen_iff_eq_or_transGen.mp rest with rfl | further
    · exact ⟨target, descriptor, edge, found, .inl required⟩
    · -- A child that leads further is registered.
      obtain ⟨next, nextEdge, -⟩ := head'_iff.mp further
      obtain ⟨childDescriptor, childFound, -⟩ := child_iff.mp nextEdge
      exact ⟨child, childDescriptor, edge, childFound,
        .inr ⟨target, descriptor, further, found, required⟩⟩
  · rintro ⟨child, descriptor, edge, found, required | ⟨target, other, path, reached, required⟩⟩
    · exact ⟨child, descriptor, .single edge, found, required⟩
    · exact ⟨target, other, .head edge path, reached, required⟩

theorem mem_childrenCapabilities {descriptor : ComponentDescriptor} :
    capability ∈ (graph.childrenCapabilities descriptor).keys ↔
      ∃ child found, child ∈ descriptor.children ∧ graph.components.get? child = some found ∧
        (capability ∈ found.capabilityBoundary.directCapabilities.keys ∨
          capability ∈ found.capabilityBoundary.transitiveCapabilities.keys) := by
  rw [childrenCapabilities, mem_keys_ofKeys, mem_flatMap]
  refine exists_congr fun child => ?_
  cases graph.components.get? child with
  | none => simp
  | some found => simp [CapabilityBoundary.mem_allCapabilities]

theorem get?_computeComponent (graph : StaticAnalysisGraph) (id other : String) :
    (graph.computeComponent id).components.get? other =
      if other = id then (graph.components.get? id).map fun descriptor =>
        { descriptor with capabilityBoundary := { descriptor.capabilityBoundary with
            transitiveCapabilities := graph.childrenCapabilities descriptor } }
      else graph.components.get? other := by
  rw [computeComponent]
  split
  next absent =>
    split
    next same => rw [same, absent]; rfl
    next => rfl
  next descriptor found =>
    rw [emitEvent, get?_insert, found]
    rfl

/-- The graphs differ in the transitive capabilities and the events only. -/
def SameEdges (graph after : StaticAnalysisGraph) : Prop :=
  ∀ id, (after.components.get? id).map
      (fun descriptor => (descriptor.children, descriptor.capabilityBoundary.directCapabilities)) =
    (graph.components.get? id).map
      (fun descriptor => (descriptor.children, descriptor.capabilityBoundary.directCapabilities))

variable (same : SameEdges graph after)

include same

theorem SameEdges.computeComponent (id : String) : SameEdges graph (after.computeComponent id) := by
  intro other
  rw [← same other, get?_computeComponent]
  split
  next own =>
    rw [own]
    cases after.components.get? id <;> rfl
  next => rfl

theorem SameEdges.exists_descriptor {descriptor : ComponentDescriptor}
    (found : after.components.get? id = some descriptor) :
    ∃ original, graph.components.get? id = some original ∧
      original.children = descriptor.children ∧
      original.capabilityBoundary.directCapabilities =
        descriptor.capabilityBoundary.directCapabilities := by
  have here := same id
  rw [found] at here
  obtain ⟨original, held, equal⟩ := Option.map_eq_some_iff.mp here.symm
  obtain ⟨children, direct⟩ := Prod.mk.inj equal
  exact ⟨original, held, children, direct⟩

theorem SameEdges.symm : SameEdges after graph := fun id => (same id).symm

theorem SameEdges.requires (required : graph.Requires id capability) :
    after.Requires id capability := by
  obtain ⟨target, descriptor, path, found, direct⟩ := required
  obtain ⟨other, held, -, equal⟩ := same.symm.exists_descriptor found
  refine ⟨target, other, mono (fun source child edge => ?_) _ _ path, held, equal ▸ direct⟩
  obtain ⟨parent, parentFound, listed⟩ := child_iff.mp edge
  obtain ⟨copy, copyFound, children, -⟩ := same.symm.exists_descriptor parentFound
  exact child_iff.mpr ⟨copy, copyFound, children ▸ listed⟩

omit same

def ExactIn (graph after : StaticAnalysisGraph) (id : String) : Prop :=
  ∀ descriptor, after.components.get? id = some descriptor → ∀ capability,
    capability ∈ descriptor.capabilityBoundary.transitiveCapabilities.keys ↔
      graph.Requires id capability

theorem SameEdges.exact_iff (same : SameEdges graph after) :
    after.Exact id ↔ ExactIn graph after id := by
  refine forall_congr' fun descriptor => imp_congr_right fun _ => forall_congr' fun capability => ?_
  exact iff_congr Iff.rfl ⟨same.symm.requires, same.requires⟩

theorem exactIn_computeComponent (same : SameEdges graph after)
    (children : ∀ child, graph.Child id child → ExactIn graph after child) :
    ExactIn graph (after.computeComponent id) id := by
  intro descriptor found capability
  rw [get?_computeComponent, if_pos rfl] at found
  obtain ⟨before, held, rfl⟩ := Option.map_eq_some_iff.mp found
  obtain ⟨original, originalHeld, sameChildren, -⟩ := same.exists_descriptor held
  have edge_iff : ∀ child, graph.Child id child ↔ child ∈ before.children := by
    intro child
    rw [child_iff, originalHeld, ← sameChildren]
    simp
  rw [mem_childrenCapabilities, requires_iff]
  constructor
  · rintro ⟨child, childBefore, listed, childHeld, required⟩
    have edge := (edge_iff child).mpr listed
    obtain ⟨childOriginal, childFound, -, direct⟩ := same.exists_descriptor childHeld
    refine ⟨child, childOriginal, edge, childFound, required.imp (direct ▸ ·) ?_⟩
    exact (children child edge childBefore childHeld capability).mp
  · rintro ⟨child, childOriginal, edge, childFound, required⟩
    obtain ⟨childBefore, childHeld, -, direct⟩ := same.symm.exists_descriptor childFound
    refine ⟨child, childBefore, (edge_iff child).mp edge, childHeld, required.imp (direct ▸ ·) ?_⟩
    exact (children child edge childBefore childHeld capability).mpr

theorem get?_foldr_computeComponent {ids : List String} (other : id ∉ ids) :
    (ids.foldr (fun next after => after.computeComponent next) graph).components.get? id =
      graph.components.get? id := by
  induction ids with
  | nil => rfl
  | cons next rest ih =>
    obtain ⟨different, other⟩ := not_or.mp (mem_cons.not.mp other)
    rw [foldr_cons, get?_computeComponent, if_neg different, ih other]

theorem computeTransitiveCapabilities_eq (graph : StaticAnalysisGraph) :
    graph.computeTransitiveCapabilities =
      graph.topologicalSortComponents.foldr (fun next after => after.computeComponent next) graph :=
  foldl_reverse

theorem sameEdges_foldr_computeComponent (graph : StaticAnalysisGraph) (ids : List String) :
    SameEdges graph (ids.foldr (fun next after => after.computeComponent next) graph) := by
  induction ids with
  | nil => exact fun _ => rfl
  | cons next rest ih => exact ih.computeComponent next

theorem exactIn_of_mem_later (stale : ∀ id, graph.BehindCycle id → graph.Exact id)
    {earlier later : List String} (split : graph.topologicalSortComponents = earlier ++ later) :
    ∀ id ∈ later, ExactIn graph
      (later.foldr (fun next after => after.computeComponent next) graph) id := by
  obtain ⟨distinct, sorted, members⟩ := graph.topologicalSortComponents_spec
  induction later generalizing earlier with
  | nil => nofun
  | cons id later ih =>
    have same := sameEdges_foldr_computeComponent graph later
    have below := ih (show graph.topologicalSortComponents = (earlier ++ [id]) ++ later by
      simp [split])
    -- A child is listed further on, or it is behind a cycle and was exact from the start.
    have children : ∀ child, graph.Child id child → ExactIn graph
        (later.foldr (fun next after => after.computeComponent next) graph) child := by
      intro child edge descriptor found
      have listed : child ∈ graph.components.keys := by
        obtain ⟨original, held, -⟩ := same.exists_descriptor found
        exact mem_keys_iff.mpr (held ▸ rfl)
      by_cases ordered : child ∈ graph.topologicalSortComponents
      · rw [← edge_eq_child] at edge
        exact below child (sorted.mem_later distinct edge ordered split) descriptor found
      · have unmoved : child ∉ later := fun member => ordered (by simp [split, member])
        rw [get?_foldr_computeComponent unmoved] at found
        have behind := not_not.mp ((members child listed).not.mp ordered)
        exact stale child behind descriptor found
    intro other member
    by_cases own : other = id
    · subst own
      exact exactIn_computeComponent same children
    · have further : other ∈ later := (mem_cons.mp member).resolve_left own
      intro descriptor found
      rw [foldr_cons, get?_computeComponent, if_neg own] at found
      exact below other further descriptor found

/-- After the computation the transitive capabilities of every component are exact if and only if
they were before for the components on a cycle of child edges or behind one. -/
theorem computeTransitiveCapabilities_exact_iff (graph : StaticAnalysisGraph) :
    (∀ id, graph.computeTransitiveCapabilities.Exact id) ↔
      ∀ id, graph.BehindCycle id → graph.Exact id := by
  obtain ⟨-, -, members⟩ := graph.topologicalSortComponents_spec
  have same := sameEdges_foldr_computeComponent graph graph.topologicalSortComponents
  simp only [computeTransitiveCapabilities_eq, same.exact_iff]
  have passed : ∀ {id}, id ∈ graph.components.keys → graph.BehindCycle id →
      id ∉ graph.topologicalSortComponents :=
    fun registered behind ordered => (members _ registered).mp ordered behind
  constructor
  · intro exact id behind descriptor found
    have registered : id ∈ graph.components.keys := OrderedMap.mem_keys_iff.mpr (found ▸ rfl)
    apply exact id
    rw [get?_foldr_computeComponent (passed registered behind)]
    exact found
  · intro stale id
    by_cases ordered : id ∈ graph.topologicalSortComponents
    · exact exactIn_of_mem_later stale (List.nil_append _).symm id ordered
    · intro descriptor found
      rw [get?_foldr_computeComponent ordered] at found
      have registered : id ∈ graph.components.keys := OrderedMap.mem_keys_iff.mpr (found ▸ rfl)
      exact stale id (not_not.mp ((members id registered).not.mp ordered)) descriptor found

def recursive : StaticAnalysisGraph where
  components := .insert .empty "a"
    { id := "a"
      hookSlotCount := 0
      capabilityBoundary :=
        { directCapabilities := .ofKeys ["net"], transitiveCapabilities := .empty }
      children := ["a"] }
  events := []
  nextEventSeq := 0

theorem recursive_misses_capability :
    ((recursive.computeTransitiveCapabilities.components.get? "a").map fun descriptor =>
        descriptor.capabilityBoundary.transitiveCapabilities.keys) = some [] ∧
      recursive.Requires "a" "net" := by
  refine ⟨by decide, "a", _, .single ?_, rfl, by decide⟩
  show "a" ∈ recursive.childrenOf "a"
  decide

end StaticAnalysisGraph

end FrankenEngine.StaticAnalysis
