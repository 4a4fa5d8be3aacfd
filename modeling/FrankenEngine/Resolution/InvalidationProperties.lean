import FrankenEngine.Resolution.Graph

/-!
# Invalidation

A change reaches the modules that depend on the changed one, directly or through
others. The search for them follows the first modules of the breadth-first order
only; what depends on later ones alone is left out and counted as skipped.
-/

set_option autoImplicit false

namespace FrankenEngine.Resolution

open Library Reachability List OrderedMap

def ResolutionGraph.Imports (graph : ResolutionGraph) (source target : String) : Prop :=
  ∃ edge ∈ graph.edges, edge.source = source ∧ edge.target = target

/-- The module is the changed one, or it depends on it through edges. -/
def ResolutionGraph.Dependent (graph : ResolutionGraph) (moduleId id : String) : Prop :=
  Relation.ReflTransGen graph.Imports id moduleId

theorem mem_neighbours_buildReverseIndex {edges : List DependencyEdge} {source target : String} :
    source ∈ neighbours (buildReverseIndex edges) target ↔
      ∃ edge ∈ edges, edge.source = source ∧ edge.target = target := by
  have along : ∀ (rest : List DependencyEdge) (index : OrderedMap String (OrderedSet String)),
      source ∈ neighbours (rest.foldl (fun index edge =>
        index.insert edge.target (((index.get? edge.target).getD .empty).insert edge.source ()))
        index) target ↔ source ∈ neighbours index target ∨
          ∃ edge ∈ rest, edge.source = source ∧ edge.target = target := by
    intro rest
    induction rest with
    | nil => simp
    | cons edge rest ih =>
      intro index
      rw [foldl_cons, ih, exists_mem_cons_iff, ← or_assoc]
      refine or_congr_left (mem_neighbours_insert.trans (or_congr_right ?_))
      exact ⟨fun same => ⟨same.2.symm, same.1.symm⟩, fun same => ⟨same.2.symm, same.1.symm⟩⟩
  rw [buildReverseIndex, along]
  simp [neighbours, get?, empty]

variable {graph : ResolutionGraph} {moduleId : String} {hashing : Hashing}

theorem reached_iff_dependent {id : String} :
    Reached (neighbours (buildReverseIndex graph.edges)) moduleId id ↔
      graph.Dependent moduleId id := by
  have edges : (fun source next =>
      next ∈ neighbours (buildReverseIndex graph.edges) source) =
        Function.swap graph.Imports :=
    funext₂ fun source next => propext mem_neighbours_buildReverseIndex
  rw [Reached, edges]
  exact Relation.reflTransGen_swap

/-- The modules that depend on one, level by level: first the module itself, then its importers,
then theirs. -/
def ResolutionGraph.breadthFirst (graph : ResolutionGraph) (moduleId : String) : List String :=
  discovered (neighbours (buildReverseIndex graph.edges)) moduleId graph.nodes.keys.length

/-- Each dependent imports one of the first modules of the breadth-first order. -/
def ResolutionGraph.DependsEarly (graph : ResolutionGraph) (moduleId : String) : Prop :=
  ∀ id, graph.Dependent moduleId id → id = moduleId ∨
    ∃ target ∈ (graph.breadthFirst moduleId).take maxAffected, graph.Imports id target

theorem Accepted.mem_keys_of_neighbour (accepted : Accepted hashing graph) :
    ∀ source ∈ graph.nodes.keys, ∀ next ∈ neighbours (buildReverseIndex graph.edges) source,
      next ∈ graph.nodes.keys := by
  intro source _ next imports
  obtain ⟨edge, member, rfl, -⟩ := mem_neighbours_buildReverseIndex.mp imports
  exact (accepted.endpoints edge member).1

theorem Accepted.perm_computeAffectedSet (accepted : Accepted hashing graph)
    (known : moduleId ∈ graph.nodes.keys) : (computeAffectedSet graph moduleId).keys.Perm
      (discovered (neighbours (buildReverseIndex graph.edges)) moduleId maxAffected) :=
  perm_spread accepted.mem_keys_of_neighbour known (by decide) le_rfl

theorem Accepted.computeAffectedSet_spec (accepted : Accepted hashing graph)
    (known : moduleId ∈ graph.nodes.keys) :
    (∀ id ∈ (computeAffectedSet graph moduleId).keys, graph.Dependent moduleId id) ∧
      ((∀ id, graph.Dependent moduleId id → id ∈ (computeAffectedSet graph moduleId).keys) ↔
        graph.DependsEarly moduleId) := by
  have spec := spread_spec accepted.mem_keys_of_neighbour known (by decide : 0 < maxAffected) le_rfl
  simp only [reached_iff_dependent, mem_neighbours_buildReverseIndex] at spec
  exact spec

theorem Accepted.length_affected_le (accepted : Accepted hashing graph)
    (known : moduleId ∈ graph.nodes.keys) :
    (computeAffectedSet graph moduleId).keys.length ≤ graph.nodes.keys.length := by
  refine (subperm_of_subset (nodup_keys _) fun id member => ?_).length_le
  -- A dependent is the module itself or the source of an edge.
  have dependent := (accepted.computeAffectedSet_spec known).1 id member
  rcases Relation.ReflTransGen.cases_head dependent with rfl | ⟨_, ⟨edge, listed, rfl, -⟩, -⟩
  · exact known
  · exact (accepted.endpoints edge listed).1

/-- A receipt that names exactly the modules which depend on one, each once, and accounts for all
others as skipped. -/
structure Accounts (graph : ResolutionGraph) (moduleId : String) (receipt : InvalidationReceipt) :
    Prop where
  once : receipt.affectedModules.Nodup
  total : receipt.recomputedCount + receipt.skippedCount = graph.nodes.keys.length
  exact : ∀ id, id ∈ receipt.affectedModules ↔ graph.Dependent moduleId id

theorem Accepted.accounts_issueReceipt_iff (accepted : Accepted hashing graph)
    (known : moduleId ∈ graph.nodes.keys) (operation : String) (scope : InvalidationScope)
    (oldHash newHash : ContentHash) :
    Accounts graph moduleId (issueReceipt hashing operation moduleId scope
      (computeAffectedSet graph moduleId) graph.nodes.keys.length oldHash newHash) ↔
    graph.DependsEarly moduleId := by
  obtain ⟨sound, complete_iff⟩ := accepted.computeAffectedSet_spec known
  constructor
  · intro accounts
    exact complete_iff.mp fun id => (accounts.exact id).mpr
  · intro early
    exact ⟨nodup_keys _, Nat.add_sub_cancel' (accepted.length_affected_le known),
      fun id => ⟨sound id, complete_iff.mpr early id⟩⟩

/-- Invalidating and removing a module of an accepted graph account for its dependents if and only
if each of them imports one of the first modules of the breadth-first order. -/
theorem invalidation_accounts_iff {hashing : Hashing} {nodes : List ModuleNode}
    {edges : List DependencyEdge} {roots : List String} {graph : ResolutionGraph}
    (built : buildGraph hashing nodes edges roots = .ok graph) {moduleId : String}
    (known : moduleId ∈ graph.nodes.keys) :
    (∃ receipt, invalidateModule hashing graph moduleId = .ok receipt ∧
      (Accounts graph moduleId receipt ↔ graph.DependsEarly moduleId)) ∧
      ∃ receipt, (removeModule hashing graph moduleId).2 = .ok receipt ∧
        (Accounts graph moduleId receipt ↔ graph.DependsEarly moduleId) := by
  have accepted := accepted_of_buildGraph built
  have required : requireModule graph.nodes moduleId = .ok () := requireModule_ok_iff.mpr known
  constructor
  · rw [invalidateModule, required]
    exact ⟨_, rfl, accepted.accounts_issueReceipt_iff known _ _ _ _⟩
  · rw [removeModule, required]
    exact ⟨_, rfl, accepted.accounts_issueReceipt_iff known _ _ _ _⟩

def link (index : Nat) : String := String.ofList (List.replicate index 'm')

theorem link_injective : Function.Injective link := by
  intro left right same
  have chars : replicate left 'm' = replicate right 'm' := String.ofList_injective same
  simpa using congrArg length chars

def chainNodes (count : Nat) : List ModuleNode :=
  (List.range count).map fun index =>
    { nodeId := link index, specifier := "m", resolvedPath := "", version := "", contentHash := .zero }

def chainEdges (count : Nat) : List DependencyEdge :=
  (List.range (count - 1)).map fun index =>
    { source := link (index + 1), target := link index, kind := .staticImport, conditions := [] }

variable {count : Nat}

theorem mem_chainEdges {edge : DependencyEdge} (member : edge ∈ chainEdges count) :
    ∃ index, index + 1 < count ∧ edge.source = link (index + 1) ∧ edge.target = link index := by
  obtain ⟨index, below, rfl⟩ := mem_map.mp member
  exact ⟨index, by have := mem_range.mp below; omega, rfl, rfl⟩

theorem buildGraph_chain (hashing : Hashing) (within : count ≤ maxNodes) :
    ∃ graph, buildGraph hashing (chainNodes count) (chainEdges count) [] = .ok graph ∧
      graph.edges = chainEdges count ∧ ∀ index < count, link index ∈ graph.nodes.keys := by
  have ids : (chainNodes count).map (·.nodeId) = (range count).map link := by
    rw [chainNodes, map_map]
    rfl
  have distinct : ((chainNodes count).map (·.nodeId)).Nodup :=
    ids ▸ nodup_range.map link_injective
  obtain ⟨nodeMap, inserted, members⟩ := insertNodes_ok_of_nodup distinct
    (fun node _ => (nofun : node.nodeId ∉ empty.keys))
  have registered : ∀ index < count, link index ∈ nodeMap.keys := by
    intro index below
    refine (members _).mpr (.inr ?_)
    exact ids ▸ mem_map_of_mem (mem_range.mpr below)
  refine ⟨_, buildGraph_ok_iff.mpr ⟨?_, ?_, ?_, nodeMap, inserted, ?_, ?_, nofun, rfl⟩, rfl,
    registered⟩
  · rw [chainNodes, length_map, length_range]
    exact within
  · rw [chainEdges, length_map, length_range]
    have budgets : maxNodes ≤ maxEdges := by decide
    omega
  · intro node member
    obtain ⟨index, -, rfl⟩ := mem_map.mp member
    show validateSpecifier "m" = .ok ()
    decide
  · intro edge member
    obtain ⟨index, below, source, target⟩ := mem_chainEdges member
    rw [source, target]
    exact ⟨registered _ below, registered _ (by omega)⟩
  · rw [chainEdges, map_map]
    refine nodup_range.map fun left right same => ?_
    exact link_injective (Prod.mk.inj (Prod.mk.inj same).2).1

variable (edges : graph.edges = chainEdges count)

include edges

theorem dependent_chain {index : Nat} (below : index < count) :
    graph.Dependent (link 0) (link index) := by
  induction index with
  | zero => exact .refl
  | succ index ih =>
    have imports : graph.Imports (link (index + 1)) (link index) := by
      refine ⟨⟨link (index + 1), link index, .staticImport, []⟩, ?_, rfl, rfl⟩
      rw [edges]
      exact mem_map.mpr ⟨index, mem_range.mpr (by omega), rfl⟩
    exact .head imports (ih (by omega))

theorem length_affected_chain (accepted : Accepted hashing graph)
    (known : moduleId ∈ graph.nodes.keys) :
    (computeAffectedSet graph moduleId).keys.length ≤ maxAffected + 1 := by
  rw [(accepted.perm_computeAffectedSet known).length_eq]
  refine length_discovered_le_succ (fun target => ?_) maxAffected
  -- All importers of a module of the chain are the same.
  have same : ∀ source ∈ neighbours (buildReverseIndex graph.edges) target,
      ∀ other ∈ neighbours (buildReverseIndex graph.edges) target, source = other := by
    intro source first other second
    rw [edges] at first second
    obtain ⟨edge, member, rfl, sameTarget⟩ := mem_neighbours_buildReverseIndex.mp first
    obtain ⟨edge', member', rfl, sameTarget'⟩ := mem_neighbours_buildReverseIndex.mp second
    obtain ⟨index, -, source, own⟩ := mem_chainEdges member
    obtain ⟨index', -, source', own'⟩ := mem_chainEdges member'
    have indices : index = index' :=
      link_injective (own.symm.trans (sameTarget.trans (sameTarget'.symm.trans own')))
    rw [source, source', indices]
  have nodup : (neighbours (buildReverseIndex graph.edges) target).Nodup := by
    rw [neighbours_eq]
    exact nodup_keys _
  cases listed : neighbours (buildReverseIndex graph.edges) target with
  | nil => exact Nat.zero_le _
  | cons source others =>
    rw [listed] at nodup same
    have alone : others = [] := eq_nil_iff_forall_not_mem.mpr fun other member =>
      (nodup_cons.mp nodup).1 (same source (.head _) other (.tail _ member) ▸ member)
    rw [alone]
    exact le_rfl

theorem exists_dependent_not_affected (accepted : Accepted hashing graph)
    (known : link 0 ∈ graph.nodes.keys) (long : maxAffected + 1 < count) :
    ∃ id, graph.Dependent (link 0) id ∧ id ∉ (computeAffectedSet graph (link 0)).keys := by
  by_contra all
  push Not at all
  have covered : (range count).map link ⊆ (computeAffectedSet graph (link 0)).keys := by
    intro id member
    obtain ⟨index, below, rfl⟩ := mem_map.mp member
    exact all _ (dependent_chain edges (mem_range.mp below))
  have fits := (subperm_of_subset (nodup_range.map link_injective) covered).length_le
  rw [length_map, length_range] at fits
  have bound := length_affected_chain edges accepted known
  omega

omit edges

theorem exists_invalidateModule (hashing : Hashing) (known : moduleId ∈ graph.nodes.keys) :
    ∃ receipt, invalidateModule hashing graph moduleId = .ok receipt ∧
      receipt.affectedModules = (computeAffectedSet graph moduleId).keys := by
  rw [invalidateModule, requireModule_ok_iff.mpr known]
  exact ⟨_, rfl, rfl⟩

theorem invalidation_accounts_pair :
    ∃ graph receipt, buildGraph .polynomial (chainNodes 2) (chainEdges 2) [] = .ok graph ∧
      invalidateModule .polynomial graph (link 0) = .ok receipt ∧
      Accounts graph (link 0) receipt := by
  obtain ⟨graph, built, edges, registered⟩ :=
    buildGraph_chain .polynomial (show 2 ≤ maxNodes by decide)
  obtain ⟨⟨receipt, issued, iff⟩, -⟩ := invalidation_accounts_iff built (registered 0 (by decide))
  refine ⟨graph, receipt, built, issued, iff.mpr fun id dependent => ?_⟩
  rcases Relation.ReflTransGen.cases_head dependent with rfl | ⟨target, imports, -⟩
  · exact .inl rfl
  · have ⟨edge, member, _, isTarget⟩ := imports
    obtain ⟨index, below, _, own⟩ := mem_chainEdges (edges ▸ member)
    have first : target = link 0 := by
      rw [← isTarget, own, show index = 0 by omega]
    exact .inr ⟨link 0, root_mem_take_discovered (by decide), first ▸ imports⟩

/-- The receipt for a chain just above the limit leaves out a dependent and counts it as skipped. -/
theorem invalidation_cuts_chain :
    ∃ graph receipt id, buildGraph .polynomial (chainNodes (maxAffected + 2))
        (chainEdges (maxAffected + 2)) [] = .ok graph ∧
      link 0 ∈ graph.nodes.keys ∧ invalidateModule .polynomial graph (link 0) = .ok receipt ∧
      graph.Dependent (link 0) id ∧ id ∉ receipt.affectedModules := by
  have within : maxAffected + 2 ≤ maxNodes := by decide
  obtain ⟨graph, built, edges, registered⟩ := buildGraph_chain .polynomial within
  have known := registered 0 (Nat.succ_pos _)
  obtain ⟨id, dependent, missing⟩ := exists_dependent_not_affected edges
    (accepted_of_buildGraph built) known (Nat.lt_succ_self _)
  obtain ⟨receipt, issued, affected⟩ := exists_invalidateModule .polynomial known
  exact ⟨graph, receipt, id, built, known, issued, dependent, affected ▸ missing⟩

end FrankenEngine.Resolution
