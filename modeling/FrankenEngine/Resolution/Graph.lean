import FrankenEngine.Authority.Signature
import FrankenEngine.Library.Reachability

/-!
# The self-adjusting resolution graph

Modules and dependency edges of `self_adjusting_resolution_graph.rs`, the hashes
over them, and the receipts and checkpoints made from them. SHA-256 and the
content hash are parameters. Counts are natural numbers: the budgets keep them
far below the range of the machine words. The orders, cycles and depths that the
source also computes are left out.
-/

set_option autoImplicit false

namespace FrankenEngine.Resolution

open Library

/-- The content hash and the hash that is taken before it. -/
structure Hashing extends HashTiers where
  sha256 : Bytes → Digest

variable (hashing : Hashing)

def Hashing.compute (preimage : Bytes) : ContentHash :=
  hashing.contentHash (hashing.sha256 preimage).bytes

def Hashing.Separates (preimages : Set Bytes) : Prop :=
  Set.InjOn hashing.compute preimages

def Hashing.polynomial : Hashing where
  toHashTiers := Authority.Hashes.polynomial.toHashTiers
  sha256 := Authority.Hashes.polynomial.contentHash

def lengthPrefixed (text : String) : Bytes := leBytes 8 (utf8 text).length ++ utf8 text

def maxNodes : Nat := 500000

def maxEdges : Nat := 2000000

def maxAffected : Nat := 100000

/-!
## Modules and edges
-/

inductive EdgeKind where
  | staticImport
  | dynamicImport
  | reexport
  | typeOnly
  | sideEffect
  | conditional
  deriving DecidableEq

def EdgeKind.display : EdgeKind → String
  | .staticImport => "static-import"
  | .dynamicImport => "dynamic-import"
  | .reexport => "reexport"
  | .typeOnly => "type-only"
  | .sideEffect => "side-effect"
  | .conditional => "conditional"

structure ModuleNode where
  nodeId : String
  specifier : String
  resolvedPath : String
  version : String
  contentHash : ContentHash
  deriving DecidableEq

def ModuleNode.computeHash (node : ModuleNode) : ContentHash :=
  hashing.compute (utf8 "ModuleNode:v2:" ++ lengthPrefixed node.nodeId ++
    lengthPrefixed node.specifier ++ lengthPrefixed node.resolvedPath ++
    lengthPrefixed node.version ++ node.contentHash.bytes)

structure DependencyEdge where
  source : String
  target : String
  kind : EdgeKind
  conditions : List String
  deriving DecidableEq

def DependencyEdge.computeHash (edge : DependencyEdge) : ContentHash :=
  hashing.compute (utf8 "DependencyEdge:v2:" ++ lengthPrefixed edge.source ++
    lengthPrefixed edge.target ++ lengthPrefixed edge.kind.display ++
    leBytes 8 edge.conditions.length ++ edge.conditions.flatMap lengthPrefixed)

inductive ResolutionGraphError where
  | moduleNotFound (id : String)
  | duplicateEdge
  | invalidSpecifier
  | snapshotCorrupted
  | internalError (message : String)
  deriving DecidableEq

structure ResolutionGraph where
  graphId : String
  epoch : UInt64
  nodes : OrderedMap String ModuleNode
  edges : List DependencyEdge
  rootModules : List String
  contentHash : ContentHash
  deriving DecidableEq

/-!
## The hash of a graph
-/

variable (nodes : OrderedMap String ModuleNode)

/-- The bytes that a graph is hashed as. Node ids and roots stand in them without their length. -/
def graphPreimage (edges : List DependencyEdge) (roots : List String) : Bytes :=
  let edgeHashes := (edges.map (·.computeHash hashing)).insertionSort (· ≤ ·)
  let sortedRoots := roots.insertionSort (· ≤ ·)
  utf8 "ResolutionGraph:v1:" ++
    nodes.entries.flatMap (fun entry =>
      utf8 "node:" ++ utf8 entry.1 ++ (entry.2.computeHash hashing).bytes) ++
    edgeHashes.flatMap (fun hash => utf8 "edge:" ++ hash.bytes) ++
    sortedRoots.flatMap (fun root => utf8 "root:" ++ utf8 root)

def computeGraphHash (edges : List DependencyEdge) (roots : List String) : ContentHash :=
  hashing.compute (graphPreimage hashing nodes edges roots)

variable (graph : ResolutionGraph)

def ResolutionGraph.recomputeHash : ResolutionGraph :=
  { graph with contentHash := computeGraphHash hashing graph.nodes graph.edges graph.rootModules }

/-!
## Building a graph
-/

def validateSpecifier (specifier : String) : Except ResolutionGraphError Unit :=
  if specifier.isEmpty || specifier.toList.contains '\x00' then .error .invalidSpecifier else .ok ()

def DependencyEdge.key (edge : DependencyEdge) : String × String × String :=
  (edge.source, edge.target, edge.kind.display)

def checkDuplicateEdges : List (String × String × String) → List DependencyEdge →
    Except ResolutionGraphError Unit
  | _, [] => .ok ()
  | seen, edge :: rest =>
    if edge.key ∈ seen then .error .duplicateEdge
    else checkDuplicateEdges (edge.key :: seen) rest

def requireModule (id : String) : Except ResolutionGraphError Unit :=
  if (nodes.get? id).isNone then .error (.moduleNotFound id) else .ok ()

def validateEdgeEndpoints (nodes : OrderedMap String ModuleNode) :
    List DependencyEdge → Except ResolutionGraphError Unit
  | [] => .ok ()
  | edge :: rest => do
      requireModule nodes edge.source
      requireModule nodes edge.target
      validateEdgeEndpoints nodes rest

def validateRoots (nodes : OrderedMap String ModuleNode) :
    List String → Except ResolutionGraphError Unit
  | [] => .ok ()
  | root :: rest => do
      requireModule nodes root
      validateRoots nodes rest

def validateSpecifiers : List ModuleNode → Except ResolutionGraphError Unit
  | [] => .ok ()
  | node :: rest => do
      validateSpecifier node.specifier
      validateSpecifiers rest

def duplicateNode (id : String) : ResolutionGraphError :=
  .internalError ("duplicate node_id: " ++ id)

def insertNodes : OrderedMap String ModuleNode → List ModuleNode →
    Except ResolutionGraphError (OrderedMap String ModuleNode)
  | held, [] => .ok held
  | held, node :: rest =>
    if (held.get? node.nodeId).isSome then .error (duplicateNode node.nodeId)
    else insertNodes (held.insert node.nodeId node) rest

def requireBudget (what : String) (count budget : Nat) : Except ResolutionGraphError Unit :=
  if budget < count then
    .error (.internalError (what ++ " count " ++ count.repr ++ " exceeds budget " ++ budget.repr))
  else .ok ()

/-- The graph with its hash and an id made from it, in the first epoch. -/
def assembleGraph (edges : List DependencyEdge) (roots : List String) : ResolutionGraph :=
  let contentHash := computeGraphHash hashing nodes edges roots
  { graphId := "rg-" ++ Authority.hexPrefix (hashing.sha256 (utf8 "graph-id:" ++ contentHash.bytes)) 8
    epoch := 0
    nodes
    edges
    rootModules := roots
    contentHash }

def buildGraph (nodes : List ModuleNode) (edges : List DependencyEdge) (roots : List String) :
    Except ResolutionGraphError ResolutionGraph := do
  requireBudget "node" nodes.length maxNodes
  requireBudget "edge" edges.length maxEdges
  validateSpecifiers nodes
  let nodeMap ← insertNodes .empty nodes
  validateEdgeEndpoints nodeMap edges
  checkDuplicateEdges [] edges
  validateRoots nodeMap roots
  .ok (assembleGraph hashing nodeMap edges roots)

/-!
## Invalidation
-/

def buildReverseIndex (edges : List DependencyEdge) : OrderedMap String (OrderedSet String) :=
  edges.foldl
    (fun index edge =>
      index.insert edge.target (((index.get? edge.target).getD .empty).insert edge.source ()))
    .empty

/-- The modules that a change to one reaches. Once too many are visited, new ones are still
noted, but not followed any further. -/
def computeAffectedSet (moduleId : String) : OrderedSet String :=
  Reachability.spread (Reachability.neighbours (buildReverseIndex graph.edges)) maxAffected
    graph.nodes.keys.length [moduleId] (.ofKeys [moduleId])

inductive InvalidationScope where
  | singleModule
  | subtreeFromModule
  | fullGraph
  deriving DecidableEq

def InvalidationScope.display : InvalidationScope → String
  | .singleModule => "single-module"
  | .subtreeFromModule => "subtree"
  | .fullGraph => "full-graph"

structure InvalidationReceipt where
  receiptId : String
  scope : InvalidationScope
  affectedModules : List String
  triggerModule : String
  oldHash : ContentHash
  newHash : ContentHash
  recomputedCount : Nat
  skippedCount : Nat
  contentHash : ContentHash
  deriving DecidableEq

def computeReceiptHash (receipt : InvalidationReceipt) : ContentHash :=
  let sortedModules := receipt.affectedModules.insertionSort (· ≤ ·)
  hashing.compute (utf8 "InvalidationReceipt:v1:" ++ lengthPrefixed receipt.receiptId ++
    utf8 "|scope:" ++ utf8 receipt.scope.display ++
    sortedModules.flatMap (fun affected => utf8 "affected:" ++ utf8 affected) ++
    utf8 "trigger:" ++ utf8 receipt.triggerModule ++ receipt.oldHash.bytes ++
    receipt.newHash.bytes ++ leBytes 8 receipt.recomputedCount ++ leBytes 8 receipt.skippedCount)

def generateReceiptId (operation trigger : String) (graphHash : ContentHash) : String :=
  "rcpt-" ++ Authority.hexPrefix (hashing.sha256 (utf8 "receipt-id:" ++ lengthPrefixed operation ++
    lengthPrefixed trigger ++ graphHash.bytes)) 4

def issueReceipt (operation moduleId : String) (scope : InvalidationScope)
    (affected : OrderedSet String) (total : Nat) (oldHash newHash : ContentHash) :
    InvalidationReceipt :=
  let receipt : InvalidationReceipt :=
    { receiptId := generateReceiptId hashing operation moduleId oldHash
      scope
      affectedModules := affected.keys
      triggerModule := moduleId
      oldHash
      newHash
      recomputedCount := affected.keys.length
      skippedCount := total - affected.keys.length
      contentHash := .zero }
  { receipt with contentHash := computeReceiptHash hashing receipt }

def invalidateModule (moduleId : String) : Except ResolutionGraphError InvalidationReceipt := do
  requireModule graph.nodes moduleId
  let affected := computeAffectedSet graph moduleId
  let total := graph.nodes.keys.length
  let scope :=
    if affected.keys.length ≤ 1 then .singleModule
    else if affected.keys.length = total then .fullGraph
    else .subtreeFromModule
  .ok (issueReceipt hashing "invalidate" moduleId scope affected total graph.contentHash
    graph.contentHash)

def removeModule (moduleId : String) :
    ResolutionGraph × Except ResolutionGraphError InvalidationReceipt :=
  match requireModule graph.nodes moduleId with
  | .error error => (graph, .error error)
  | .ok () =>
    let affected := computeAffectedSet graph moduleId
    let removed := ResolutionGraph.recomputeHash hashing
      { graph with
        nodes := graph.nodes.erase moduleId
        edges := graph.edges.filter fun edge =>
          edge.source ≠ moduleId && edge.target ≠ moduleId
        rootModules := graph.rootModules.filter (· ≠ moduleId) }
    (removed, .ok (issueReceipt hashing "remove" moduleId .subtreeFromModule affected
      graph.nodes.keys.length graph.contentHash removed.contentHash))

/-!
## Checkpoints
-/

structure RollbackCheckpoint where
  checkpointId : String
  epoch : UInt64
  graphSnapshotHash : ContentHash
  invalidationReceipts : List String
  contentHash : ContentHash
  deriving DecidableEq

def computeCheckpointHash (checkpoint : RollbackCheckpoint) : ContentHash :=
  let sortedReceipts := checkpoint.invalidationReceipts.insertionSort (· ≤ ·)
  hashing.compute (utf8 "RollbackCheckpoint:v1:" ++ lengthPrefixed checkpoint.checkpointId ++
    leBytes 8 checkpoint.epoch.toNat ++ checkpoint.graphSnapshotHash.bytes ++
    sortedReceipts.flatMap fun receiptId => utf8 "receipt:" ++ lengthPrefixed receiptId)

def generateCheckpointId (graphHash : ContentHash) (epoch : UInt64) : String :=
  "ckpt-" ++ Authority.hexPrefix (hashing.sha256 (utf8 "checkpoint-id:" ++ graphHash.bytes ++
    leBytes 8 epoch.toNat)) 4

def createCheckpoint : RollbackCheckpoint :=
  let checkpoint : RollbackCheckpoint :=
    { checkpointId := generateCheckpointId hashing graph.contentHash graph.epoch
      epoch := graph.epoch
      graphSnapshotHash := graph.contentHash
      invalidationReceipts := []
      contentHash := .zero }
  { checkpoint with contentHash := computeCheckpointHash hashing checkpoint }

def verifyCheckpoint (checkpoint : RollbackCheckpoint) : Except ResolutionGraphError Bool :=
  if computeCheckpointHash hashing checkpoint ≠ checkpoint.contentHash then
    .error .snapshotCorrupted
  else .ok (graph.contentHash = checkpoint.graphSnapshotHash)

/-!
## What the checks accept
-/

open List OrderedMap

theorem requireBudget_ok_iff {what : String} {count budget : Nat} :
    requireBudget what count budget = .ok () ↔ count ≤ budget := by
  unfold requireBudget
  split
  next above => exact iff_of_false nofun (Nat.not_le.mpr above)
  next within => exact iff_of_true rfl (Nat.not_lt.mp within)

theorem requireModule_ok_iff {nodes : OrderedMap String ModuleNode} {id : String} :
    requireModule nodes id = .ok () ↔ id ∈ nodes.keys := by
  unfold requireModule
  rw [mem_keys_iff]
  cases nodes.get? id <;> simp

variable {nodes : List ModuleNode} {edges : List DependencyEdge} {roots : List String}

theorem validateSpecifiers_ok_iff : validateSpecifiers nodes = .ok () ↔
      ∀ node ∈ nodes, validateSpecifier node.specifier = .ok () := by
  induction nodes with
  | nil => simp [validateSpecifiers]
  | cons node rest ih => rw [validateSpecifiers, seq_ok_iff, ih, forall_mem_cons]

theorem validateEdgeEndpoints_ok_iff {nodes : OrderedMap String ModuleNode} :
    validateEdgeEndpoints nodes edges = .ok () ↔
      ∀ edge ∈ edges, edge.source ∈ nodes.keys ∧ edge.target ∈ nodes.keys := by
  induction edges with
  | nil => simp [validateEdgeEndpoints]
  | cons edge rest ih =>
    rw [validateEdgeEndpoints, seq_ok_iff, seq_ok_iff, ih, requireModule_ok_iff,
      requireModule_ok_iff, forall_mem_cons, and_assoc]

theorem validateRoots_ok_iff {nodes : OrderedMap String ModuleNode} :
    validateRoots nodes roots = .ok () ↔ ∀ root ∈ roots, root ∈ nodes.keys := by
  induction roots with
  | nil => simp [validateRoots]
  | cons root rest ih =>
    rw [validateRoots, seq_ok_iff, ih, requireModule_ok_iff, forall_mem_cons]

theorem checkDuplicateEdges_ok_iff {seen : List (String × String × String)} :
    checkDuplicateEdges seen edges = .ok () ↔
      (edges.map (·.key)).Nodup ∧ ∀ edge ∈ edges, edge.key ∉ seen := by
  induction edges generalizing seen with
  | nil => simp [checkDuplicateEdges]
  | cons edge rest ih =>
    rw [checkDuplicateEdges, map_cons, nodup_cons, forall_mem_cons]
    split
    next again => exact iff_of_false nofun fun both => both.2.1 again
    next fresh =>
      rw [ih]
      simp only [mem_cons, not_or, mem_map, not_exists, not_and]
      constructor
      · rintro ⟨nodup, apart⟩
        exact ⟨⟨fun other member => (apart other member).1, nodup⟩, fresh,
          fun other member => (apart other member).2⟩
      · rintro ⟨⟨apart, nodup⟩, -, unseen⟩
        exact ⟨nodup, fun other member => ⟨apart other member, unseen other member⟩⟩

theorem insertNodes_ok_of_nodup {held : OrderedMap String ModuleNode}
    (distinct : (nodes.map (·.nodeId)).Nodup) (fresh : ∀ node ∈ nodes, node.nodeId ∉ held.keys) :
    ∃ nodeMap, insertNodes held nodes = .ok nodeMap ∧
      ∀ id, id ∈ nodeMap.keys ↔ id ∈ held.keys ∨ id ∈ nodes.map (·.nodeId) := by
  induction nodes generalizing held with
  | nil => exact ⟨held, rfl, by simp⟩
  | cons node rest ih =>
    rw [map_cons, nodup_cons] at distinct
    obtain ⟨own, fresh⟩ := forall_mem_cons.mp fresh
    have unused : ∀ other ∈ rest, other.nodeId ∉ (held.insert node.nodeId node).keys := by
      intro other member known
      rcases mem_keys_insert.mp known with same | old
      · exact distinct.1 (same ▸ mem_map_of_mem member)
      · exact fresh other member old
    obtain ⟨nodeMap, inserted, members⟩ := ih distinct.2 unused
    refine ⟨nodeMap, ?_, fun id => ?_⟩
    · rw [insertNodes, if_neg (mem_keys_iff.not.mp own)]
      exact inserted
    · rw [members, mem_keys_insert, map_cons, mem_cons]
      exact or_assoc.trans or_left_comm

theorem buildGraph_ok_iff {hashing : Hashing} {graph : ResolutionGraph} :
    buildGraph hashing nodes edges roots = .ok graph ↔
      nodes.length ≤ maxNodes ∧ edges.length ≤ maxEdges ∧
      (∀ node ∈ nodes, validateSpecifier node.specifier = .ok ()) ∧
      ∃ nodeMap, insertNodes .empty nodes = .ok nodeMap ∧
        (∀ edge ∈ edges, edge.source ∈ nodeMap.keys ∧ edge.target ∈ nodeMap.keys) ∧
        (edges.map (·.key)).Nodup ∧ (∀ root ∈ roots, root ∈ nodeMap.keys) ∧
        graph = assembleGraph hashing nodeMap edges roots := by
  unfold buildGraph
  simp only [↓seq_ok_iff, bind_ok_iff, requireBudget_ok_iff, validateSpecifiers_ok_iff,
    validateEdgeEndpoints_ok_iff, checkDuplicateEdges_ok_iff, validateRoots_ok_iff, not_mem_nil,
    not_false_eq_true, implies_true, and_true, Except.ok.injEq, @eq_comm _ graph]

/-- What holds of every graph that is built. -/
structure Accepted (hashing : Hashing) (graph : ResolutionGraph) : Prop where
  endpoints : ∀ edge ∈ graph.edges,
    edge.source ∈ graph.nodes.keys ∧ edge.target ∈ graph.nodes.keys
  rooted : ∀ root ∈ graph.rootModules, root ∈ graph.nodes.keys
  hashed : graph.contentHash =
    computeGraphHash hashing graph.nodes graph.edges graph.rootModules

theorem accepted_of_buildGraph {hashing : Hashing} {graph : ResolutionGraph}
    (built : buildGraph hashing nodes edges roots = .ok graph) : Accepted hashing graph := by
  obtain ⟨-, -, -, nodeMap, -, endpoints, -, rooted, rfl⟩ := buildGraph_ok_iff.mp built
  exact ⟨endpoints, rooted, rfl⟩

end FrankenEngine.Resolution
