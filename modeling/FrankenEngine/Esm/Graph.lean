import FrankenEngine.Library.OrderedMap
import FrankenEngine.Library.Search
import Mathlib.Data.List.ProdSigma
import Mathlib.Data.String.Basic

/-!
# The module graph

The graph of `esm_loader.rs` with its two depth-first phases, linking and
evaluation, and the resolution of exports.
-/

set_option autoImplicit false

namespace FrankenEngine.Esm

open Library

def maxModuleDepth : Nat := 512

def maxModuleGraphSize : Nat := 10000

inductive ModuleStatus where
  | unlinked
  | linking
  | linked
  | evaluating
  | evaluated
  | evaluationError
  deriving DecidableEq, Repr

def ModuleStatus.display : ModuleStatus → String
  | .unlinked => "unlinked"
  | .linking => "linking"
  | .linked => "linked"
  | .evaluating => "evaluating"
  | .evaluated => "evaluated"
  | .evaluationError => "evaluation_error"

/-!
## Modules
-/

structure ExportEntry where
  localName : Option String
  exportName : String
  moduleRequest : Option String
  importName : Option String
  deriving DecidableEq, Repr

namespace ExportEntry

def direct (localName exportName : String) : ExportEntry :=
  { localName := some localName, exportName, moduleRequest := none, importName := none }

def reExport (exportName moduleRequest importName : String) : ExportEntry :=
  { localName := none, exportName, moduleRequest := some moduleRequest
    importName := some importName }

def starReExport (moduleRequest : String) : ExportEntry :=
  { localName := none, exportName := "*", moduleRequest := some moduleRequest, importName := none }

end ExportEntry

structure ImportEntry where
  moduleRequest : String
  importName : String
  localName : String
  deriving DecidableEq, Repr

structure EsmModule where
  specifier : String
  imports : List ImportEntry
  exports : List ExportEntry
  dependencies : OrderedSet String
  status : ModuleStatus
  dfsIndex : Option Nat
  dfsAncestorIndex : Option Nat
  hasDefaultExport : Bool
  evalOrder : Option Nat
  deriving DecidableEq

namespace EsmModule

def new (specifier : String) : EsmModule where
  specifier := specifier
  imports := []
  exports := []
  dependencies := .empty
  status := .unlinked
  dfsIndex := none
  dfsAncestorIndex := none
  hasDefaultExport := false
  evalOrder := none

def addImport (module : EsmModule) (entry : ImportEntry) : EsmModule :=
  { module with
    dependencies := module.dependencies.insert entry.moduleRequest ()
    imports := module.imports ++ [entry] }

def addExport (module : EsmModule) (entry : ExportEntry) : EsmModule :=
  { module with
    hasDefaultExport := module.hasDefaultExport || entry.exportName == "default"
    dependencies :=
      match entry.moduleRequest with
      | some request => module.dependencies.insert request ()
      | none => module.dependencies
    exports := module.exports ++ [entry] }

end EsmModule

/-!
## The graph
-/

inductive TracePhase where
  | resolve
  | link
  | evaluate
  | cycleDetected
  deriving DecidableEq, Repr

structure TraceEvent where
  phase : TracePhase
  specifier : String
  detail : String
  seq : Nat
  deriving DecidableEq, Repr

inductive EsmLoaderError where
  | noEntryPoint
  | moduleNotFound (specifier : String)
  | graphTooLarge (limit : Nat)
  | depthExceeded (specifier : String) (depth limit : Nat)
  | unresolvedDependency (specifier dependency : String)
  | exportNotFound (specifier exportName : String)
  | ambiguousExport (specifier exportName : String)
  | evaluationFailed (specifier reason : String)
  | invalidStatus (specifier expected actual : String)
  deriving DecidableEq, Repr

structure ModuleGraph where
  modules : OrderedMap String EsmModule
  entryPoint : Option String
  traceEvents : List TraceEvent
  deriving DecidableEq

namespace ModuleGraph

def new : ModuleGraph := { modules := .empty, entryPoint := none, traceEvents := [] }

def addModule (graph : ModuleGraph) (module : EsmModule) : Except EsmLoaderError ModuleGraph :=
  if maxModuleGraphSize ≤ graph.modules.entries.length then
    .error (.graphTooLarge maxModuleGraphSize)
  else
    .ok
      { graph with
        entryPoint :=
          match graph.entryPoint with
          | some entry => some entry
          | none => some module.specifier
        modules := graph.modules.insert module.specifier module }

def trace (graph : ModuleGraph) (phase : TracePhase) (specifier detail : String) : ModuleGraph :=
  { graph with
    traceEvents := graph.traceEvents ++
      [{ phase, specifier, detail, seq := graph.traceEvents.length }] }

def update (graph : ModuleGraph) (specifier : String) (change : EsmModule → EsmModule) :
    ModuleGraph :=
  { graph with modules := graph.modules.modify specifier change }

end ModuleGraph

/-!
## Linking
-/

structure CycleInfo where
  specifier : String
  stackSnapshot : List String
  deriving DecidableEq, Repr

structure LinkResult where
  linkedCount : Nat
  cycleCount : Nat
  cycles : List CycleInfo
  deriving DecidableEq, Repr

structure LinkState where
  graph : ModuleGraph
  dfsCounter : Nat
  /-- The last module pushed stands first. -/
  stack : List String
  cycles : List CycleInfo

namespace LinkState

def reportCycle (state : LinkState) (specifier : String) (depth : Nat) : LinkState :=
  { state with
    graph := state.graph.trace .cycleDetected specifier s!"cycle detected at depth {depth}"
    cycles := state.cycles ++ [{ specifier, stackSnapshot := state.stack.reverse }] }

def enter (state : LinkState) (specifier : String) : LinkState :=
  let index := state.dfsCounter
  let marked := state.graph.update specifier fun module =>
    { module with status := .linking, dfsIndex := some index, dfsAncestorIndex := some index }
  { state with
    graph := marked.trace .link specifier s!"linking (dfs_index={index})"
    dfsCounter := index + 1
    stack := specifier :: state.stack }

def setAncestor (state : LinkState) (specifier : String) (ancestor : Nat) : LinkState :=
  { state with
    graph := state.graph.update specifier fun module =>
      { module with dfsAncestorIndex := some ancestor } }

def popComponent (specifier : String) (index : Nat) : List String → ModuleGraph →
    List String × ModuleGraph
  | [], graph => ([], graph)
  | top :: rest, graph =>
    let marked := graph.update top fun module =>
      { module with status := .linked, dfsAncestorIndex := some index }
    if top = specifier then (rest, marked) else popComponent specifier index rest marked

def closeComponent (state : LinkState) (specifier : String) (index : Nat) : LinkState :=
  let (stack, graph) := popComponent specifier index state.stack state.graph
  { state with stack, graph }

end LinkState

def linkDependencies
    (visit : LinkState → String → Except EsmLoaderError (Nat × LinkState)) (specifier : String) :
    List String → Nat → LinkState → Except EsmLoaderError (Nat × LinkState)
  | [], ancestor, state => .ok (ancestor, state)
  | dependency :: rest, ancestor, state =>
    if (state.graph.modules.get? dependency).isNone then
      .error (.unresolvedDependency specifier dependency)
    else do
      let (dependencyAncestor, state) ← visit state dependency
      linkDependencies visit specifier rest
        (if dependencyAncestor < ancestor then dependencyAncestor else ancestor) state

/-- The recursion is on the levels that the depth limit still allows. -/
def linkModule : Nat → LinkState → String → Except EsmLoaderError (Nat × LinkState)
  | 0, _, specifier => .error (.depthExceeded specifier maxModuleDepth maxModuleDepth)
  | levels + 1, state, specifier =>
    match state.graph.modules.get? specifier with
    | none => .error (.moduleNotFound specifier)
    | some module =>
      match module.status with
      | .linked => .ok (module.dfsAncestorIndex.getD (2 ^ 32 - 1), state)
      | .evaluated => .ok (module.dfsAncestorIndex.getD (2 ^ 32 - 1), state)
      | .linking =>
        .ok (module.dfsIndex.getD 0, state.reportCycle specifier (maxModuleDepth - (levels + 1)))
      | _ => do
          let index := state.dfsCounter
          let (ancestor, inner) ← linkDependencies (linkModule levels) specifier
            module.dependencies.keys index (state.enter specifier)
          let settled := inner.setAncestor specifier ancestor
          .ok (ancestor,
            if ancestor = index then settled.closeComponent specifier index else settled)

def ModuleGraph.link (graph : ModuleGraph) : Except EsmLoaderError (LinkResult × ModuleGraph) :=
  match graph.entryPoint with
  | none => .error .noEntryPoint
  | some entry => do
      let (_, state) ← linkModule maxModuleDepth
        { graph, dfsCounter := 0, stack := [], cycles := [] } entry
      .ok (
        { linkedCount := state.graph.modules.values.countP (·.status = .linked)
          cycleCount := state.cycles.length
          cycles := state.cycles },
        state.graph)

/-!
## Evaluation
-/

structure EvalResult where
  evalOrder : List String
  evaluatedCount : Nat
  deriving DecidableEq, Repr

structure EvalState where
  graph : ModuleGraph
  evalOrder : List String
  evalCounter : Nat

namespace EvalState

def enter (state : EvalState) (specifier : String) (depth : Nat) : EvalState :=
  { state with
    graph := (state.graph.update specifier fun module => { module with status := .evaluating }).trace
      .evaluate specifier s!"evaluating at depth {depth}" }

def finish (state : EvalState) (specifier : String) : EvalState :=
  let order := state.evalCounter
  { graph := state.graph.update specifier fun module =>
      { module with status := .evaluated, evalOrder := some order }
    evalOrder := state.evalOrder ++ [specifier]
    evalCounter := order + 1 }

end EvalState

def evaluateModule : Nat → EvalState → String → Except EsmLoaderError EvalState
  | 0, _, specifier => .error (.depthExceeded specifier maxModuleDepth maxModuleDepth)
  | levels + 1, state, specifier =>
    match state.graph.modules.get? specifier with
    | none => .error (.moduleNotFound specifier)
    | some module =>
      match module.status with
      | .evaluated => .ok state
      | .evaluating => .ok state
      | .evaluationError =>
        .error (.evaluationFailed specifier "previous evaluation failed")
      | .linked => do
          let inner ← module.dependencies.keys.foldlM (evaluateModule levels)
            (state.enter specifier (maxModuleDepth - (levels + 1)))
          .ok (inner.finish specifier)
      | status => .error (.invalidStatus specifier "linked" status.display)

def ModuleGraph.evaluate (graph : ModuleGraph) :
    Except EsmLoaderError (EvalResult × ModuleGraph) :=
  match graph.entryPoint with
  | none => .error .noEntryPoint
  | some entry => do
      let state ← evaluateModule maxModuleDepth { graph, evalOrder := [], evalCounter := 0 } entry
      .ok ({ evalOrder := state.evalOrder, evaluatedCount := state.evalCounter }, state.graph)

/-!
## Export resolution
-/

inductive BindingType where
  | direct
  | reExport
  | starReExport
  deriving DecidableEq, Repr

structure ResolvedBinding where
  moduleSpecifier : String
  localName : String
  bindingType : BindingType
  deriving DecidableEq, Repr

/-- What the first loop of `resolve_export_inner` stops at: a local name, or the
module and the name to go on with. -/
inductive ExplicitExport where
  | direct (localName : String)
  | reExport (moduleRequest importName : String)
  deriving DecidableEq, Repr

def explicitExport (exportName : String) : List ExportEntry → Option ExplicitExport
  | [] => none
  | entry :: rest =>
    if entry.exportName = exportName then
      match entry.localName, entry.moduleRequest, entry.importName with
      | some localName, _, _ => some (.direct localName)
      | none, some request, some importName => some (.reExport request importName)
      | none, _, _ => explicitExport exportName rest
    else explicitExport exportName rest

abbrev ExportKey := String × String

instance (key : ExportKey) (keys : List ExportKey) : Decidable (key ∈ keys) :=
  List.instDecidableMemOfLawfulBEq key keys

/-- The second loop of `resolve_export_inner`, with its recursive call. -/
def resolveStars
    (resolve : List ExportKey → ExportKey →
      Option (Except EsmLoaderError ResolvedBinding × List ExportKey))
    (specifier exportName : String) : List ExportEntry → Option ResolvedBinding → List ExportKey →
      Option (Except EsmLoaderError ResolvedBinding × List ExportKey)
  | [], some binding, visited => some (.ok binding, visited)
  | [], none, visited => some (.error (.exportNotFound specifier exportName), visited)
  | entry :: rest, found, visited =>
    if entry.exportName = "*" then
      match entry.moduleRequest with
      | none => resolveStars resolve specifier exportName rest found visited
      | some request => do
          let (result, visited) ← resolve visited (request, exportName)
          match result, found with
          | .error _, _ => resolveStars resolve specifier exportName rest found visited
          | .ok _, some _ => some (.error (.ambiguousExport specifier exportName), visited)
          | .ok binding, none =>
            resolveStars resolve specifier exportName rest (some binding) visited
    else resolveStars resolve specifier exportName rest found visited

namespace ModuleGraph

/-- The body of `resolve_export_inner`, with its recursive call. -/
def resolveExportInner (graph : ModuleGraph)
    (resolve : List ExportKey → ExportKey →
      Option (Except EsmLoaderError ResolvedBinding × List ExportKey))
    (visited : List ExportKey) (key : ExportKey) :
    Option (Except EsmLoaderError ResolvedBinding × List ExportKey) :=
  let (specifier, exportName) := key
  if key ∈ visited then some (.error (.ambiguousExport specifier exportName), visited)
  else
    match graph.modules.get? specifier with
    | none => some (.error (.moduleNotFound specifier), key :: visited)
    | some module =>
      match explicitExport exportName module.exports with
      | some (.direct localName) =>
        some (.ok { moduleSpecifier := specifier, localName, bindingType := .direct },
          key :: visited)
      | some (.reExport request importName) => resolve (key :: visited) (request, importName)
      | none => resolveStars resolve specifier exportName module.exports none (key :: visited)

def exportEntries (graph : ModuleGraph) : List ExportEntry :=
  graph.modules.values.flatMap (·.exports)

def exportKeys (graph : ModuleGraph) (key : ExportKey) : List ExportKey :=
  (key.1 :: graph.exportEntries.filterMap (·.moduleRequest)) ×ˢ
    (key.2 :: graph.exportEntries.filterMap (·.importName))

/-- The source recurses without a bound; the calls nest at most once for each key
that can be asked for. -/
def resolveExport (graph : ModuleGraph) (specifier exportName : String) :
    Option (Except EsmLoaderError ResolvedBinding) :=
  (Search.run graph.resolveExportInner ((graph.exportKeys (specifier, exportName)).length + 1) []
    (specifier, exportName)).map (·.1)

end ModuleGraph

end FrankenEngine.Esm
