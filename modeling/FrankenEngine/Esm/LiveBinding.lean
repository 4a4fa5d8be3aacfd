import FrankenEngine.Esm.Graph
import FrankenEngine.Library.AliasChain
import Mathlib.Data.List.Sort
import Mathlib.Data.Prod.Lex

/-!
# Live bindings

The binding table of `module_live_binding.rs`: a cell for each export, aliases
from re-exports to the exports they stand for, namespace objects, and imports
that read the cells.
-/

set_option autoImplicit false

namespace FrankenEngine.Esm

open Library

inductive BindingCellState where
  | uninitialized
  | initialized
  | dead
  deriving DecidableEq, Repr

structure BindingCell where
  sourceModule : String
  exportName : String
  localName : String
  bindingType : BindingType
  state : BindingCellState
  valueMillionths : Option Int64
  valueString : Option String
  version : UInt64
  deriving DecidableEq

inductive LiveBindingError where
  | moduleNotLinked (module status : String)
  | bindingNotFound (module exportName : String)
  | bindingDead (module exportName : String)
  | importNotWired (importer localName : String)
  | namespaceNotFound (module : String)
  deriving DecidableEq, Repr

namespace BindingCell

def new (sourceModule exportName localName : String) (bindingType : BindingType) : BindingCell where
  sourceModule
  exportName
  localName
  bindingType
  state := .uninitialized
  valueMillionths := none
  valueString := none
  version := 0

variable (cell : BindingCell)

def initializeMillionths (value : Int64) : BindingCell :=
  { cell with
    state := .initialized, valueMillionths := some value, valueString := none
    version := cell.version + 1 }

def initializeString (value : String) : BindingCell :=
  { cell with
    state := .initialized, valueMillionths := none, valueString := some value
    version := cell.version + 1 }

def markDead : BindingCell :=
  { cell with state := .dead, version := cell.version + 1 }

def mutateMillionths (value : Int64) : Except LiveBindingError BindingCell :=
  if cell.state = .dead then .error (.bindingDead cell.sourceModule cell.exportName)
  else
    .ok { cell with
      state := .initialized, valueMillionths := some value, valueString := none
      version := cell.version + 1 }

def mutateString (value : String) : Except LiveBindingError BindingCell :=
  if cell.state = .dead then .error (.bindingDead cell.sourceModule cell.exportName)
  else
    .ok { cell with
      state := .initialized, valueMillionths := none, valueString := some value
      version := cell.version + 1 }

end BindingCell

structure BindingId where
  moduleSpecifier : String
  exportName : String
  deriving DecidableEq, Repr

namespace BindingId

def rank (id : BindingId) : String ×ₗ String := toLex (id.moduleSpecifier, id.exportName)

theorem rank_injective : Function.Injective rank := by
  intro left right same
  cases left
  cases right
  obtain ⟨rfl, rfl⟩ := same
  rfl

instance : LinearOrder BindingId := LinearOrder.lift' rank rank_injective

end BindingId

structure NamespaceObject where
  schemaVersion : String
  moduleSpecifier : String
  exportNames : List String
  bindings : OrderedMap String BindingId

structure BindingAlias where
  aliasId : BindingId
  source : BindingId
  deriving DecidableEq, Repr

structure ImportBinding where
  importer : String
  localName : String
  target : BindingId
  isNamespace : Bool
  deriving DecidableEq, Repr

inductive BindingEvent where
  | cellCreated (bindingId : BindingId) (bindingType : BindingType)
  | cellInitialized (bindingId : BindingId) (version : UInt64)
  | cellMutated (bindingId : BindingId) (version : UInt64)
  | cellDied (bindingId : BindingId)
  | namespaceCreated (moduleSpecifier : String) (exportCount : Nat)
  | importWired (importer localName : String) (target : BindingId)
  deriving DecidableEq, Repr

structure LiveBindingMap where
  schemaVersion : String := "franken-engine.module-live-binding.contract.v1"
  cells : OrderedMap BindingId BindingCell := .empty
  aliases : List BindingAlias := []
  namespaces : OrderedMap String NamespaceObject := .empty
  imports : List ImportBinding := []
  events : List BindingEvent := []

namespace LiveBindingMap

variable (map : LiveBindingMap)

def emit (event : BindingEvent) : LiveBindingMap :=
  { map with events := map.events ++ [event] }

def registerCell (cell : BindingCell) : LiveBindingMap :=
  let id : BindingId := ⟨cell.sourceModule, cell.exportName⟩
  let announced := map.emit (.cellCreated id cell.bindingType)
  { announced with cells := announced.cells.insert id cell }

def aliasOrder (left right : BindingAlias) : Prop :=
  toLex (left.aliasId, left.source) ≤ toLex (right.aliasId, right.source)

instance : DecidableRel aliasOrder := fun left right =>
  inferInstanceAs (Decidable (toLex (left.aliasId, left.source) ≤ toLex (right.aliasId, right.source)))

def redirect (aliasId source : BindingId) : List BindingAlias → List BindingAlias
  | [] => []
  | entry :: rest =>
    if entry.aliasId = aliasId then { entry with source } :: rest
    else entry :: redirect aliasId source rest

def registerAlias (aliasId source : BindingId) : LiveBindingMap :=
  { map with
    aliases :=
      if map.aliases.any fun entry => entry.aliasId = aliasId then redirect aliasId source map.aliases
      else List.insertionSort aliasOrder (map.aliases ++ [{ aliasId, source }]) }

def aliasOf (aliases : List BindingAlias) (id : BindingId) : Option BindingId :=
  (aliases.find? fun entry => entry.aliasId = id).map (·.source)

/-- Every turn of the loop but the last visits another alias. -/
def resolveBindingId (id : BindingId) : BindingId :=
  AliasChain.follow (aliasOf map.aliases) (map.aliases.length + 1) [] id

def getCell (id : BindingId) : Option BindingCell :=
  map.cells.get? (map.resolveBindingId id)

def changeCell (id : BindingId) (change : BindingCell → Except LiveBindingError BindingCell)
    (event : BindingId → UInt64 → BindingEvent) : LiveBindingMap × Except LiveBindingError Unit :=
  let resolved := map.resolveBindingId id
  match map.cells.get? resolved with
  | none => (map, .error (.bindingNotFound resolved.moduleSpecifier resolved.exportName))
  | some cell =>
    match change cell with
    | .error error => (map, .error error)
    | .ok changed =>
      (({ map with cells := map.cells.insert resolved changed }).emit
        (event resolved changed.version), .ok ())

def initializeMillionths (map : LiveBindingMap) (id : BindingId) (value : Int64) :
    LiveBindingMap × Except LiveBindingError Unit :=
  map.changeCell id (fun cell => .ok (cell.initializeMillionths value)) .cellInitialized

def initializeString (map : LiveBindingMap) (id : BindingId) (value : String) :
    LiveBindingMap × Except LiveBindingError Unit :=
  map.changeCell id (fun cell => .ok (cell.initializeString value)) .cellInitialized

def mutateMillionths (map : LiveBindingMap) (id : BindingId) (value : Int64) :
    LiveBindingMap × Except LiveBindingError Unit :=
  map.changeCell id (·.mutateMillionths value) .cellMutated

def mutateString (map : LiveBindingMap) (id : BindingId) (value : String) :
    LiveBindingMap × Except LiveBindingError Unit :=
  map.changeCell id (·.mutateString value) .cellMutated

def markDead (map : LiveBindingMap) (id : BindingId) :
    LiveBindingMap × Except LiveBindingError Unit :=
  map.changeCell id (fun cell => .ok cell.markDead) fun resolved _ => .cellDied resolved

def registerNamespace (namespaceObject : NamespaceObject) : LiveBindingMap :=
  ({ map with
    namespaces :=
      map.namespaces.insert namespaceObject.moduleSpecifier namespaceObject }).emit
    (.namespaceCreated namespaceObject.moduleSpecifier namespaceObject.exportNames.length)

def wireImport (binding : ImportBinding) : LiveBindingMap :=
  let announced := map.emit (.importWired binding.importer binding.localName binding.target)
  { announced with imports := announced.imports ++ [binding] }

def readThroughImport (importer localName : String) : Except LiveBindingError BindingCell :=
  match map.imports.find? fun binding =>
      binding.importer = importer ∧ binding.localName = localName with
  | none => .error (.importNotWired importer localName)
  | some binding =>
    match map.getCell binding.target with
    | none =>
      .error (.bindingNotFound binding.target.moduleSpecifier binding.target.exportName)
    | some cell => .ok cell

end LiveBindingMap

def ModuleStatus.isLinked : ModuleStatus → Bool
  | .unlinked | .linking => false
  | .linked | .evaluating | .evaluated | .evaluationError => true

namespace LiveBindingMap

def addDirect (specifier : String) (map : LiveBindingMap) (entry : ExportEntry) :
    LiveBindingMap :=
  match entry.moduleRequest with
  | some _ => map
  | none =>
    map.registerCell
      (.new specifier entry.exportName (entry.localName.getD entry.exportName) .direct)

/-- The second phase at one export: a cell and an alias for a re-export of what has a cell by
now. -/
def addReExport (specifier : String) (map : LiveBindingMap) (entry : ExportEntry) :
    LiveBindingMap :=
  match entry.moduleRequest with
  | none => map
  | some targetModule =>
    let importName := entry.importName.getD entry.exportName
    let source : BindingId := ⟨targetModule, importName⟩
    let reExport : BindingId := ⟨specifier, entry.exportName⟩
    if (map.cells.get? source).isSome then
      let celled :=
        if (map.cells.get? reExport).isSome then map
        else map.registerCell (.new specifier entry.exportName importName .reExport)
      celled.registerAlias reExport source
    else map

def exportTarget (specifier : String) (entry : ExportEntry) : BindingId :=
  match entry.moduleRequest with
  | some targetModule => ⟨targetModule, entry.importName.getD entry.exportName⟩
  | none => ⟨specifier, entry.exportName⟩

def addNamespace (map : LiveBindingMap) (module : EsmModule) : LiveBindingMap :=
  map.registerNamespace
    { schemaVersion := "franken-engine.module-namespace-object.v1"
      moduleSpecifier := module.specifier
      exportNames := (module.exports.map (·.exportName)).insertionSort (· ≤ ·)
      bindings := module.exports.foldl (fun bindings entry =>
        bindings.insert entry.exportName (exportTarget module.specifier entry)) .empty }

/-- The target of a namespace import has the name of the star, like that of any other import. -/
def addImport (importer : String) (map : LiveBindingMap) (entry : ImportEntry) : LiveBindingMap :=
  map.wireImport
    { importer, localName := entry.localName, target := ⟨entry.moduleRequest, entry.importName⟩
      isNamespace := entry.importName = "*" }

def addModuleDirects (map : LiveBindingMap) (module : EsmModule) :
    Except LiveBindingError LiveBindingMap :=
  if module.status.isLinked then .ok (module.exports.foldl (addDirect module.specifier) map)
  else .error (.moduleNotLinked module.specifier module.status.display)

end LiveBindingMap

open LiveBindingMap in
def buildLiveBindings (graph : ModuleGraph) : Except LiveBindingError LiveBindingMap := do
  let modules := graph.modules.values
  let direct ← modules.foldlM addModuleDirects {}
  let linked := modules.foldl
    (fun map module => module.exports.foldl (addReExport module.specifier) map) direct
  let named := modules.foldl addNamespace linked
  .ok (modules.foldl
    (fun map module => module.imports.foldl (addImport module.specifier) map) named)

def importError (map : LiveBindingMap) (binding : ImportBinding) : Option LiveBindingError :=
  if binding.isNamespace then
    if (map.namespaces.get? binding.target.moduleSpecifier).isSome then none
    else some (.namespaceNotFound binding.target.moduleSpecifier)
  else if (map.cells.get? binding.target).isSome then none
  else some (.bindingNotFound binding.target.moduleSpecifier binding.target.exportName)

def validateBindings (map : LiveBindingMap) : List LiveBindingError :=
  map.imports.filterMap (importError map)

end FrankenEngine.Esm
