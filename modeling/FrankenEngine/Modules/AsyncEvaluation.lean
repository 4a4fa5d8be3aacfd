import FrankenEngine.Authority.Signature
import FrankenEngine.Esm.LiveBinding
import FrankenEngine.Library.Worklist
import FrankenEngine.Promise.Store

/-!
# Asynchronous module evaluation

The evaluator of `module_async_evaluation.rs`: the phase of each module, what it
waits for, and the propagation of rejections along the declared dependencies.
The operations set phases without looking at the phase they find.
-/

set_option autoImplicit false

namespace FrankenEngine.Modules

open Library Esm Promise

inductive AsyncModulePhase where
  | synchronous
  | suspended
  | awaitingDependencies
  | settled
  | rejected
  deriving DecidableEq, Repr

def AsyncModulePhase.isTerminal : AsyncModulePhase → Bool
  | .synchronous | .settled | .rejected => true
  | .suspended | .awaitingDependencies => false

inductive SuspensionContext where
  | topLevelAwait
  | awaitingDependency (moduleSpecifier : String)
  | awaitingBinding (bindingId : BindingId)
  deriving DecidableEq

structure SuspensionRecord where
  moduleSpecifier : String
  suspensionSeq : UInt64
  resumeSeq : UInt64
  awaitingPromise : PromiseHandle
  context : SuspensionContext
  resolved : Bool
  deriving DecidableEq

namespace SuspensionRecord

def new (moduleSpecifier : String) (suspensionSeq : UInt64) (awaitingPromise : PromiseHandle)
    (context : SuspensionContext) : SuspensionRecord where
  moduleSpecifier
  suspensionSeq
  resumeSeq := 0
  awaitingPromise
  context
  resolved := false

def resolve (record : SuspensionRecord) (resumeSeq : UInt64) : SuspensionRecord :=
  { record with resumeSeq, resolved := true }

end SuspensionRecord

/-!
## Modules
-/

structure AsyncModuleState where
  moduleSpecifier : String
  phase : AsyncModulePhase
  evaluationPromise : Option PromiseHandle
  suspensions : List SuspensionRecord
  rejectionReasonHash : Option String
  rejectionReasonDescription : Option String
  pendingDependencies : OrderedSet String
  hasTopLevelAwait : Bool
  eventSeq : UInt64

namespace AsyncModuleState

def synchronous (moduleSpecifier : String) : AsyncModuleState where
  moduleSpecifier
  phase := .synchronous
  evaluationPromise := none
  suspensions := []
  rejectionReasonHash := none
  rejectionReasonDescription := none
  pendingDependencies := .empty
  hasTopLevelAwait := false
  eventSeq := 0

def asyncPending (moduleSpecifier : String) (promise : PromiseHandle) : AsyncModuleState where
  moduleSpecifier
  phase := .suspended
  evaluationPromise := some promise
  suspensions := []
  rejectionReasonHash := none
  rejectionReasonDescription := none
  pendingDependencies := .empty
  hasTopLevelAwait := true
  eventSeq := 0

variable (state : AsyncModuleState)

def recordSuspension (awaitingPromise : PromiseHandle) (context : SuspensionContext) :
    AsyncModuleState :=
  { state with
    eventSeq := state.eventSeq + 1
    suspensions := state.suspensions ++
      [.new state.moduleSpecifier state.eventSeq awaitingPromise context]
    phase := .suspended }

/-- Resolve the last suspension unless that has happened before. -/
def recordResumption : AsyncModuleState :=
  { state with
    eventSeq := state.eventSeq + 1
    suspensions :=
      match state.suspensions.getLast? with
      | none => state.suspensions
      | some last =>
        if last.resolved then state.suspensions
        else state.suspensions.dropLast ++ [last.resolve state.eventSeq] }

def settle : AsyncModuleState :=
  { state with phase := .settled, pendingDependencies := .empty }

def reject (reasonHash : String) (reasonDescription : Option String) : AsyncModuleState :=
  { state with
    phase := .rejected
    rejectionReasonHash := some reasonHash
    rejectionReasonDescription := reasonDescription }

def addPendingDependency (dependency : String) : AsyncModuleState :=
  { state with
    pendingDependencies := state.pendingDependencies.insert dependency ()
    phase := if state.phase = .suspended then .awaitingDependencies else state.phase }

def resolveDependency (dependency : String) : AsyncModuleState :=
  { state with pendingDependencies := state.pendingDependencies.erase dependency }

def allDependenciesSettled : Bool :=
  state.pendingDependencies.entries.isEmpty

end AsyncModuleState

/-!
## The evaluator
-/

inductive AsyncEvalEventType where
  | evaluationStarted
  | topLevelAwaitSuspended
  | dependencySuspended
  | dependencySettled
  | dependencyRejected
  | evaluationResumed
  | evaluationSettled
  | evaluationRejected
  | bindingMarkedDead
  | rejectionPropagated
  deriving DecidableEq, Repr

structure AsyncEvalWitnessEvent where
  moduleSpecifier : String
  eventType : AsyncEvalEventType
  seq : UInt64
  detail : String
  deriving DecidableEq

inductive AsyncEvalError where
  | moduleNotFound (specifier : String)
  | suspensionLimitExceeded (specifier : String) (limit : UInt64)
  | cycleDetected (modules : List String)
  deriving DecidableEq

inductive LinkageKind where
  | directImport
  | reExport
  | namespaceImport
  | defaultImport
  deriving DecidableEq, Repr

structure LinkedModule where
  moduleSpecifier : String
  importBindings : List BindingId
  linkageKind : LinkageKind
  deriving DecidableEq

structure RejectionLinkage where
  rejectedModule : String
  rejectionReasonHash : String
  rejectionReasonDescription : Option String
  linkedModules : List LinkedModule
  transitiveClosure : OrderedSet String
  deadBindings : List BindingId

structure AsyncEvalConfig where
  maxSuspensionsPerModule : UInt64 := 256
  maxTotalSuspensions : UInt64 := 4096
  transitiveRejectionPropagation : Bool := true

structure AsyncModuleEvaluator where
  states : OrderedMap String AsyncModuleState := .empty
  declaredDependencies : OrderedMap String (OrderedSet String) := .empty
  rejectionLinkages : List RejectionLinkage := []
  witnessEvents : List AsyncEvalWitnessEvent := []
  globalSeq : UInt64 := 0
  config : AsyncEvalConfig := {}

namespace AsyncModuleEvaluator

def new (config : AsyncEvalConfig) : AsyncModuleEvaluator := { config }

variable (evaluator : AsyncModuleEvaluator)

variable (specifier : String)

def emitEvent (eventType : AsyncEvalEventType) (detail : String) : AsyncModuleEvaluator :=
  { evaluator with
    globalSeq := evaluator.globalSeq + 1
    witnessEvents := evaluator.witnessEvents ++
      [{ moduleSpecifier := specifier, eventType, seq := evaluator.globalSeq, detail }] }

def putState (state : AsyncModuleState) : AsyncModuleEvaluator :=
  { evaluator with states := evaluator.states.insert specifier state }

def hashPrefix (reasonHash : String) : String := String.ofList (reasonHash.toList.take 8)

/-!
## Registration
-/

structure Registration where
  state : AsyncModuleState
  awaitingDependencies : List String := []
  rejectedDependency : Option (String × String × Option String) := none

def Registration.addDependency (states : OrderedMap String AsyncModuleState)
    (registration : Registration) (dependency : String) : Registration :=
  match states.get? dependency with
  | none => registration
  | some dependencyState =>
    if dependencyState.phase = .rejected then
      { registration with
        state := registration.state.addPendingDependency dependency
        rejectedDependency := registration.rejectedDependency.or (some (dependency,
          dependencyState.rejectionReasonHash.getD "",
          dependencyState.rejectionReasonDescription)) }
    else if dependencyState.phase.isTerminal then registration
    else
      { registration with
        state := registration.state.addPendingDependency dependency
        awaitingDependencies := registration.awaitingDependencies ++ [dependency] }

def Registration.finish (registration : Registration) (hasTopLevelAwait : Bool) :
    AsyncModuleState :=
  let waiting :=
    if !hasTopLevelAwait && !registration.state.allDependenciesSettled then
      { registration.state with phase := .awaitingDependencies }
    else registration.state
  match registration.rejectedDependency with
  | none => waiting
  | some (_, reasonHash, reasonDescription) => waiting.reject reasonHash reasonDescription

def startState (hasTopLevelAwait : Bool) (evaluationPromise : Option PromiseHandle) :
    AsyncModuleState :=
  if hasTopLevelAwait then .asyncPending specifier (evaluationPromise.getD ⟨0⟩)
  else .synchronous specifier

def announceDependencies (registration : Registration) (started : AsyncModuleEvaluator) :
    AsyncModuleEvaluator :=
  let waiting := registration.awaitingDependencies.foldl (fun held dependency =>
    held.emitEvent specifier .dependencySuspended
      ("awaiting=" ++ dependency ++ ":register_time=true")) started
  match registration.rejectedDependency with
  | none => waiting
  | some (dependency, reasonHash, _) =>
    (waiting.emitEvent specifier .dependencyRejected
      ("dependency=" ++ dependency ++ " reason_hash=" ++ hashPrefix reasonHash)).emitEvent
      specifier .evaluationRejected ("dependency=" ++ dependency ++ ":register_time=true")

def registerModule (hasTopLevelAwait : Bool) (dependencies : List String)
    (evaluationPromise : Option PromiseHandle) : AsyncModuleEvaluator :=
  let registration := dependencies.foldl (Registration.addDependency evaluator.states)
    { state := startState specifier hasTopLevelAwait evaluationPromise }
  let declared : AsyncModuleEvaluator :=
    { evaluator with
      declaredDependencies :=
        evaluator.declaredDependencies.insert specifier (.ofKeys dependencies) }
  announceDependencies specifier registration
    ((declared.putState specifier (registration.finish hasTopLevelAwait)).emitEvent
      specifier .evaluationStarted
      ("has_tla=" ++ (if hasTopLevelAwait then "true" else "false") ++ " deps=" ++
        dependencies.length.repr))

/-!
## Suspension and settlement
-/

def suspendAtTopLevelAwait (awaitingPromise : PromiseHandle) :
    AsyncModuleEvaluator × Except AsyncEvalError Unit :=
  match evaluator.states.get? specifier with
  | none => (evaluator, .error (.moduleNotFound specifier))
  | some state =>
    if evaluator.config.maxSuspensionsPerModule ≤ UInt64.ofNat state.suspensions.length then
      (evaluator, .error
        (.suspensionLimitExceeded specifier evaluator.config.maxSuspensionsPerModule))
    else
      ((evaluator.putState specifier
        (state.recordSuspension awaitingPromise .topLevelAwait)).emitEvent specifier
          .topLevelAwaitSuspended
          ("promise=Promise(" ++ awaitingPromise.index.toNat.repr ++ ")"), .ok ())

def suspendOnDependency (specifier dependency : String) (awaitingPromise : PromiseHandle) :
    AsyncModuleEvaluator × Except AsyncEvalError Unit :=
  match evaluator.states.get? specifier with
  | none => (evaluator, .error (.moduleNotFound specifier))
  | some state =>
    let suspended := state.recordSuspension awaitingPromise (.awaitingDependency dependency)
    ((evaluator.putState specifier (suspended.addPendingDependency dependency)).emitEvent
      specifier .dependencySuspended ("awaiting=" ++ dependency), .ok ())

def notifyModule (settledModule : String) (notified : AsyncModuleEvaluator × List String)
    (specifier : String) : AsyncModuleEvaluator × List String :=
  match notified.1.states.get? specifier with
  | none => notified
  | some state =>
    let resolved := state.resolveDependency settledModule
    ((notified.1.putState specifier resolved).emitEvent specifier .dependencySettled
        ("settled=" ++ settledModule),
      if resolved.allDependenciesSettled then notified.2 ++ [specifier] else notified.2)

def notifyDependencySettled (settledModule : String) : AsyncModuleEvaluator × List String :=
  let waitingModules := (evaluator.states.entries.filter fun entry =>
    (entry.2.pendingDependencies.get? settledModule).isSome).map (·.1)
  waitingModules.foldl (notifyModule settledModule) (evaluator, [])

def resumeEvaluation : AsyncModuleEvaluator × Except AsyncEvalError Unit :=
  match evaluator.states.get? specifier with
  | none => (evaluator, .error (.moduleNotFound specifier))
  | some state =>
    ((evaluator.putState specifier state.recordResumption).emitEvent specifier
      .evaluationResumed "dependencies_settled", .ok ())

def settleModule : AsyncModuleEvaluator × Except AsyncEvalError (List String) :=
  match evaluator.states.get? specifier with
  | none => (evaluator, .error (.moduleNotFound specifier))
  | some state =>
    let settled := (evaluator.putState specifier state.settle).emitEvent specifier
      .evaluationSettled ("suspensions=" ++ state.suspensions.length.repr)
    let notified := settled.notifyDependencySettled specifier
    (notified.1, .ok notified.2)

/-!
## Rejection
-/

/-- One binding of a rejected module: it dies unless it is dead already. -/
def markBindingDead (marked : LiveBindingMap × List BindingId) (id : BindingId) :
    LiveBindingMap × List BindingId :=
  match marked.1.getCell id with
  | none => marked
  | some cell =>
    if cell.state = .dead then marked
    else
      match marked.1.markDead id with
      | (map, .ok ()) => (map, marked.2 ++ [id])
      | (map, .error _) => (map, marked.2)

def markBindingsDead (moduleSpecifier : String) (liveBindings : LiveBindingMap) :
    LiveBindingMap × List BindingId :=
  (liveBindings.cells.keys.filter (·.moduleSpecifier = moduleSpecifier)).foldl markBindingDead
    (liveBindings, [])

def declares (specifier dependency : String) : Bool :=
  (evaluator.declaredDependencies.get? specifier).any fun dependencies =>
    (dependencies.get? dependency).isSome

def findLinkedModules (rejectedModule : String) : List LinkedModule :=
  (evaluator.states.keys.filter fun specifier =>
    specifier ≠ rejectedModule && evaluator.declares specifier rejectedModule).map fun specifier =>
      { moduleSpecifier := specifier, importBindings := [], linkageKind := .directImport }

def computeRejectionTransitiveClosure (rejectedModule : String) : OrderedSet String :=
  .ofKeys (Worklist.leadingTo evaluator.states.keys evaluator.declares rejectedModule)

def rejectionTargets (rejectedModule : String) : OrderedSet String :=
  if evaluator.config.transitiveRejectionPropagation then
    evaluator.computeRejectionTransitiveClosure rejectedModule
  else .ofKeys ((evaluator.findLinkedModules rejectedModule).map (·.moduleSpecifier))

def emitDead (evaluator : AsyncModuleEvaluator) (deadBindings : List BindingId) :
    AsyncModuleEvaluator :=
  deadBindings.foldl (fun held id => held.emitEvent specifier .bindingMarkedDead
    ("binding=" ++ id.moduleSpecifier ++ ":" ++ id.exportName)) evaluator

/-- One module of the closure: unless its phase is terminal it is rejected for the same reason. -/
def propagateTo (rejectedModule reasonHash : String) (reasonDescription : Option String)
    (held : AsyncModuleEvaluator × LiveBindingMap) (specifier : String) :
    AsyncModuleEvaluator × LiveBindingMap :=
  let reached :=
    match held.1.states.get? specifier with
    | none => held
    | some state =>
      if state.phase.isTerminal then held
      else
        let marked := markBindingsDead specifier held.2
        (emitDead specifier
          (held.1.putState specifier (state.reject reasonHash reasonDescription)) marked.2,
          marked.1)
  (reached.1.emitEvent specifier .rejectionPropagated ("from=" ++ rejectedModule), reached.2)

/-- The reason enters by its debugging text. -/
def rejectModule (tiers : HashTiers) (evaluator : AsyncModuleEvaluator) (specifier : String)
    (reasonText : String) (liveBindings : LiveBindingMap) :
    (AsyncModuleEvaluator × LiveBindingMap) × Except AsyncEvalError RejectionLinkage :=
  let reasonHash := Authority.toHex (tiers.contentHash (utf8 reasonText))
  let reasonDescription := some reasonText
  match evaluator.states.get? specifier with
  | none => ((evaluator, liveBindings), .error (.moduleNotFound specifier))
  | some state =>
    let rejected := (evaluator.putState specifier
      (state.reject reasonHash reasonDescription)).emitEvent specifier .evaluationRejected
        ("reason_hash=" ++ hashPrefix reasonHash)
    let (liveBindings, deadBindings) := markBindingsDead specifier liveBindings
    let announced := emitDead specifier rejected deadBindings
    let linkedModules := announced.findLinkedModules specifier
    let transitiveClosure := announced.rejectionTargets specifier
    let (propagated, liveBindings) := transitiveClosure.keys.foldl
      (propagateTo specifier reasonHash reasonDescription) (announced, liveBindings)
    let linkage : RejectionLinkage :=
      { rejectedModule := specifier, rejectionReasonHash := reasonHash
        rejectionReasonDescription := reasonDescription, linkedModules, transitiveClosure
        deadBindings }
    (({ propagated with rejectionLinkages := propagated.rejectionLinkages ++ [linkage] },
      liveBindings), .ok linkage)

end AsyncModuleEvaluator

end FrankenEngine.Modules
