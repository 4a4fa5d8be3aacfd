import FrankenEngine.Library.OrderedMap
import FrankenEngine.Library.Search
import FrankenEngine.Library.Words
import Mathlib.Data.String.Basic

/-!
# The collector

Heaps of `gc.rs`, one for each extension, that are marked and swept on their
own, and the collector that charges what they hold to a domain of
`alloc_domain.rs`. Bytes are reserved from the budget of a domain and given
back to it.
-/

set_option autoImplicit false

namespace FrankenEngine.Memory

open Library

inductive AllocationDomain where
  | extensionHeap
  | runtimeHeap
  | irArena
  | evidenceArena
  | scratchBuffer
  deriving DecidableEq

instance : LinearOrder AllocationDomain :=
  LinearOrder.lift' AllocationDomain.ctorIdx fun left right same => by
    cases left <;> cases right <;> first | rfl | cases same

inductive LifetimeClass where
  | requestScoped
  | sessionScoped
  | global
  | arena
  deriving DecidableEq

inductive AllocDomainError where
  | budgetExceeded (requested remaining : UInt64) (domain : Option AllocationDomain)
  | budgetOverflow
  | domainNotFound (domain : AllocationDomain)
  | duplicateDomain (domain : AllocationDomain)
  deriving DecidableEq

structure DomainBudget where
  maxBytes : UInt64
  usedBytes : UInt64
  deriving DecidableEq

namespace DomainBudget

def new (maxBytes : UInt64) : DomainBudget := { maxBytes, usedBytes := 0 }

def remaining (budget : DomainBudget) : UInt64 := saturatingSub budget.maxBytes budget.usedBytes

def tryReserve (budget : DomainBudget) (bytes : UInt64) : Except AllocDomainError DomainBudget :=
  if budget.usedBytes.toNat + bytes.toNat < 2 ^ 64 then
    let newUsed := budget.usedBytes + bytes
    if budget.maxBytes < newUsed then .error (.budgetExceeded bytes budget.remaining none)
    else .ok { budget with usedBytes := newUsed }
  else .error .budgetOverflow

def release (budget : DomainBudget) (bytes : UInt64) : DomainBudget :=
  { budget with usedBytes := saturatingSub budget.usedBytes bytes }

end DomainBudget

structure DomainConfig where
  domain : AllocationDomain
  lifetime : LifetimeClass
  budget : DomainBudget
  deriving DecidableEq

structure DomainRegistry where
  domains : OrderedMap AllocationDomain DomainConfig
  allocationSequence : UInt64

/-- An exceeded budget is reported with its domain. -/
def AllocDomainError.inDomain (domain : AllocationDomain) : AllocDomainError → AllocDomainError
  | .budgetExceeded requested remaining _ => .budgetExceeded requested remaining (some domain)
  | other => other

namespace DomainRegistry

def new : DomainRegistry := { domains := .empty, allocationSequence := 0 }

def register (registry : DomainRegistry) (domain : AllocationDomain) (lifetime : LifetimeClass)
    (maxBytes : UInt64) : DomainRegistry × Except AllocDomainError Unit :=
  if (registry.domains.get? domain).isSome then (registry, .error (.duplicateDomain domain))
  else
    ({ registry with
        domains := registry.domains.insert domain { domain, lifetime, budget := .new maxBytes } },
      .ok ())

def allocate (registry : DomainRegistry) (domain : AllocationDomain) (bytes : UInt64) :
    DomainRegistry × Except AllocDomainError UInt64 :=
  match registry.domains.get? domain with
  | none => (registry, .error (.domainNotFound domain))
  | some config =>
    match config.budget.tryReserve bytes with
    | .error error => (registry, .error (error.inDomain domain))
    | .ok budget =>
      let allocationSequence := saturatingAdd registry.allocationSequence 1
      ({ domains := registry.domains.insert domain { config with budget }
         allocationSequence },
        .ok allocationSequence)

def release (registry : DomainRegistry) (domain : AllocationDomain) (bytes : UInt64) :
    DomainRegistry × Except AllocDomainError Unit :=
  match registry.domains.get? domain with
  | none => (registry, .error (.domainNotFound domain))
  | some config =>
    ({ registry with
        domains := registry.domains.insert domain
          { config with budget := config.budget.release bytes } },
      .ok ())

end DomainRegistry

structure GcObjectId where
  raw : UInt64
  deriving DecidableEq

instance : LinearOrder GcObjectId :=
  LinearOrder.lift' GcObjectId.raw fun left right same => by
    cases left
    cases right
    cases same
    rfl

structure GcObject where
  id : GcObjectId
  sizeBytes : UInt64
  references : OrderedSet GcObjectId
  rooted : Bool

inductive GcError where
  | heapNotFound (extensionId : String)
  | duplicateHeap (extensionId : String)
  | objectNotFound (extensionId : String) (objectId : GcObjectId)
  | domainError (error : AllocDomainError)
  deriving DecidableEq

inductive GcPhase where
  | mark
  | sweep
  | complete
  deriving DecidableEq

structure GcEvent where
  sequence : UInt64
  extensionId : String
  phase : GcPhase
  markedCount : Nat
  sweptCount : Nat
  bytesReclaimed : UInt64
  pauseNs : UInt64
  deriving DecidableEq

structure CollectionStats where
  markedCount : Nat
  sweptCount : Nat
  bytesReclaimed : UInt64
  deriving DecidableEq

structure ExtensionHeap where
  extensionId : String
  objects : OrderedMap GcObjectId GcObject
  nextId : UInt64
  totalBytes : UInt64
  collectionCount : UInt64
  totalReclaimed : UInt64

namespace ExtensionHeap

def new (extensionId : String) : ExtensionHeap where
  extensionId
  objects := .empty
  nextId := 0
  totalBytes := 0
  collectionCount := 0
  totalReclaimed := 0

variable (heap : ExtensionHeap)

/-- A new object is rooted. The last identifier is given out again and again. -/
def allocate (sizeBytes : UInt64) : ExtensionHeap × GcObjectId :=
  let id : GcObjectId := ⟨heap.nextId⟩
  ({ heap with
      nextId := saturatingAdd heap.nextId 1
      objects := heap.objects.insert id { id, sizeBytes, references := .empty, rooted := true }
      totalBytes := saturatingAdd heap.totalBytes sizeBytes },
    id)

def update (id : GcObjectId) (change : GcObject → GcObject) : ExtensionHeap × Except GcError Unit :=
  match heap.objects.get? id with
  | none => (heap, .error (.objectNotFound heap.extensionId id))
  | some object => ({ heap with objects := heap.objects.insert id (change object) }, .ok ())

def addReference (source target : GcObjectId) : ExtensionHeap × Except GcError Unit :=
  heap.update source fun object => { object with references := object.references.insert target () }

def unroot (id : GcObjectId) : ExtensionHeap × Except GcError Unit :=
  heap.update id fun object => { object with rooted := false }

def root (id : GcObjectId) : ExtensionHeap × Except GcError Unit :=
  heap.update id fun object => { object with rooted := true }

/-- The mark phase, with the top of the stack at the head of the list. Every turn takes an
identifier from the stack or marks an object. -/
def mark (objects : OrderedMap GcObjectId GcObject) (marked : OrderedSet GcObjectId)
    (workStack : List GcObjectId) : OrderedSet GcObjectId :=
  match workStack with
  | [] => marked
  | id :: rest =>
    if known : id ∈ marked.keys then mark objects marked rest
    else
      match found : objects.get? id with
      | none => mark objects marked rest
      | some object =>
        let widened := marked.insert id ()
        let pushed := object.references.keys.filter fun target => target ∉ widened.keys
        mark objects widened (pushed.reverse ++ rest)
termination_by ((Search.outside objects.keys marked.keys).length, workStack.length)
decreasing_by
  · exact Prod.Lex.right _ (Nat.lt_succ_self _)
  · exact Prod.Lex.right _ (Nat.lt_succ_self _)
  · have held : id ∈ objects.keys := OrderedMap.mem_keys_iff.mpr (by rw [found]; rfl)
    have wider : id :: marked.keys ⊆ (marked.insert id ()).keys :=
      fun _ member => OrderedMap.mem_keys_insert.mpr (List.mem_cons.mp member)
    exact Prod.Lex.left _ _ ((Search.length_outside_le wider).trans_lt
      (Search.length_outside_cons held known))

def roots (objects : OrderedMap GcObjectId GcObject) : List GcObjectId :=
  ((objects.entries.filter fun entry => entry.2.rooted).map (·.1)).reverse

def markFromRoots : OrderedSet GcObjectId :=
  mark heap.objects .empty (roots heap.objects)

def collectMarkSweep : ExtensionHeap × CollectionStats :=
  let marked := heap.markFromRoots
  let objects := heap.objects.retain fun id _ => id ∈ marked.keys
  let swept := heap.objects.retain fun id _ => id ∉ marked.keys
  -- The counter is a plain sum, which wraps around.
  let bytesReclaimed := swept.values.foldl (fun sum object => sum + object.sizeBytes) 0
  ({ heap with
      objects
      totalBytes := saturatingSub heap.totalBytes bytesReclaimed
      totalReclaimed := saturatingAdd heap.totalReclaimed bytesReclaimed
      collectionCount := saturatingAdd heap.collectionCount 1 },
    { markedCount := marked.keys.length
      sweptCount := heap.objects.keys.length - objects.keys.length
      bytesReclaimed })

end ExtensionHeap

structure GcConfig where
  deterministic : Bool
  deriving DecidableEq

structure GcCollector where
  heaps : OrderedMap String ExtensionHeap
  config : GcConfig
  eventSequence : UInt64
  events : List GcEvent

namespace GcCollector

def new (config : GcConfig) : GcCollector where
  heaps := .empty
  config
  eventSequence := 0
  events := []

variable (collector : GcCollector)

variable (extensionId : String)

def putHeap (heap : ExtensionHeap) : GcCollector :=
  { collector with heaps := collector.heaps.insert extensionId heap }

def registerHeap : GcCollector × Except GcError Unit :=
  if (collector.heaps.get? extensionId).isSome then
    (collector, .error (.duplicateHeap extensionId))
  else (collector.putHeap extensionId (.new extensionId), .ok ())

def allocate (collector : GcCollector) (extensionId : String) (sizeBytes : UInt64) :
    GcCollector × Except GcError GcObjectId :=
  match collector.heaps.get? extensionId with
  | none => (collector, .error (.heapNotFound extensionId))
  | some heap =>
    let (heap, id) := heap.allocate sizeBytes
    (collector.putHeap extensionId heap, .ok id)

/-- The domain is charged before the object is made. -/
def allocateTracked (sizeBytes : UInt64) (registry : DomainRegistry) :
    (GcCollector × DomainRegistry) × Except GcError (GcObjectId × UInt64) :=
  if (collector.heaps.get? extensionId).isNone then
    ((collector, registry), .error (.heapNotFound extensionId))
  else
    match registry.allocate .extensionHeap sizeBytes with
    | (registry, .error error) => ((collector, registry), .error (.domainError error))
    | (registry, .ok seq) =>
      match collector.allocate extensionId sizeBytes with
      | (collector, .error error) => ((collector, registry), .error error)
      | (collector, .ok id) => ((collector, registry), .ok (id, seq))

def onHeap (change : ExtensionHeap → ExtensionHeap × Except GcError Unit) :
    GcCollector × Except GcError Unit :=
  match collector.heaps.get? extensionId with
  | none => (collector, .error (.heapNotFound extensionId))
  | some heap => (collector.putHeap extensionId (change heap).1, (change heap).2)

def addReference (collector : GcCollector) (extensionId : String) (source target : GcObjectId) :
    GcCollector × Except GcError Unit :=
  collector.onHeap extensionId fun heap => heap.addReference source target

def unroot (collector : GcCollector) (extensionId : String) (id : GcObjectId) :
    GcCollector × Except GcError Unit :=
  collector.onHeap extensionId fun heap => heap.unroot id

/-- `get_heap_mut(extension_id).map(|heap| heap.root(id))`. -/
def rootInHeap (id : GcObjectId) : GcCollector × Option (Except GcError Unit) :=
  match collector.heaps.get? extensionId with
  | none => (collector, none)
  | some heap => (collector.putHeap extensionId (heap.root id).1, some (heap.root id).2)

def collect : GcCollector × Except GcError GcEvent :=
  match collector.heaps.get? extensionId with
  | none => (collector, .error (.heapNotFound extensionId))
  | some heap =>
    let (heap, stats) := heap.collectMarkSweep
    let eventSequence := saturatingAdd collector.eventSequence 1
    let event : GcEvent :=
      { sequence := eventSequence
        extensionId
        phase := .complete
        markedCount := stats.markedCount
        sweptCount := stats.sweptCount
        bytesReclaimed := stats.bytesReclaimed
        pauseNs := if collector.config.deterministic then 1000 else 0 }
    ({ collector.putHeap extensionId heap with
        eventSequence
        events := collector.events ++ [event] },
      .ok event)

/-- The domain is looked up before anything is swept. -/
def collectTracked (registry : DomainRegistry) :
    (GcCollector × DomainRegistry) × Except GcError GcEvent :=
  if (collector.heaps.get? extensionId).isNone then
    ((collector, registry), .error (.heapNotFound extensionId))
  else if (registry.domains.get? .extensionHeap).isNone then
    ((collector, registry), .error (.domainError (.domainNotFound .extensionHeap)))
  else
    match collector.collect extensionId with
    | (collector, .error error) => ((collector, registry), .error error)
    | (collector, .ok event) =>
      if 0 < event.bytesReclaimed then
        match registry.release .extensionHeap event.bytesReclaimed with
        | (registry, .error error) => ((collector, registry), .error (.domainError error))
        | (registry, .ok ()) => ((collector, registry), .ok event)
      else ((collector, registry), .ok event)

inductive Call where
  | registerDomain (domain : AllocationDomain) (lifetime : LifetimeClass) (maxBytes : UInt64)
  | registerHeap (extensionId : String)
  | allocateTracked (extensionId : String) (sizeBytes : UInt64)
  | addReference (extensionId : String) (source target : GcObjectId)
  | unroot (extensionId : String) (id : GcObjectId)
  | root (extensionId : String) (id : GcObjectId)
  | collectTracked (extensionId : String)

inductive Reply where
  | done
  | noHeap
  | allocated (id : GcObjectId) (seq : UInt64)
  | collected (event : GcEvent)
  deriving DecidableEq

def step (state : GcCollector × DomainRegistry) :
    Call → (GcCollector × DomainRegistry) × Except GcError Reply
  | .registerDomain domain lifetime maxBytes =>
    let (registry, outcome) := state.2.register domain lifetime maxBytes
    ((state.1, registry), (outcome.mapError .domainError).map fun _ => .done)
  | .registerHeap extensionId =>
    let (collector, outcome) := state.1.registerHeap extensionId
    ((collector, state.2), outcome.map fun _ => .done)
  | .allocateTracked extensionId sizeBytes =>
    let (after, outcome) := state.1.allocateTracked extensionId sizeBytes state.2
    (after, outcome.map fun reply => .allocated reply.1 reply.2)
  | .addReference extensionId source target =>
    let (collector, outcome) := state.1.addReference extensionId source target
    ((collector, state.2), outcome.map fun _ => .done)
  | .unroot extensionId id =>
    let (collector, outcome) := state.1.unroot extensionId id
    ((collector, state.2), outcome.map fun _ => .done)
  | .root extensionId id =>
    let (collector, outcome) := state.1.rootInHeap extensionId id
    ((collector, state.2), (outcome.map fun result => result.map fun _ => .done).getD (.ok .noHeap))
  | .collectTracked extensionId =>
    let (after, outcome) := state.1.collectTracked extensionId state.2
    (after, outcome.map .collected)

end GcCollector

end FrankenEngine.Memory
