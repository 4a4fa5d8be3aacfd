import FrankenEngine.Object.Ordinary

/-!
# The object heap

The arena of `object_model.rs` and its operations. A mutating operation returns
the heap beside its result, also where it fails: what it wrote before the
failure stays written.
-/

set_option autoImplicit false

namespace FrankenEngine.Object

open Library

structure ProxyObject where
  target : Option ObjectHandle
  handler : Option ObjectHandle
  deriving DecidableEq

def ProxyObject.new (target handler : ObjectHandle) : ProxyObject := ⟨some target, some handler⟩

def ProxyObject.revoke (_ : ProxyObject) : ProxyObject := ⟨none, none⟩

inductive ManagedObject where
  | ordinary (object : OrdinaryObject)
  | proxy (object : ProxyObject)
  deriving DecidableEq

structure ObjectHeap where
  objects : List ManagedObject
  nextSymbol : UInt32
  deriving DecidableEq

def maxPrototypeChainDepth : Nat := 1024

namespace ObjectHeap

/-- Well-known symbols occupy the ids up to 13. -/
def new : ObjectHeap := ⟨[], 14⟩

variable (heap : ObjectHeap)

/-- The handle of the next object. Past the last 32-bit index it no longer moves. -/
def nextHandle : ObjectHandle :=
  ⟨UInt32.ofNat (min heap.objects.length (2 ^ 32 - 1))⟩

def push (object : ManagedObject) : ObjectHeap :=
  { heap with objects := heap.objects ++ [object] }

variable (handle : ObjectHandle)

def get : Except ObjectError ManagedObject :=
  match heap.objects[handle.index.toNat]? with
  | some object => .ok object
  | none => .error (.objectNotFound handle)

/-- Write through the reference that `get_mut` returned for the handle. -/
def put (object : ManagedObject) : ObjectHeap :=
  { heap with objects := heap.objects.set handle.index.toNat object }

/-!
## Allocation
-/

variable (proto : Option ObjectHandle)

def alloc : ObjectHandle × ObjectHeap :=
  (heap.nextHandle, heap.push (.ordinary (.withPrototype proto)))

def allocPlain : ObjectHandle × ObjectHeap := heap.alloc none

def allocProxy (target handler : ObjectHandle) : ObjectHandle × ObjectHeap :=
  (heap.nextHandle, heap.push (.proxy (.new target handler)))

def allocCallable : ObjectHandle × ObjectHeap :=
  (heap.nextHandle, heap.push (.ordinary { OrdinaryObject.withPrototype proto with callable := true }))

def allocConstructor : ObjectHandle × ObjectHeap :=
  (heap.nextHandle, heap.push
    (.ordinary { OrdinaryObject.withPrototype proto with callable := true, constructable := true }))

def create : ObjectHandle × ObjectHeap :=
  heap.alloc proto

def allocSymbol : SymbolId × ObjectHeap :=
  (⟨heap.nextSymbol⟩,
    { heap with nextSymbol := UInt32.ofNat (min (heap.nextSymbol.toNat + 1) (2 ^ 32 - 1)) })

/-!
## Operations on one object
-/

def readOrdinary {α : Type} (heap : ObjectHeap) (handle : ObjectHandle) (onProxy : String)
    (read : OrdinaryObject → α) : Except ObjectError α :=
  match heap.get handle with
  | .error failure => .error failure
  | .ok (.ordinary object) => .ok (read object)
  | .ok (.proxy _) => .error (.typeError onProxy)

def getPrototypeOf (heap : ObjectHeap) (handle : ObjectHandle) :
    Except ObjectError (Option ObjectHandle) :=
  heap.readOrdinary handle "proxy getPrototypeOf trap must be handled by interpreter" (·.prototype)

def isExtensible (heap : ObjectHeap) (handle : ObjectHandle) : Except ObjectError Bool :=
  heap.readOrdinary handle "proxy isExtensible trap must be handled by interpreter" (·.extensible)

/-- Change the ordinary object behind a handle. A proxy is left to the interpreter. -/
def modifyOrdinary {α : Type} (heap : ObjectHeap) (handle : ObjectHandle) (onProxy : String)
    (change : OrdinaryObject → α × OrdinaryObject) : Except ObjectError α × ObjectHeap :=
  match heap.get handle with
  | .error failure => (.error failure, heap)
  | .ok (.ordinary object) => (.ok (change object).1, heap.put handle (.ordinary (change object).2))
  | .ok (.proxy _) => (.error (.typeError onProxy), heap)

def deleteProperty (heap : ObjectHeap) (handle : ObjectHandle) (key : PropertyKey) :
    Except ObjectError Bool × ObjectHeap :=
  heap.modifyOrdinary handle "proxy deleteProperty trap must be handled by interpreter"
    (·.delete key)

def preventExtensions (heap : ObjectHeap) (handle : ObjectHandle) :
    Except ObjectError Bool × ObjectHeap :=
  heap.modifyOrdinary handle "proxy preventExtensions trap must be handled by interpreter"
    fun object => (true, object.preventExtensions)

def defineProperty (heap : ObjectHeap) (handle : ObjectHandle) (key : PropertyKey)
    (desc : PropertyDescriptor) : Except ObjectError Bool × ObjectHeap :=
  heap.modifyOrdinary handle "proxy defineProperty trap must be handled by interpreter"
    (·.defineOwnProperty key desc)

def freeze (heap : ObjectHeap) (handle : ObjectHandle) : Except ObjectError Unit × ObjectHeap :=
  heap.modifyOrdinary handle "cannot freeze proxy directly" fun object => ((), object.freeze)

def sealObject (heap : ObjectHeap) (handle : ObjectHandle) : Except ObjectError Unit × ObjectHeap :=
  heap.modifyOrdinary handle "cannot seal proxy directly" fun object => ((), object.sealObject)

/-- The definitions in turn, up to the first that is refused or fails. -/
def defineProperties (heap : ObjectHeap) (handle : ObjectHandle) :
    List (PropertyKey × PropertyDescriptor) → Except ObjectError Bool × ObjectHeap
  | [] => (.ok true, heap)
  | (key, desc) :: rest =>
    match heap.defineProperty handle key desc with
    | (.error failure, after) => (.error failure, after)
    | (.ok false, after) => (.ok false, after)
    | (.ok true, after) => after.defineProperties handle rest

/-- The definitions in turn, up to the first that fails. A refused one is passed over. -/
def defineEach (heap : ObjectHeap) (handle : ObjectHandle) :
    List (PropertyKey × PropertyDescriptor) → Except ObjectError ObjectHandle × ObjectHeap
  | [] => (.ok handle, heap)
  | (key, desc) :: rest =>
    match heap.defineProperty handle key desc with
    | (.error failure, after) => (.error failure, after)
    | (.ok _, after) => after.defineEach handle rest

def createWithProperties (properties : List (PropertyKey × PropertyDescriptor)) :
    Except ObjectError ObjectHandle × ObjectHeap :=
  let (handle, allocated) := heap.alloc proto
  allocated.defineEach handle properties

def revokeProxy : Except ObjectError Unit × ObjectHeap :=
  match heap.get handle with
  | .error failure => (.error failure, heap)
  | .ok (.proxy object) => (.ok (), heap.put handle (.proxy object.revoke))
  | .ok (.ordinary _) => (.error (.typeError "cannot revoke non-proxy object"), heap)

/-!
## Prototype chains
-/

inductive Visit (α : Type) where
  | stop (result : α)
  | next (prototype : Option ObjectHandle)

/-- The loop that the walks along a prototype chain share, with the number of
objects it may still look at. -/
def walkChain {α : Type} (heap : ObjectHeap)
    (visit : ObjectHandle → ManagedObject → Except ObjectError (Visit α)) (atEnd : α) :
    Nat → List ObjectHandle → Option ObjectHandle → Except ObjectError α
  | _, _, none => .ok atEnd
  | 0, _, some _ => .error (.prototypeChainTooDeep maxPrototypeChainDepth maxPrototypeChainDepth)
  | fuel + 1, visited, some handle => do
      if handle ∈ visited then .error .prototypeCycleDetected
      else
        let object ← heap.get handle
        match ← visit handle object with
        | .stop result => .ok result
        | .next prototype => walkChain heap visit atEnd fuel (handle :: visited) prototype

def getVisit (key : PropertyKey) : ObjectHandle → ManagedObject → Except ObjectError (Visit JsValue)
  | _, .ordinary object =>
    match object.getOwnProperty key with
    | some (.data value _ _ _) => .ok (.stop value)
    | some (.accessor (some getter) _ _ _) => .ok (.stop (.object getter))
    | some (.accessor none _ _ _) => .ok (.stop .undefined)
    | none => .ok (.next object.prototype)
  | _, .proxy _ => .error (.typeError "proxy get trap must be handled by interpreter")

def getProperty (key : PropertyKey) : Except ObjectError JsValue :=
  heap.walkChain (getVisit key) .undefined maxPrototypeChainDepth [] (some handle)

def setVisit (receiver : ObjectHandle) (key : PropertyKey) :
    ObjectHandle → ManagedObject → Except ObjectError (Visit Bool)
  | handle, .ordinary object =>
    match object.getOwnProperty key with
    | some desc =>
      if handle = receiver ∧ desc.isAccessor then .ok (.stop false)
      else if handle ≠ receiver ∧ desc.isAccessor then .ok (.stop true)
      else if !desc.isWritable then .ok (.stop false)
      else .ok (.stop true)
    | none => .ok (.next object.prototype)
  | _, .proxy _ => .error (.typeError "proxy set trap must be handled by interpreter")

def setProperty (key : PropertyKey) (value : JsValue) : Except ObjectError Bool × ObjectHeap :=
  match heap.walkChain (setVisit handle key) true maxPrototypeChainDepth [] (some handle) with
  | .error failure => (.error failure, heap)
  | .ok false => (.ok false, heap)
  | .ok true => heap.modifyOrdinary handle "Proxy set not supported yet" (·.writeOwn key value)

/-- The walk that looks for the receiver above its new prototype. A proxy ends it. -/
def cycleVisit : ObjectHandle → ManagedObject → Except ObjectError (Visit Unit)
  | _, .ordinary object => .ok (.next object.prototype)
  | _, .proxy _ => .ok (.stop ())

def setPrototypeOf (heap : ObjectHeap) (handle : ObjectHandle) (proto : Option ObjectHandle) :
    Except ObjectError Bool × ObjectHeap :=
  match heap.walkChain cycleVisit () maxPrototypeChainDepth [handle] proto with
  | .error failure => (.error failure, heap)
  | .ok () =>
    heap.modifyOrdinary handle "proxy setPrototypeOf trap must be handled by interpreter"
      (·.writePrototype proto)

def enumerate (object : OrdinaryObject) (state : List String × List PropertyKey)
    (key : PropertyKey) : List String × List PropertyKey :=
  if state.2.contains key then state
  else
    let names :=
      match key with
      | .string name =>
        if (object.properties.get? key).any (·.isEnumerable) then state.1 ++ [name] else state.1
      | .symbol _ => state.1
    (names, key :: state.2)

def forInWalk (heap : ObjectHeap) : Nat → List ObjectHandle → List String × List PropertyKey →
    Option ObjectHandle → Except ObjectError (List String)
  | _, _, state, none => .ok state.1
  | 0, _, _, some _ => .error (.prototypeChainTooDeep maxPrototypeChainDepth maxPrototypeChainDepth)
  | fuel + 1, visited, state, some handle =>
    if handle ∈ visited then .error .prototypeCycleDetected
    else
      match heap.get handle with
      | .error failure => .error failure
      | .ok (.ordinary object) =>
        heap.forInWalk fuel (handle :: visited) (object.ownPropertyKeys.foldl (enumerate object) state)
          object.prototype
      | .ok (.proxy _) => .error (.typeError "proxy ownKeys trap must be handled by interpreter")

def forInKeys : Except ObjectError (List String) :=
  heap.forInWalk maxPrototypeChainDepth [] ([], []) (some handle)

/-!
## Copying properties
-/

/-- The assignments in turn, up to the first that fails. A refused one is passed over. -/
def setEach (heap : ObjectHeap) (target : ObjectHandle) :
    List (PropertyKey × JsValue) → Except ObjectError Unit × ObjectHeap
  | [] => (.ok (), heap)
  | (key, value) :: rest =>
    match heap.setProperty target key value with
    | (.error failure, after) => (.error failure, after)
    | (.ok _, after) => after.setEach target rest

def sourceValues (onProxy : String) (source : ObjectHandle) :
    Except ObjectError (List (PropertyKey × JsValue)) := do
  match ← heap.get source with
  | .ordinary object => .ok object.enumerableValues
  | .proxy _ => .error (.typeError onProxy)

def assign (heap : ObjectHeap) (target : ObjectHandle) (sources : List ObjectHandle) :
    Except ObjectError Unit × ObjectHeap :=
  match sources.mapM
    (heap.sourceValues "Object.assign source cannot be proxy (handled by interpreter)") with
  | .error failure => (.error failure, heap)
  | .ok allProps => heap.setEach target allProps.flatten

def spreadInto (target source : ObjectHandle) : Except ObjectError Unit × ObjectHeap :=
  match heap.sourceValues "spread source cannot be proxy (handled by interpreter)" source with
  | .error failure => (.error failure, heap)
  | .ok props => heap.setEach target props

/-- The new object takes every entry that can be assigned; failures are ignored. -/
def fromEntries (entries : List (String × JsValue)) : ObjectHandle × ObjectHeap :=
  let (handle, allocated) := heap.allocPlain
  (handle, entries.foldl (fun heap entry =>
    (heap.setProperty handle (.string entry.1) entry.2).2) allocated)

end ObjectHeap

namespace Reflect

def set (heap : ObjectHeap) (target : ObjectHandle) (key : PropertyKey) (value : JsValue) :
    Except ObjectError Bool × ObjectHeap :=
  heap.setProperty target key value

def deleteProperty (heap : ObjectHeap) (target : ObjectHandle) (key : PropertyKey) :
    Except ObjectError Bool × ObjectHeap :=
  heap.deleteProperty target key

def setPrototypeOf (heap : ObjectHeap) (target : ObjectHandle) (proto : Option ObjectHandle) :
    Except ObjectError Bool × ObjectHeap :=
  heap.setPrototypeOf target proto

def preventExtensions (heap : ObjectHeap) (target : ObjectHandle) :
    Except ObjectError Bool × ObjectHeap :=
  heap.preventExtensions target

def defineProperty (heap : ObjectHeap) (target : ObjectHandle) (key : PropertyKey)
    (desc : PropertyDescriptor) : Except ObjectError Bool × ObjectHeap :=
  heap.defineProperty target key desc

end Reflect

/-!
## Runs
-/

inductive HeapOp where
  | alloc (proto : Option ObjectHandle)
  | allocPlain
  | allocProxy (target handler : ObjectHandle)
  | allocCallable (proto : Option ObjectHandle)
  | allocConstructor (proto : Option ObjectHandle)
  | allocSymbol
  | create (proto : Option ObjectHandle)
  | createWithProperties (proto : Option ObjectHandle)
      (properties : List (PropertyKey × PropertyDescriptor))
  | fromEntries (entries : List (String × JsValue))
  | revokeProxy (handle : ObjectHandle)
  | setProperty (handle : ObjectHandle) (key : PropertyKey) (value : JsValue)
  | deleteProperty (handle : ObjectHandle) (key : PropertyKey)
  | setPrototypeOf (handle : ObjectHandle) (proto : Option ObjectHandle)
  | preventExtensions (handle : ObjectHandle)
  | defineProperty (handle : ObjectHandle) (key : PropertyKey) (desc : PropertyDescriptor)
  | defineProperties (handle : ObjectHandle) (props : List (PropertyKey × PropertyDescriptor))
  | freeze (handle : ObjectHandle)
  | sealObject (handle : ObjectHandle)
  | assign (target : ObjectHandle) (sources : List ObjectHandle)
  | spreadInto (target source : ObjectHandle)
  | reflectSet (target : ObjectHandle) (key : PropertyKey) (value : JsValue)
  | reflectDeleteProperty (target : ObjectHandle) (key : PropertyKey)
  | reflectSetPrototypeOf (target : ObjectHandle) (proto : Option ObjectHandle)
  | reflectPreventExtensions (target : ObjectHandle)
  | reflectDefineProperty (target : ObjectHandle) (key : PropertyKey) (desc : PropertyDescriptor)

namespace ObjectHeap

def step (heap : ObjectHeap) : HeapOp → ObjectHeap
  | .alloc proto => (heap.alloc proto).2
  | .allocPlain => heap.allocPlain.2
  | .allocProxy target handler => (heap.allocProxy target handler).2
  | .allocCallable proto => (heap.allocCallable proto).2
  | .allocConstructor proto => (heap.allocConstructor proto).2
  | .allocSymbol => heap.allocSymbol.2
  | .create proto => (heap.create proto).2
  | .createWithProperties proto properties => (heap.createWithProperties proto properties).2
  | .fromEntries entries => (heap.fromEntries entries).2
  | .revokeProxy handle => (heap.revokeProxy handle).2
  | .setProperty handle key value => (heap.setProperty handle key value).2
  | .deleteProperty handle key => (heap.deleteProperty handle key).2
  | .setPrototypeOf handle proto => (heap.setPrototypeOf handle proto).2
  | .preventExtensions handle => (heap.preventExtensions handle).2
  | .defineProperty handle key desc => (heap.defineProperty handle key desc).2
  | .defineProperties handle props => (heap.defineProperties handle props).2
  | .freeze handle => (heap.freeze handle).2
  | .sealObject handle => (heap.sealObject handle).2
  | .assign target sources => (heap.assign target sources).2
  | .spreadInto target source => (heap.spreadInto target source).2
  | .reflectSet target key value => (Reflect.set heap target key value).2
  | .reflectDeleteProperty target key => (Reflect.deleteProperty heap target key).2
  | .reflectSetPrototypeOf target proto => (Reflect.setPrototypeOf heap target proto).2
  | .reflectPreventExtensions target => (Reflect.preventExtensions heap target).2
  | .reflectDefineProperty target key desc => (Reflect.defineProperty heap target key desc).2

def run (heap : ObjectHeap) (ops : List HeapOp) : ObjectHeap := ops.foldl step heap

end ObjectHeap

end FrankenEngine.Object
