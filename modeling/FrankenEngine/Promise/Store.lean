import FrankenEngine.Label
import FrankenEngine.Object.Ordinary

/-!
# Promises and microtasks

The promise store and the microtask queue of `promise_model.rs`. A store
operation returns the microtasks that it enqueues, in their order; the runtime
puts them on its queue.
-/

set_option autoImplicit false

namespace FrankenEngine.Promise

open Object (JsValue)

/-!
## Records
-/

structure ClosureHandle where
  index : UInt32
  deriving DecidableEq, Repr

structure PromiseHandle where
  index : UInt32
  deriving DecidableEq, Repr

inductive PromiseState where
  | pending
  | fulfilled (value : JsValue)
  | rejected (reason : JsValue)
  deriving DecidableEq

def PromiseState.isSettled : PromiseState → Bool
  | .pending => false
  | .fulfilled _ => true
  | .rejected _ => true

inductive ReactionKind where
  | fulfill
  | reject
  deriving DecidableEq, Repr

structure PromiseReaction where
  kind : ReactionKind
  handler : Option ClosureHandle
  resultPromise : PromiseHandle
  label : Label
  deriving DecidableEq

structure PromiseRecord where
  handle : PromiseHandle
  state : PromiseState
  reactions : List PromiseReaction
  label : Label
  creationSeq : Nat
  rejectionHandled : Bool
  deriving DecidableEq

def PromiseRecord.new (handle : PromiseHandle) (creationSeq : Nat) : PromiseRecord where
  handle := handle
  state := .pending
  reactions := []
  label := .publicData
  creationSeq := creationSeq
  rejectionHandled := false

inductive Microtask where
  | promiseReaction (handler : Option ClosureHandle) (argument : JsValue)
      (resultPromise : PromiseHandle) (label : Label)
  | resolveThenable (promise : PromiseHandle) (thenHandler : ClosureHandle) (thenable : JsValue)
      (label : Label)
  deriving DecidableEq

def Microtask.label : Microtask → Label
  | .promiseReaction _ _ _ label => label
  | .resolveThenable _ _ _ label => label

inductive WitnessEvent where
  | promiseCreated (handle : PromiseHandle) (seq : Nat)
  | promiseFulfilled (handle : PromiseHandle) (value : JsValue) (label : Label)
  | promiseRejected (handle : PromiseHandle) (reason : JsValue) (label : Label)
  | microtaskEnqueued (index : Nat)
  | microtaskDequeued (index : Nat)
  deriving DecidableEq

inductive PromiseError where
  | alreadySettled (handle : PromiseHandle)
  | invalidHandle (handle : PromiseHandle)
  deriving DecidableEq

/-!
## The microtask queue
-/

structure MicrotaskQueue where
  tasks : List Microtask
  cursor : Nat
  enqueueCount : Nat
  witness : List WitnessEvent
  deriving DecidableEq

namespace MicrotaskQueue

def new : MicrotaskQueue := ⟨[], 0, 0, []⟩

def enqueue (queue : MicrotaskQueue) (task : Microtask) : MicrotaskQueue where
  tasks := queue.tasks ++ [task]
  cursor := queue.cursor
  enqueueCount := queue.enqueueCount + 1
  witness := queue.witness ++ [.microtaskEnqueued queue.enqueueCount]

def dequeue (queue : MicrotaskQueue) : Option Microtask × MicrotaskQueue :=
  match queue.tasks[queue.cursor]? with
  | some task =>
    (some task,
      { queue with
        cursor := queue.cursor + 1
        witness := queue.witness ++ [.microtaskDequeued queue.cursor] })
  | none => (none, queue)

def compact (queue : MicrotaskQueue) : MicrotaskQueue :=
  if 0 < queue.cursor then { queue with tasks := queue.tasks.drop queue.cursor, cursor := 0 }
  else queue

end MicrotaskQueue

/-!
## The promise store
-/

structure PromiseStore where
  promises : List PromiseRecord
  nextSeq : Nat
  witness : List WitnessEvent
  deriving DecidableEq

def ReactionKind.outcome (value : JsValue) : ReactionKind → PromiseState
  | .fulfill => .fulfilled value
  | .reject => .rejected value

def ReactionKind.event (handle : PromiseHandle) (value : JsValue) (label : Label) :
    ReactionKind → WitnessEvent
  | .fulfill => .promiseFulfilled handle value label
  | .reject => .promiseRejected handle value label

/-- The job of a reaction when its promise settles. A reaction of the other kind
passes the value through. -/
def PromiseReaction.job (reaction : PromiseReaction) (kind : ReactionKind) (value : JsValue)
    (label : Label) : Microtask :=
  .promiseReaction (if reaction.kind = kind then reaction.handler else none) value
    reaction.resultPromise label

/-- The record once settled. Only a rejection looks for a handler of it. -/
def PromiseRecord.settle (record : PromiseRecord) (kind : ReactionKind) (value : JsValue)
    (label : Label) : PromiseRecord :=
  { record with
    state := kind.outcome value
    reactions := []
    label := label
    rejectionHandled :=
      match kind with
      | .fulfill => record.rejectionHandled
      | .reject => record.reactions.any fun reaction =>
        reaction.kind = .reject ∧ reaction.handler.isSome }

namespace PromiseStore

def new : PromiseStore := ⟨[], 0, []⟩

variable (store : PromiseStore)

def nextHandle : PromiseHandle := ⟨UInt32.ofNat store.promises.length⟩

def create : PromiseHandle × PromiseStore :=
  (store.nextHandle,
    { promises := store.promises ++ [.new store.nextHandle store.nextSeq]
      nextSeq := store.nextSeq + 1
      witness := store.witness ++ [.promiseCreated store.nextHandle store.nextSeq] })

def get (handle : PromiseHandle) : Except PromiseError PromiseRecord :=
  match store.promises[handle.index.toNat]? with
  | some record => .ok record
  | none => .error (.invalidHandle handle)

/-- Write through the reference that `get_mut` returned for the handle. -/
def put (handle : PromiseHandle) (record : PromiseRecord) : PromiseStore :=
  { store with promises := store.promises.set handle.index.toNat record }

def settle (store : PromiseStore) (kind : ReactionKind) (handle : PromiseHandle) (value : JsValue)
    (label : Label) : Except PromiseError (PromiseStore × List Microtask) := do
  let record ← store.get handle
  if record.state.isSettled then .error (.alreadySettled handle)
  else
    let written := store.put handle (record.settle kind value label)
    .ok ({ written with witness := written.witness ++ [kind.event handle value label] },
      record.reactions.map (·.job kind value label))

def fulfill (store : PromiseStore) (handle : PromiseHandle) (value : JsValue) (label : Label) :
    Except PromiseError (PromiseStore × List Microtask) :=
  store.settle .fulfill handle value label

def reject (store : PromiseStore) (handle : PromiseHandle) (reason : JsValue) (label : Label) :
    Except PromiseError (PromiseStore × List Microtask) :=
  store.settle .reject handle reason label

/-- The `then` operation: two reactions on a pending promise, or one job at once. -/
def registerThen (handle : PromiseHandle) (onFulfilled onRejected : Option ClosureHandle)
    (label : Label) : Except PromiseError (PromiseHandle × PromiseStore × List Microtask) := do
  let record ← store.get handle
  let (resultPromise, created) := store.create
  match record.state with
  | .pending =>
    let reactions := record.reactions ++
      [⟨.fulfill, onFulfilled, resultPromise, label⟩, ⟨.reject, onRejected, resultPromise, label⟩]
    .ok (resultPromise, created.put handle { record with reactions := reactions }, [])
  | .fulfilled value =>
    .ok (resultPromise, created, [.promiseReaction onFulfilled value resultPromise label])
  | .rejected reason =>
    let marked :=
      if onRejected.isSome then created.put handle { record with rejectionHandled := true }
      else created
    .ok (resultPromise, marked, [.promiseReaction onRejected reason resultPromise label])

/-- An error stands for the panic of `expect`. -/
def resolve (value : JsValue) (label : Label) :
    Except PromiseError (PromiseHandle × PromiseStore × List Microtask) := do
  let (handle, created) := store.create
  let settled ← created.fulfill handle value label
  .ok (handle, settled)

/-- An error stands for the panic of `expect`. -/
def rejectWith (reason : JsValue) (label : Label) :
    Except PromiseError (PromiseHandle × PromiseStore × List Microtask) := do
  let (handle, created) := store.create
  let settled ← created.reject handle reason label
  .ok (handle, settled)

end PromiseStore

/-!
## Runs
-/

inductive PromiseOp where
  | create
  | fulfill (handle : PromiseHandle) (value : JsValue) (label : Label)
  | reject (handle : PromiseHandle) (reason : JsValue) (label : Label)
  | registerThen (handle : PromiseHandle) (onFulfilled onRejected : Option ClosureHandle)
      (label : Label)
  | resolve (value : JsValue) (label : Label)
  | rejectWith (reason : JsValue) (label : Label)
  | dequeue
  | compact

/-- The store behind an operation and what the operation enqueued. A failed
operation does neither. -/
def PromiseStore.perform (store : PromiseStore) : PromiseOp → PromiseStore × List Microtask
  | .create => (store.create.2, [])
  | .fulfill handle value label => (store.fulfill handle value label).toOption.getD (store, [])
  | .reject handle reason label => (store.reject handle reason label).toOption.getD (store, [])
  | .registerThen handle onFulfilled onRejected label =>
    ((store.registerThen handle onFulfilled onRejected label).toOption.map (·.2)).getD (store, [])
  | .resolve value label => ((store.resolve value label).toOption.map (·.2)).getD (store, [])
  | .rejectWith reason label => ((store.rejectWith reason label).toOption.map (·.2)).getD (store, [])
  | .dequeue => (store, [])
  | .compact => (store, [])

/-- A store with its queue, and a record of everything that was ever enqueued. -/
structure Runtime where
  store : PromiseStore
  queue : MicrotaskQueue
  enqueued : List Microtask

namespace Runtime

def ofStore (store : PromiseStore) : Runtime := ⟨store, .new, []⟩

def step (runtime : Runtime) (op : PromiseOp) : Runtime :=
  let (store, tasks) := runtime.store.perform op
  { store := store
    queue :=
      match op with
      | .dequeue => runtime.queue.dequeue.2
      | .compact => runtime.queue.compact
      | _ => tasks.foldl MicrotaskQueue.enqueue runtime.queue
    enqueued := runtime.enqueued ++ tasks }

def runFrom (runtime : Runtime) (ops : List PromiseOp) : Runtime := ops.foldl step runtime

def run (ops : List PromiseOp) : Runtime := (ofStore .new).runFrom ops

end Runtime

end FrankenEngine.Promise
