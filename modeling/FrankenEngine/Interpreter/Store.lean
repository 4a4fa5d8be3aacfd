import FrankenEngine.Ir.Contract
import FrankenEngine.Library.Chars
import FrankenEngine.Library.OrderedMap

/-!
# Values, registers and the heap of the baseline interpreter

The data the instructions of `baseline_interpreter.rs` work on. What the
instructions do to control (the call stack, the handlers, the completions in
flight) is kept apart from it.
-/

set_option autoImplicit false

namespace FrankenEngine.Interpreter

open Library Ir

inductive Value where
  | undefined
  | null
  | bool (value : Bool)
  | int (value : Int64)
  | str (text : String)
  | object (id : Nat)
  | function (index : Nat)
  | iterator (handle : Nat)
  deriving DecidableEq, Repr

namespace Value

def isTruthy : Value → Bool
  | .undefined | .null => false
  | .bool value => value
  | .int value => value != 0
  | .str text => text != ""
  | .object _ | .function _ | .iterator _ => true

def isNullish : Value → Bool
  | .undefined | .null => true
  | _ => false

def typeName : Value → String
  | .undefined => "undefined"
  | .null => "null"
  | .bool _ => "boolean"
  | .int _ => "number"
  | .str _ => "string"
  | .object _ => "object"
  | .function _ => "function"
  | .iterator _ => "iterator"

def typeofName : Value → String
  | .undefined => "undefined"
  | .null | .object _ => "object"
  | .bool _ => "boolean"
  | .int _ => "number"
  | .str _ => "string"
  | .function _ => "function"
  | .iterator _ => "object"

def display : Value → String
  | .undefined => "undefined"
  | .null => "null"
  | .bool value => toString value
  | .int value => toString value.toInt
  | .str text => text
  | .object id => s!"[object#{id}]"
  | .function index => s!"[function#{index}]"
  | .iterator handle => s!"[iterator#{handle}]"

def describe : Value → String
  | .str text => text
  | .int value => toString value.toInt
  | .bool value => toString value
  | .undefined => "undefined"
  | .null => "null"
  | _ => "[object]"

def propertyKey (value : Value) : String := value.display

def coerceToNumber : Value → Option Int64
  | .int value => some value
  | .bool value => some (if value then 1 else 0)
  | .null => some 0
  | .str text =>
    let trimmed := Chars.trim text.toList
    if trimmed = [] then some 0 else Chars.parseI64 trimmed
  | .undefined | .object _ | .function _ | .iterator _ => none

end Value

inductive InterpreterError where
  | budgetExhausted (executed budget : Nat)
  | registerOutOfBounds (register max : Nat)
  | stackOverflow (depth max : Nat)
  | typeError (expected got : String)
  | divisionByZero
  | objectNotFound (id : Nat)
  | functionNotFound (index tableSize : Nat)
  | stringPoolOutOfBounds (index poolSize : Nat)
  | capabilityDenied (capability : String)
  | iteratorNotFound (handle : Nat)
  | uncaughtException (value : String)
  deriving DecidableEq, Repr

structure InterpreterConfig where
  instructionBudget : Nat
  maxRegisters : Nat
  maxCallDepth : Nat
  grantedCapabilities : List String := []

structure HeapObject where
  properties : OrderedMap String Value := .empty
  prototype : Option Nat := none
  constructorFunction : Option Nat := none

structure Heap where
  objects : List HeapObject := []
  functionPrototypes : OrderedMap Nat Nat := .empty

namespace Heap

def maxPrototypeChainDepth : Nat := 64

variable (heap : Heap)

def allocObjectWithPrototype (prototype : Option Nat) : Nat × Heap :=
  (min heap.objects.length u32Max, { heap with objects := heap.objects ++ [{ prototype }] })

def allocObject : Nat × Heap := heap.allocObjectWithPrototype none

def ensureFunctionPrototype (index : Nat) : Nat × Heap :=
  match heap.functionPrototypes.get? index with
  | some existing => (existing, heap)
  | none =>
    let (prototype, heap) := heap.allocObject
    (prototype,
      { heap with functionPrototypes := heap.functionPrototypes.insert index prototype })

def walkPrototypes {α : Type} (heap : Heap) (visit : HeapObject → Option α) (fallback : α) :
    Nat → List Nat → Option Nat → Except InterpreterError α
  | 0, _, _ => .ok fallback
  | _ + 1, _, none => .ok fallback
  | left + 1, visited, some id =>
    if id ∈ visited then .ok fallback
    else
      match heap.objects[id]? with
      | none => .error (.objectNotFound id)
      | some object =>
        match visit object with
        | some answer => .ok answer
        | none => heap.walkPrototypes visit fallback left (id :: visited) object.prototype

def prototypeChainGet (id : Nat) (key : String) : Except InterpreterError Value :=
  heap.walkPrototypes (fun object => object.properties.get? key) .undefined
    maxPrototypeChainDepth [] (some id)

def prototypeChainHasKey (id : Nat) (key : String) : Except InterpreterError Bool :=
  heap.walkPrototypes (fun object => (object.properties.get? key).map fun _ => true) false
    maxPrototypeChainDepth [] (some id)

/-- Unlike the other walks this one compares before it checks the depth and the visited objects. -/
def prototypeChainContainsFrom (heap : Heap) (prototype : Nat) :
    Nat → List Nat → Option Nat → Except InterpreterError Bool
  | _, _, none => .ok false
  | left, visited, some id =>
    if id = prototype then .ok true
    else
      match left with
      | 0 => .ok false
      | left + 1 =>
        if id ∈ visited then .ok false
        else
          match heap.objects[id]? with
          | none => .error (.objectNotFound id)
          | some object =>
            heap.prototypeChainContainsFrom prototype left (id :: visited) object.prototype

def prototypeChainContains (id prototype : Nat) : Except InterpreterError Bool :=
  match heap.objects[id]? with
  | none => .error (.objectNotFound id)
  | some object =>
    heap.prototypeChainContainsFrom prototype maxPrototypeChainDepth [id] object.prototype

def collectForInKeysFrom (heap : Heap) :
    Nat → List String → List Nat → Option Nat → Except InterpreterError (List String)
  | 0, keys, _, _ => .ok keys
  | _ + 1, keys, _, none => .ok keys
  | left + 1, keys, visited, some id =>
    if id ∈ visited then .ok keys
    else
      match heap.objects[id]? with
      | none => .error (.objectNotFound id)
      | some object =>
        let fresh := object.properties.keys.filter fun key => decide (key ∉ keys)
        heap.collectForInKeysFrom left (keys ++ fresh) (id :: visited) object.prototype

def collectForInKeys (id : Nat) : Except InterpreterError (List String) :=
  heap.collectForInKeysFrom maxPrototypeChainDepth [] [] (some id)

def collectForOfValues (iterable : Value) : Except InterpreterError (List Value) :=
  match iterable with
  | .str text => .ok (text.toList.map fun char => .str (String.singleton char))
  | .object id =>
    match heap.objects[id]? with
    | none => .error (.objectNotFound id)
    | some object =>
      let indexed := object.properties.entries.filterMap fun entry =>
        (Chars.parseU64 entry.1.toList).map fun index => (index, entry.2)
      if indexed = [] then .error (.typeError "iterable" iterable.typeName)
      else
        .ok ((indexed.mergeSort fun left right => decide (left.1 ≤ right.1)).map (·.2))
  | other => .error (.typeError "iterable" other.typeName)

end Heap

structure RuntimeForInState where
  objectId : Nat
  keys : List String
  nextIndex : Nat := 0
  deletedKeys : OrderedSet String := .empty
  done : Bool := false
  closed : Bool := false

structure RuntimeForOfState where
  values : List Value
  nextIndex : Nat := 0
  done : Bool := false
  closed : Bool := false

inductive RuntimeIteratorState where
  | forIn (state : RuntimeForInState)
  | forOf (state : RuntimeForOfState)

namespace RuntimeForInState

def nextKey (deleted : OrderedSet String) : List String → Nat → Option String × Nat
  | [], index => (none, index)
  | key :: rest, index =>
    if (deleted.get? key).isSome then nextKey deleted rest (index + 1)
    else (some key, index + 1)

def advance (state : RuntimeForInState) : Option Value × RuntimeForInState :=
  if state.closed || state.done then (none, { state with done := true })
  else
    match nextKey state.deletedKeys (state.keys.drop state.nextIndex) state.nextIndex with
    | (some key, nextIndex) => (some (.str key), { state with nextIndex })
    | (none, nextIndex) => (none, { state with nextIndex, done := true })

end RuntimeForInState

def RuntimeForOfState.advance (state : RuntimeForOfState) : Option Value × RuntimeForOfState :=
  if state.closed || state.done then (none, { state with done := true })
  else
    match state.values[state.nextIndex]? with
    | some value => (some value, { state with nextIndex := state.nextIndex + 1 })
    | none => (none, { state with done := true })

def RuntimeIteratorState.close : RuntimeIteratorState → RuntimeIteratorState
  | .forIn state => .forIn { state with closed := true, done := true }
  | .forOf state => .forOf { state with closed := true, done := true }

structure Store where
  registers : List Value
  registerBase : Nat := 0
  heap : Heap := {}
  iterators : List RuntimeIteratorState := []

namespace Store

/-- Write one place of the register file, which grows with `undefined` where it is too short. -/
def setRegister (registers : List Value) (index : Nat) (value : Value) : List Value :=
  (registers ++ List.replicate (index + 1 - registers.length) Value.undefined).set index value

variable (config : InterpreterConfig)

def readReg (store : Store) (reg : Nat) : Except InterpreterError Value :=
  if reg ≥ config.maxRegisters then .error (.registerOutOfBounds reg config.maxRegisters)
  else .ok (store.registers.getD (store.registerBase + reg) .undefined)

def writeReg (store : Store) (reg : Nat) (value : Value) : Except InterpreterError Store :=
  if reg ≥ config.maxRegisters then .error (.registerOutOfBounds reg config.maxRegisters)
  else
    .ok { store with
      registers := setRegister store.registers (store.registerBase + reg) value }

def readRange (store : Store) (start count : Nat) : Except InterpreterError (List Value) :=
  (List.range count).mapM fun index =>
    if start + index > u32Max then .error (.registerOutOfBounds start config.maxRegisters)
    else store.readReg config (start + index)

/-- Write each value into the register its place in the list gives, as far as there are registers. -/
def writeArguments (config : InterpreterConfig) (store : Store) :
    Nat → List Value → Except InterpreterError Store
  | _, [] => .ok store
  | reg, value :: rest => do
      let store ← if reg < config.maxRegisters then store.writeReg config reg value else .ok store
      store.writeArguments config (reg + 1) rest

def enterFrame (store : Store) : Store :=
  let registerBase := store.registerBase + config.maxRegisters
  let required := registerBase + config.maxRegisters
  { store with
    registerBase
    registers :=
      if required > store.registers.length then
        store.registers ++ List.replicate (required - store.registers.length) Value.undefined
      else
        store.registers.take registerBase ++ List.replicate config.maxRegisters .undefined ++
          store.registers.drop required }

def expectIteratorHandle : Value → Except InterpreterError Nat
  | .iterator handle => .ok handle
  | other => .error (.typeError "iterator" other.typeName)

variable (store : Store)

def iteratorState (handle : Nat) : Except InterpreterError RuntimeIteratorState :=
  match store.iterators[handle]? with
  | some state => .ok state
  | none => .error (.iteratorNotFound handle)

def allocIterator (state : RuntimeIteratorState) : Value × Store :=
  (.iterator (min store.iterators.length u32Max),
    { store with iterators := store.iterators ++ [state] })

def initForInIterator : Value → Except InterpreterError (Value × Store)
  | .object objectId => do
      let keys ← store.heap.collectForInKeys objectId
      .ok (store.allocIterator (.forIn { objectId, keys }))
  | other => .error (.typeError "object" other.typeName)

def initForOfIterator (iterable : Value) : Except InterpreterError (Value × Store) := do
  let values ← store.heap.collectForOfValues iterable
  .ok (store.allocIterator (.forOf { values }))

def advanceForInIterator (iterator : Value) : Except InterpreterError (Option Value × Store) := do
  let handle ← expectIteratorHandle iterator
  match ← store.iteratorState handle with
  | .forIn state =>
    let (value, state) := state.advance
    .ok (value, { store with iterators := store.iterators.set handle (.forIn state) })
  | .forOf _ => .error (.typeError "for..in iterator" "for..of iterator")

def advanceForOfIterator (iterator : Value) : Except InterpreterError (Option Value × Store) := do
  let handle ← expectIteratorHandle iterator
  match ← store.iteratorState handle with
  | .forOf state =>
    let (value, state) := state.advance
    .ok (value, { store with iterators := store.iterators.set handle (.forOf state) })
  | .forIn _ => .error (.typeError "for..of iterator" "for..in iterator")

def closeIterator (iterator : Value) : Except InterpreterError Store := do
  let handle ← expectIteratorHandle iterator
  let state ← store.iteratorState handle
  .ok { store with iterators := store.iterators.set handle state.close }

def markDeletedForInIterators (objectId : Nat) (key : String) : Store :=
  { store with
    iterators := store.iterators.map fun
      | .forIn state =>
        .forIn (if state.objectId = objectId
          then { state with deletedKeys := state.deletedKeys.insert key () } else state)
      | other => other }

end Store

end FrankenEngine.Interpreter
