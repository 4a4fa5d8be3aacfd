import FrankenEngine.Bytecode.Shape

/-!
# The bytecode machine

The machine of `bytecode_vm.rs` with its inline cache for property loads. How a
property is loaded is a parameter of the machine, so that the same machine also
runs with loads that only look the property up by name.
-/

set_option autoImplicit false

namespace FrankenEngine.Bytecode

open Library

def usizeMax : Nat := 2 ^ 64 - 1

inductive Value where
  | undefined
  | bool (value : Bool)
  | int (value : Int64)
  | object (objectId : UInt32)
  deriving DecidableEq

namespace Value

def isTruthy : Value → Bool
  | .undefined => false
  | .bool value => value
  | .int value => value != 0
  | .object _ => true

def kind : Value → String
  | .undefined => "undefined"
  | .bool _ => "bool"
  | .int _ => "int"
  | .object _ => "object"

end Value

inductive Instruction where
  | loadConst (dst constIndex : UInt16)
  | move (dst src : UInt16)
  | add (dst lhs rhs : UInt16)
  | sub (dst lhs rhs : UInt16)
  | mul (dst lhs rhs : UInt16)
  | div (dst lhs rhs : UInt16)
  | newObject (dst : UInt16)
  | storeProp (object propertyIndex value : UInt16)
  | loadPropCached (dst object propertyIndex : UInt16)
  | jump (target : UInt32)
  | jumpIfFalse (condition : UInt16) (target : UInt32)
  | ret (src : UInt16)
  deriving DecidableEq

structure Program where
  constants : List Value
  propertyPool : List String
  instructions : List Instruction

inductive VmError where
  | registerOutOfBounds (register : UInt16) (registerCount : Nat)
  | constantOutOfBounds (constIndex : UInt16) (constantCount : Nat)
  | propertyIndexOutOfBounds (propertyIndex : UInt16) (propertyCount : Nat)
  | objectNotFound (objectId : UInt32)
  | typeMismatch (expected got : String)
  | divisionByZero
  | invalidJumpTarget (target : UInt32) (instructionCount : Nat)
  | missingReturn
  | budgetExhausted (executedSteps stepBudget : Nat)
  deriving DecidableEq, Repr

structure HeapObject where
  shapeId : Nat
  keys : List String
  slots : List Value
  keyToSlot : OrderedMap String Nat
  propertyCellRevisions : OrderedMap String Nat

namespace HeapObject

def new (shapeId : Nat) : HeapObject :=
  { shapeId, keys := [], slots := [], keyToSlot := .empty, propertyCellRevisions := .empty }

def load (object : HeapObject) (key : String) : Option (Nat × Value) := do
  let slot ← object.keyToSlot.get? key
  let value ← object.slots[slot]?
  some (slot, value)

def loadSlot (object : HeapObject) (slotIndex : Nat) : Option Value := object.slots[slotIndex]?

/-- What `StoreProp` does to the object once the shape of the result is known. -/
def store (object : HeapObject) (shapeId : Nat) (key : String) (value : Value) : HeapObject :=
  let revision := (object.propertyCellRevisions.get? key).getD 0 + 1
  let revisions := object.propertyCellRevisions.insert key revision
  match object.keyToSlot.get? key with
  | some slot =>
    { object with
      shapeId
      slots := if slot < object.slots.length then object.slots.set slot value
        else object.slots ++ [value]
      propertyCellRevisions := revisions }
  | none =>
    { shapeId
      keys := object.keys ++ [key]
      slots := object.slots ++ [value]
      keyToSlot := object.keyToSlot.insert key object.slots.length
      propertyCellRevisions := revisions }

end HeapObject

structure InlineCacheEntry where
  shapeId : Nat := 0
  propertyIndex : UInt16 := 0
  slotIndex : Nat := 0
  hits : Nat := 0
  misses : Nat := 0
  deriving DecidableEq

/-- The state of the machine, without the events that it records. -/
structure Vm where
  registers : List Value
  heap : List HeapObject
  inlineCache : OrderedMap Nat InlineCacheEntry
  shapeAlgebra : ShapeTransitionAlgebra

inductive ControlFlow where
  | next (ip : Nat)
  | ret (value : Value)
  deriving DecidableEq

inductive Failure where
  | error (error : VmError)
  /-- The `expect` on the shape algebra, or an assertion of a debug build. -/
  | panic
  deriving DecidableEq

namespace Vm

def readRegister (vm : Vm) (register : UInt16) : Except VmError Value :=
  match vm.registers[register.toNat]? with
  | some value => .ok value
  | none => .error (.registerOutOfBounds register vm.registers.length)

def writeRegister (vm : Vm) (register : UInt16) (value : Value) : Except VmError Vm :=
  if register.toNat < vm.registers.length then
    .ok { vm with registers := vm.registers.set register.toNat value }
  else .error (.registerOutOfBounds register vm.registers.length)

def readInt (vm : Vm) (register : UInt16) : Except VmError Int64 := do
  match ← vm.readRegister register with
  | .int value => .ok value
  | other => .error (.typeMismatch "int" other.kind)

def readObjectId (vm : Vm) (register : UInt16) : Except VmError UInt32 := do
  match ← vm.readRegister register with
  | .object objectId => .ok objectId
  | other => .error (.typeMismatch "object" other.kind)

def binaryIntOp (vm : Vm) (lhs rhs : UInt16) (operation : Int64 → Int64 → Int64) :
    Except VmError Int64 := do
  let left ← vm.readInt lhs
  let right ← vm.readInt rhs
  .ok (operation left right)

def getObject (vm : Vm) (objectId : UInt32) : Except VmError HeapObject :=
  match vm.heap[objectId.toNat]? with
  | some object => .ok object
  | none => .error (.objectNotFound objectId)

end Vm

namespace Program

def getConstant (program : Program) (constIndex : UInt16) : Except VmError Value :=
  match program.constants[constIndex.toNat]? with
  | some value => .ok value
  | none => .error (.constantOutOfBounds constIndex program.constants.length)

def getProperty (program : Program) (propertyIndex : UInt16) : Except VmError String :=
  match program.propertyPool[propertyIndex.toNat]? with
  | some name => .ok name
  | none => .error (.propertyIndexOutOfBounds propertyIndex program.propertyPool.length)

def jumpTo (program : Program) (target : UInt32) : Except VmError Nat :=
  if program.instructions.length ≤ target.toNat then
    .error (.invalidJumpTarget target program.instructions.length)
  else .ok target.toNat

end Program

abbrev Load := OrderedMap Nat InlineCacheEntry → Nat → HeapObject → UInt16 → String →
  Value × OrderedMap Nat InlineCacheEntry

def refillCache (cache : OrderedMap Nat InlineCacheEntry) (cacheKey : Nat) (object : HeapObject)
    (propertyIndex : UInt16) (name : String) : Value × OrderedMap Nat InlineCacheEntry :=
  let (slotIndex, value) := (object.load name).getD (usizeMax, .undefined)
  let entry := (cache.get? cacheKey).getD {}
  (value, cache.insert cacheKey
    { entry with shapeId := object.shapeId, propertyIndex, slotIndex, misses := entry.misses + 1 })

/-- The load of the machine. Instruction pointers share an entry if they agree in
their last 32 bits. -/
def loadCached : Load := fun cache ip object propertyIndex name =>
  let cacheKey := ip % 2 ^ 32
  match cache.get? cacheKey with
  | some entry =>
    if entry.shapeId = object.shapeId ∧ entry.propertyIndex = propertyIndex then
      match object.loadSlot entry.slotIndex with
      | some value => (value, cache.insert cacheKey { entry with hits := entry.hits + 1 })
      | none => refillCache cache cacheKey object propertyIndex name
    else refillCache cache cacheKey object propertyIndex name
  | none => refillCache cache cacheKey object propertyIndex name

def loadByName : Load := fun cache _ object _ name =>
  (((object.load name).map (·.2)).getD .undefined, cache)

/-- The `?` operator: go on with the value, or return the error in this state. -/
def attempt {α : Type} (vm : Vm) (result : Except VmError α)
    (next : α → Except Failure ControlFlow × Vm) : Except Failure ControlFlow × Vm :=
  match result with
  | .ok value => next value
  | .error error => (.error (.error error), vm)

def writeAndAdvance (vm : Vm) (ip : Nat) (dst : UInt16) (value : Value) :
    Except Failure ControlFlow × Vm :=
  attempt vm (vm.writeRegister dst value) fun vm => (.ok (.next (ip + 1)), vm)

section Execution

variable (digest : ShapeSkeleton → Digest) (load : Load) (program : Program)

def storeProperty (vm : Vm) (ip : Nat) (objectId : UInt32) (object : HeapObject) (name : String)
    (value : Value) : Except Failure ControlFlow × Vm :=
  let mutation : ShapeMutation :=
    if (object.keyToSlot.get? name).isSome then .writePropertyCell name
    else .addProperty name {}
  match vm.shapeAlgebra.applyMutation digest object.shapeId mutation with
  | some (.ok outcome, algebra) =>
    let vm := { vm with shapeAlgebra := algebra }
    -- the assertion on the slot is made only where a property is added
    if (object.keyToSlot.get? name).isNone ∧
        (outcome.transition.propertyLayout.all (·.slotIndex = object.slots.length)) = false then
      (.error .panic, vm)
    else
      (.ok (.next (ip + 1)),
        { vm with
          heap := vm.heap.set objectId.toNat (object.store outcome.shape.shapeId name value) })
  | _ => (.error .panic, vm)

def executeInstruction (ip : Nat) (instruction : Instruction) (vm : Vm) :
    Except Failure ControlFlow × Vm :=
  match instruction with
  | .loadConst dst constIndex =>
    attempt vm (program.getConstant constIndex) fun constant => writeAndAdvance vm ip dst constant
  | .move dst src => attempt vm (vm.readRegister src) fun value => writeAndAdvance vm ip dst value
  | .add dst lhs rhs =>
    attempt vm (vm.binaryIntOp lhs rhs (· + ·)) fun value => writeAndAdvance vm ip dst (.int value)
  | .sub dst lhs rhs =>
    attempt vm (vm.binaryIntOp lhs rhs (· - ·)) fun value => writeAndAdvance vm ip dst (.int value)
  | .mul dst lhs rhs =>
    attempt vm (vm.binaryIntOp lhs rhs (· * ·)) fun value => writeAndAdvance vm ip dst (.int value)
  | .div dst lhs rhs =>
    attempt vm (vm.readInt lhs) fun left =>
    attempt vm (vm.readInt rhs) fun right =>
      if right = 0 then (.error (.error .divisionByZero), vm)
      else writeAndAdvance vm ip dst (.int (left / right))
  | .newObject dst =>
    let objectId := UInt32.ofNat (min vm.heap.length (2 ^ 32 - 1))
    let vm := { vm with heap := vm.heap ++ [HeapObject.new vm.shapeAlgebra.rootShapeId] }
    writeAndAdvance vm ip dst (.object objectId)
  | .storeProp object propertyIndex value =>
    attempt vm (vm.readObjectId object) fun objectId =>
    attempt vm (program.getProperty propertyIndex) fun name =>
    attempt vm (vm.readRegister value) fun stored =>
    attempt vm (vm.getObject objectId) fun heapObject =>
      storeProperty digest vm ip objectId heapObject name stored
  | .loadPropCached dst object propertyIndex =>
    attempt vm (vm.readObjectId object) fun objectId =>
    attempt vm (program.getProperty propertyIndex) fun name =>
    attempt vm (vm.getObject objectId) fun heapObject =>
      let (value, cache) := load vm.inlineCache ip heapObject propertyIndex name
      writeAndAdvance { vm with inlineCache := cache } ip dst value
  | .jump target => attempt vm (program.jumpTo target) fun ip => (.ok (.next ip), vm)
  | .jumpIfFalse condition target =>
    attempt vm (vm.readRegister condition) fun value =>
      if value.isTruthy then (.ok (.next (ip + 1)), vm)
      else attempt vm (program.jumpTo target) fun ip => (.ok (.next ip), vm)
  | .ret src => attempt vm (vm.readRegister src) fun value => (.ok (.ret value), vm)

structure Outcome where
  result : Except Failure Value
  steps : Nat
  vm : Vm

/-- What the loop of `execute` does with the outcome of an instruction. -/
def proceed (onNext : Nat → Vm → Outcome) (steps : Nat) :
    Except Failure ControlFlow × Vm → Outcome
  | (.ok (.next ip), vm) => onNext ip vm
  | (.ok (.ret value), vm) => { result := .ok value, steps, vm }
  | (.error failure, vm) => { result := .error failure, steps, vm }

/-- The loop of `execute`, on the steps that the budget still allows. -/
def executeFrom (stepBudget : Nat) : Nat → Nat → Nat → Vm → Outcome
  | 0, _, steps, vm => { result := .error (.error (.budgetExhausted steps stepBudget)), steps, vm }
  | remaining + 1, ip, steps, vm =>
    match program.instructions[ip]? with
    | none => { result := .error (.error .missingReturn), steps, vm }
    | some instruction =>
      proceed (fun ip vm => executeFrom stepBudget remaining ip (steps + 1) vm) (steps + 1)
        (executeInstruction digest load program ip instruction vm)

def Vm.initial (registerCount : Nat) : Vm where
  registers := List.replicate registerCount .undefined
  heap := []
  inlineCache := .empty
  shapeAlgebra := .new digest

def executeWith (registerCount stepBudget : Nat) : Outcome :=
  executeFrom digest load program stepBudget stepBudget 0 0 (.initial digest registerCount)

end Execution

def execute (digest : ShapeSkeleton → Digest) (program : Program) (registerCount stepBudget : Nat) :
    Outcome :=
  executeWith digest loadCached program registerCount stepBudget

def executeReference (digest : ShapeSkeleton → Digest) (program : Program)
    (registerCount stepBudget : Nat) : Outcome :=
  executeWith digest loadByName program registerCount stepBudget

end FrankenEngine.Bytecode
