import FrankenEngine.Interpreter.Store

/-!
# The baseline interpreter

The run loop of `baseline_interpreter.rs`, and what its operators compute from
the values of their operands. Stacks are lists with the top first, so that
truncating a vector to a length keeps the end of the list.
-/

set_option autoImplicit false

namespace FrankenEngine.Interpreter

open Library Ir

/-!
## Operators

Only `instanceof` changes the heap: it may have to make the prototype object of
the constructor.
-/

namespace Value

def concatText : Value → String
  | .object _ | .iterator _ => "[object Object]"
  | .function _ => "function"
  | other => other.display

/-- Both operands as numbers; an operand that is none is reported with the given texts. -/
def numbers (expected got : String) (a b : Value) : Except InterpreterError (Int64 × Int64) :=
  match a.coerceToNumber, b.coerceToNumber with
  | some x, some y => .ok (x, y)
  | _, _ => .error (.typeError expected got)

variable (operator : String)

def operandTypes (a b : Value) : String :=
  a.typeName ++ " " ++ operator ++ " " ++ b.typeName

def evalAdd (a b : Value) : Except InterpreterError Value :=
  match a, b with
  | .int x, .int y => .ok (.int (x + y))
  | .str x, .str y => .ok (.str (x ++ y))
  | .str x, other => .ok (.str (x ++ other.concatText))
  | other, .str y => .ok (.str (other.concatText ++ y))
  | a, b => do
      let (x, y) ← numbers "number or string" (operandTypes "+" a b) a b
      .ok (.int (x + y))

variable (compute : Int64 → Int64 → Int64)

def evalArith (a b : Value) : Except InterpreterError Value := do
  let (x, y) ← numbers "number" (operandTypes operator a b) a b
  .ok (.int (compute x y))

def evalDivision (a b : Value) : Except InterpreterError Value := do
  let (x, y) ← numbers "number" (operandTypes operator a b) a b
  if y = 0 then .error .divisionByZero else .ok (.int (compute x y))

def evalExp (a b : Value) : Except InterpreterError Value := do
  let (x, y) ← numbers "number" (operandTypes "**" a b) a b
  if 0 ≤ y.toInt ∧ y.toInt ≤ u32Max then .ok (.int (x ^ y.toInt.toNat))
  else .error (.typeError "non-negative exponent" (toString y.toInt))

def compareTexts (x y : String) : Ordering :=
  if x < y then .lt else if x = y then .eq else .gt

def evalRelational (holds : Ordering → Bool) (a b : Value) : Except InterpreterError Value :=
  match a, b with
  | .str x, .str y => .ok (.bool (holds (compareTexts x y)))
  | a, b => do
      let (x, y) ← numbers "comparable primitive" (operandTypes operator a b) a b
      .ok (.bool (holds (compare x.toInt y.toInt)))

def abstractEq (a b : Value) : Bool :=
  match a, b with
  | .undefined, .undefined | .null, .null | .bool _, .bool _ | .int _, .int _ | .str _, .str _
  | .object _, .object _ | .function _, .function _ | .iterator _, .iterator _ => a == b
  | .null, .undefined | .undefined, .null => true
  | .null, _ | _, .null => false
  | .undefined, _ | _, .undefined => false
  | a, b =>
    match a.coerceToNumber, b.coerceToNumber with
    | some x, some y => x == y
    | _, _ => false

def evalBitwise (a b : Value) : Except InterpreterError Value :=
  evalArith operator compute a b

def shiftCount (y : Int64) : UInt32 := y.toBitVec.toNat.toUInt32 &&& 31

def evalUnaryPlus (value : Value) : Except InterpreterError Value :=
  match value.coerceToNumber with
  | some number => .ok (.int number)
  | none => .error (.typeError "number-coercible primitive" value.typeName)

def evalUnaryNeg (value : Value) : Except InterpreterError Value :=
  match value.coerceToNumber with
  | some number => .ok (.int (-number))
  | none => .error (.typeError "number-coercible primitive" value.typeName)

def evalBitNot (value : Value) : Except InterpreterError Value :=
  match value.coerceToNumber with
  | some number => .ok (.int (~~~number.toInt32).toInt64)
  | none => .error (.typeError "number-coercible primitive" value.typeName)

end Value

namespace Heap

def evalInstanceof (heap : Heap) (candidate constructor : Value) :
    Except InterpreterError (Value × Heap) :=
  match constructor with
  | .function index =>
    match candidate with
    | .object id => do
        let (prototype, heap) := heap.ensureFunctionPrototype index
        .ok (.bool (← heap.prototypeChainContains id prototype), heap)
    | _ => .ok (.bool false, heap)
  | other => .error (.typeError "function" other.typeName)

def evalInOperator (heap : Heap) (key target : Value) : Except InterpreterError Value :=
  match target with
  | .object id =>
    match heap.objects[id]? with
    | none => .error (.objectNotFound id)
    | some _ => do .ok (.bool (← heap.prototypeChainHasKey id key.propertyKey))
  | other => .error (.typeError "object" other.typeName)

def evalBinary (heap : Heap) (operator : BinaryInstruction) (a b : Value) :
    Except InterpreterError (Value × Heap) :=
  let pure (result : Except InterpreterError Value) : Except InterpreterError (Value × Heap) := do
    .ok (← result, heap)
  match operator with
  | .add => pure (Value.evalAdd a b)
  | .sub => pure (Value.evalArith "sub" (· - ·) a b)
  | .mul => pure (Value.evalArith "mul" (· * ·) a b)
  | .div => pure (Value.evalDivision "/" (· / ·) a b)
  | .mod => pure (Value.evalDivision "%" (· % ·) a b)
  | .exp => pure (Value.evalExp a b)
  | .lt => pure (Value.evalRelational "<" (· == .lt) a b)
  | .lte => pure (Value.evalRelational "<=" (· != .gt) a b)
  | .gt => pure (Value.evalRelational ">" (· == .gt) a b)
  | .gte => pure (Value.evalRelational ">=" (· != .lt) a b)
  | .eq => pure (.ok (.bool (Value.abstractEq a b)))
  | .strictEq => pure (.ok (.bool (a == b)))
  | .notEq => pure (.ok (.bool !(Value.abstractEq a b)))
  | .strictNotEq => pure (.ok (.bool (a != b)))
  | .bitAnd =>
    pure (Value.evalBitwise "&" (fun x y => (x.toInt32 &&& y.toInt32).toInt64) a b)
  | .bitOr =>
    pure (Value.evalBitwise "|" (fun x y => (x.toInt32 ||| y.toInt32).toInt64) a b)
  | .bitXor =>
    pure (Value.evalBitwise "^" (fun x y => (x.toInt32 ^^^ y.toInt32).toInt64) a b)
  | .shl =>
    pure (Value.evalBitwise "<<"
      (fun x y => (x.toInt32 <<< (Value.shiftCount y).toInt32).toInt64) a b)
  | .shr =>
    pure (Value.evalBitwise ">>"
      (fun x y => (x.toInt32 >>> (Value.shiftCount y).toInt32).toInt64) a b)
  | .ushr =>
    pure (Value.evalBitwise ">>>"
      (fun x y => Int64.ofNat (x.toBitVec.toNat.toUInt32 >>> Value.shiftCount y).toNat) a b)
  | .instanceOf => heap.evalInstanceof a b
  | .inOp => pure (heap.evalInOperator a b)

end Heap

def Value.evalUnary (operator : UnaryInstruction) (value : Value) :
    Except InterpreterError Value :=
  match operator with
  | .unaryNeg => value.evalUnaryNeg
  | .unaryPlus => value.evalUnaryPlus
  | .logicalNot => .ok (.bool !value.isTruthy)
  | .bitNot => value.evalBitNot
  | .typeOf => .ok (.str value.typeofName)
  | .void => .ok .undefined

/-!
## The machine
-/

structure CatchFrame where
  catchTarget : Nat
  finallyTarget : Option Nat
  callDepth : Nat
  deriving DecidableEq, Repr

inductive FinallyMode where
  | normal
  | exception
  | returning
  deriving DecidableEq, Repr

inductive AbruptCompletion where
  | exception (value : Value)
  | returning (value : Value)
  deriving DecidableEq, Repr

structure CallFrame where
  returnIp : Nat
  returnReg : Nat
  registerBase : Nat
  constructThis : Option Value
  savedPendingException : Option Value
  savedPendingReturn : Option Value
  savedSuspendedAbruptDepth : Nat
  savedFinallyModeDepth : Nat

structure Core where
  store : Store
  ip : Nat := 0
  instructionsExecuted : Nat := 0
  callStack : List CallFrame := []
  catchFrames : List CatchFrame := []
  pendingException : Option Value := none
  pendingReturn : Option Value := none
  suspendedAbruptCompletions : List AbruptCompletion := []
  finallyModes : List FinallyMode := []

/-- How one turn of the run loop ends when it does not fail; `Halt` is an error in the source that
its caller treats as normal termination. -/
inductive Outcome where
  | next (core : Core)
  | done (value : Value) (core : Core)
  | halted (core : Core)

def truncate {α : Type} (stack : List α) (length : Nat) : List α :=
  stack.drop (stack.length - length)

/-!
## Instructions that leave control alone
-/

namespace Store

def templateText : Value → String
  | .str text => text
  | .int value => toString value.toInt
  | .bool value => if value then "true" else "false"
  | .null => "null"
  | .undefined => "undefined"
  | .object _ | .iterator _ => "[object Object]"
  | .function _ => "function"

/-- What the instructions do that leave calls, handlers and completions alone: the store
afterwards, and the instruction to go on with. The others are those of `Core.step`. -/
def perform (config : InterpreterConfig) (pool : List String) (store : Store) (ip : Nat) :
    Ir3Instruction → Except InterpreterError (Store × Nat)
  | .loadInt dst value => do .ok (← store.writeReg config dst (.int value), ip + 1)
  | .loadStr dst poolIndex =>
    match pool[poolIndex]? with
    | none => .error (.stringPoolOutOfBounds poolIndex pool.length)
    | some text => do .ok (← store.writeReg config dst (.str text), ip + 1)
  | .loadBool dst value => do .ok (← store.writeReg config dst (.bool value), ip + 1)
  | .loadNull dst => do .ok (← store.writeReg config dst .null, ip + 1)
  | .loadUndefined dst => do .ok (← store.writeReg config dst .undefined, ip + 1)
  | .binary operator dst lhs rhs => do
      let a ← store.readReg config lhs
      let b ← store.readReg config rhs
      let (result, heap) ← store.heap.evalBinary operator a b
      .ok (← { store with heap }.writeReg config dst result, ip + 1)
  | .unary operator dst src => do
      let value ← store.readReg config src
      .ok (← store.writeReg config dst (← value.evalUnary operator), ip + 1)
  | .forInInit src dst => do
      let (iterator, store) ← store.initForInIterator (← store.readReg config src)
      .ok (← store.writeReg config dst iterator, ip + 1)
  | .forInNext iterator valueDst doneTarget => do
      let (value, store) ← store.advanceForInIterator (← store.readReg config iterator)
      match value with
      | some value => .ok (← store.writeReg config valueDst value, ip + 1)
      | none => .ok (store, doneTarget)
  | .forOfInit src dst => do
      let (iterator, store) ← store.initForOfIterator (← store.readReg config src)
      .ok (← store.writeReg config dst iterator, ip + 1)
  | .forOfNext iterator valueDst doneTarget => do
      let (value, store) ← store.advanceForOfIterator (← store.readReg config iterator)
      match value with
      | some value => .ok (← store.writeReg config valueDst value, ip + 1)
      | none => .ok (store, doneTarget)
  | .iteratorClose iterator _ => do
      .ok (← store.closeIterator (← store.readReg config iterator), ip + 1)
  | .move dst src => do
      .ok (← store.writeReg config dst (← store.readReg config src), ip + 1)
  | .jump target => .ok (store, target)
  | .jumpIf cond target => do
      let value ← store.readReg config cond
      .ok (store, if value.isTruthy then target else ip + 1)
  | .jumpIfNullish cond target => do
      let value ← store.readReg config cond
      .ok (store, if value.isNullish then target else ip + 1)
  | .hostCall capability _ dst =>
    if capability ∈ config.grantedCapabilities then do
      -- nothing is dispatched: every host call answers `undefined`
      .ok (← store.writeReg config dst .undefined, ip + 1)
    else .error (.capabilityDenied capability)
  | .getProperty obj key dst => do
      let target ← store.readReg config obj
      let name := (← store.readReg config key).propertyKey
      match target with
      | .object id =>
        let value ← store.heap.prototypeChainGet id name
        .ok (← store.writeReg config dst value, ip + 1)
      | other => .error (.typeError "object" other.typeName)
  | .setProperty obj key val => do
      let target ← store.readReg config obj
      let name := (← store.readReg config key).propertyKey
      let value ← store.readReg config val
      match target with
      | .object id =>
        match store.heap.objects[id]? with
        | none => .error (.objectNotFound id)
        | some object =>
          let object := { object with properties := object.properties.insert name value }
          let heap := { store.heap with objects := store.heap.objects.set id object }
          .ok ({ store with heap }, ip + 1)
      | other => .error (.typeError "object" other.typeName)
  | .deleteProperty obj key dst => do
      let target ← store.readReg config obj
      let name := (← store.readReg config key).propertyKey
      match target with
      | .object id =>
        match store.heap.objects[id]? with
        | none => .error (.objectNotFound id)
        | some object =>
          let object := { object with properties := object.properties.erase name }
          let heap := { store.heap with objects := store.heap.objects.set id object }
          let store := { store with heap }.markDeletedForInIterators id name
          .ok (← store.writeReg config dst (.bool true), ip + 1)
      | other => .error (.typeError "object" other.typeName)
  | .newObject dst | .newArray dst => do
      let (id, heap) := store.heap.allocObject
      .ok (← { store with heap }.writeReg config dst (.object id), ip + 1)
  | .templateLiteral parts dst => do
      let values ← store.readRange config parts.start parts.count
      let text := values.foldl (fun text value => text ++ templateText value) ""
      .ok (← store.writeReg config dst (.str text), ip + 1)
  | _ => .ok (store, ip)

end Store

namespace Core

variable (core : Core)

def depth : Nat := core.callStack.length

/-!
## Completions in flight
-/

/-- The completion in flight; the exception goes first, and the return is dropped with it. -/
def takeCurrentAbruptCompletion : Option AbruptCompletion × Core :=
  match core.pendingException with
  | some exception =>
    (some (.exception exception), { core with pendingException := none, pendingReturn := none })
  | none =>
    (core.pendingReturn.map .returning, { core with pendingReturn := none })

def suspendAbruptCompletion (pendingException pendingReturn : Option Value) : Core :=
  let suspended := core.suspendedAbruptCompletions
  let suspended := match pendingException with
    | some exception => .exception exception :: suspended
    | none => suspended
  let suspended := match pendingReturn with
    | some value => .returning value :: suspended
    | none => suspended
  { core with suspendedAbruptCompletions := suspended }

def suspendCurrentAbruptCompletion : Core :=
  match core.takeCurrentAbruptCompletion with
  | (some completion, core) =>
    { core with
      suspendedAbruptCompletions := completion :: core.suspendedAbruptCompletions }
  | (none, core) => core

def restoreSuspendedAbruptCompletion : Core :=
  if core.pendingException.isSome || core.pendingReturn.isSome then core
  else
    match core.suspendedAbruptCompletions with
    | .exception exception :: rest =>
      { core with
        pendingException := some exception
        suspendedAbruptCompletions := rest }
    | .returning value :: rest =>
      { core with
        pendingReturn := some value
        suspendedAbruptCompletions := rest }
    | [] => core

/-!
## Unwinding
-/

/-- What the loop of `unwind_call_stack_to` carries from frame to frame. -/
structure Unwinding where
  core : Core
  restoredPendingException : Option Value := none
  restoredPendingReturn : Option Value := none
  restoredSuspendedAbruptDepth : Option Nat := none

def Unwinding.pop (unwinding : Unwinding) (frame : CallFrame) : Unwinding :=
  let core := unwinding.core
  { core := { core with
      callStack := core.callStack.drop 1
      store := { core.store with registerBase := frame.registerBase }
      finallyModes := truncate core.finallyModes frame.savedFinallyModeDepth }
    restoredPendingException := unwinding.restoredPendingException.or frame.savedPendingException
    restoredPendingReturn := unwinding.restoredPendingReturn.or frame.savedPendingReturn
    restoredSuspendedAbruptDepth := some frame.savedSuspendedAbruptDepth }

/-- Pop the frames above `targetDepth`, with the completions they saved merged. -/
def unwindCallStackTo (targetDepth : Nat) : Core × Option Value × Option Value :=
  let popped := core.callStack.take (core.callStack.length - targetDepth)
  let unwinding := popped.foldl Unwinding.pop { core }
  let core := match unwinding.restoredSuspendedAbruptDepth with
    | some depth =>
      { unwinding.core with
        suspendedAbruptCompletions :=
          truncate unwinding.core.suspendedAbruptCompletions depth }
    | none => unwinding.core
  (core, unwinding.restoredPendingException, unwinding.restoredPendingReturn)

def popFrame (wanted : CatchFrame → Bool) (frames : List CatchFrame) :
    Option (CatchFrame × List CatchFrame) :=
  match frames.dropWhile fun frame => !wanted frame with
  | [] => none
  | frame :: below => some (frame, below)

def popCurrentTryFrame : Core :=
  match popFrame (fun frame => frame.callDepth == core.depth) core.catchFrames with
  | some (_, below) => { core with catchFrames := below }
  | none => core

def popExceptionTargetFrame : Option (CatchFrame × Core) :=
  match popFrame (fun frame => frame.callDepth ≤ core.depth) core.catchFrames with
  | some (frame, below) =>
    let unwound := { core with catchFrames := below }.unwindCallStackTo frame.callDepth
    some (frame, unwound.1.suspendAbruptCompletion unwound.2.1 unwound.2.2)
  | none => none

def popCurrentFinallyTarget : Option (Nat × Core) :=
  match popFrame (fun frame => frame.callDepth == core.depth && frame.finallyTarget.isSome)
      core.catchFrames with
  | some (frame, below) =>
    frame.finallyTarget.map fun target => (target, { core with catchFrames := below })
  | none => none

/-!
## Calls and returns
-/

variable (config : InterpreterConfig)

def completeReturn (core : Core) (returnVal : Value) : Except InterpreterError Outcome :=
  let currentDepth := core.depth
  let catchFrames := core.catchFrames.filter fun frame => frame.callDepth < currentDepth
  match core.callStack with
  | frame :: callStack => do
      let effectiveVal := match frame.constructThis, returnVal with
        | some _, .object id => .object id
        | some thisObj, _ => thisObj
        | none, _ => returnVal
      let store ← { core.store with registerBase := frame.registerBase }.writeReg config
        frame.returnReg effectiveVal
      .ok (.next { core with
        store
        ip := frame.returnIp
        callStack
        catchFrames
        pendingException := frame.savedPendingException
        pendingReturn := frame.savedPendingReturn
        suspendedAbruptCompletions :=
          truncate core.suspendedAbruptCompletions frame.savedSuspendedAbruptDepth
        finallyModes := truncate core.finallyModes frame.savedFinallyModeDepth })
  | [] =>
    .ok (.done returnVal { core with
      catchFrames
      pendingException := none
      pendingReturn := none
      suspendedAbruptCompletions := []
      finallyModes := [] })

/-- The frame of a new call saves what the caller has in flight. -/
def pushCallFrame (returnReg : Nat) (constructThis : Option Value) : Core :=
  { core with
    callStack :=
      { returnIp := core.ip + 1
        returnReg
        registerBase := core.store.registerBase
        constructThis
        savedPendingException := core.pendingException
        savedPendingReturn := core.pendingReturn
        savedSuspendedAbruptDepth := core.suspendedAbruptCompletions.length
        savedFinallyModeDepth := core.finallyModes.length } :: core.callStack
    pendingException := none
    pendingReturn := none }

variable (module : Ir3Module)

def lookupFunction (core : Core) (callee : Nat) :
    Except InterpreterError (Nat × Ir3FunctionDesc) := do
  match ← core.store.readReg config callee with
  | .function index =>
    match module.functionTable[index]? with
    | none => .error (.functionNotFound index module.functionTable.length)
    | some function =>
      if core.depth ≥ config.maxCallDepth then
        .error (.stackOverflow core.depth config.maxCallDepth)
      else .ok (index, function)
  | other => .error (.typeError "function" other.typeName)

def call (core : Core) (callee : Nat) (args : RegRange) (dst : Nat) :
    Except InterpreterError Outcome := do
  let (_, function) ← core.lookupFunction config module callee
  let argVals ← core.store.readRange config args.start (min args.count function.arity)
  let store ← (core.store.enterFrame config).writeArguments config 0 argVals
  .ok (.next { core.pushCallFrame dst none with store, ip := function.entry })

def construct (core : Core) (callee : Nat) (args : RegRange) (dst : Nat) :
    Except InterpreterError Outcome := do
  let (index, function) ← core.lookupFunction config module callee
  let (prototype, heap) := core.store.heap.ensureFunctionPrototype index
  let (thisId, heap) := heap.allocObjectWithPrototype (some prototype)
  let heap := { heap with
    objects := heap.objects.modify thisId fun object =>
      { object with constructorFunction := some index } }
  let thisVal := Value.object thisId
  let argVals ← core.store.readRange config args.start (min args.count function.arity)
  let store ← ({ core.store with heap }.enterFrame config).writeReg config 0 thisVal
  let store ← store.writeArguments config 1 argVals
  .ok (.next { core.pushCallFrame dst (some thisVal) with store, ip := function.entry })

/-!
## The run loop
-/

def raise (thrown : Value) : Except InterpreterError Outcome :=
  match core.popExceptionTargetFrame with
  | some (frame, core) => .ok (.next { core with ip := frame.catchTarget })
  | none => .error (.uncaughtException thrown.describe)

def returnThrough (core : Core) (returnVal : Value) : Except InterpreterError Outcome :=
  match core.popCurrentFinallyTarget with
  | some (target, core) =>
    .ok (.next { core with pendingReturn := some returnVal, ip := target })
  | none => { core with pendingReturn := none }.completeReturn config returnVal

def throwValue (thrown : Value) : Except InterpreterError Outcome :=
  { core.suspendCurrentAbruptCompletion with
    pendingReturn := none
    pendingException := some thrown }.raise thrown

def returnValue (core : Core) (returnVal : Value) : Except InterpreterError Outcome :=
  { core.suspendCurrentAbruptCompletion with pendingException := none }.returnThrough config
    returnVal

def enterCatch (core : Core) (dst : Nat) : Except InterpreterError Outcome := do
  let exception := core.pendingException.getD .undefined
  let core := { core with pendingException := none }.restoreSuspendedAbruptCompletion
  .ok (.next { core with store := ← core.store.writeReg config dst exception, ip := core.ip + 1 })

def enterFinally : Core :=
  let mode :=
    if core.pendingException.isSome then FinallyMode.exception
    else if core.pendingReturn.isSome then .returning
    else .normal
  { core with finallyModes := mode :: core.finallyModes, ip := core.ip + 1 }

def endFinally (core : Core) : Except InterpreterError Outcome :=
  let mode := core.finallyModes.headD .normal
  let core := { core with finallyModes := core.finallyModes.drop 1 }
  match mode, core.pendingException, core.pendingReturn with
  | .exception, some thrown, _ => core.raise thrown
  | .returning, _, some returnVal => core.returnThrough config returnVal
  | _, _, _ => .ok (.next { core with ip := core.ip + 1 })

/-- Execute one instruction, which is already counted. -/
def executeInstruction (core : Core) (instruction : Ir3Instruction) :
    Except InterpreterError Outcome :=
  match instruction with
  | .call callee args dst => core.call config module callee args dst
  | .construct callee args dst => core.construct config module callee args dst
  | .ret value => do core.returnValue config (← core.store.readReg config value)
  | .halt => .ok (.halted core)
  | .beginTry catchTarget finallyTarget =>
    .ok (.next { core with
      catchFrames := { catchTarget, finallyTarget, callDepth := core.depth } :: core.catchFrames
      ip := core.ip + 1 })
  | .endTry => .ok (.next { core.popCurrentTryFrame with ip := core.ip + 1 })
  | .throw value => do core.throwValue (← core.store.readReg config value)
  | .enterCatch dst => core.enterCatch config dst
  | .enterFinally => .ok (.next core.enterFinally)
  | .endFinally => core.endFinally config
  | plain => do
      let (store, ip) ← core.store.perform config module.constantPool core.ip plain
      .ok (.next { core with store, ip })

def step (core : Core) : Except InterpreterError Outcome :=
  match module.instructions[core.ip]? with
  | none =>
    -- fell off the end of the instruction stream
    if core.callStack = [] then do
      .ok (.done (← core.store.readReg config 0) core)
    else core.completeReturn config .undefined
  | some instruction =>
    if core.instructionsExecuted ≥ config.instructionBudget then
      .error (.budgetExhausted core.instructionsExecuted config.instructionBudget)
    else
      { core with
        instructionsExecuted := core.instructionsExecuted + 1 }.executeInstruction config module
          instruction

def run (config : InterpreterConfig) (module : Ir3Module) :
    Nat → Core → Option (Except InterpreterError (Value × Core))
  | 0, _ => none
  | turns + 1, core =>
    match core.step config module with
    | .error error => some (.error error)
    | .ok (.next core) => run config module turns core
    | .ok (.done value core) => some (.ok (value, core))
    | .ok (.halted core) =>
      -- whatever is in `r0`
      some (.ok ((core.store.readReg config 0).toOption.getD .undefined, core))

def start (registers : List Value) (heap : Heap) : Core :=
  { store := { registers := registers.takeD config.maxRegisters .undefined, heap } }

/-- An upper bound for the turns of the run loop that are left: each one uses up an instruction of
the budget, which adds at most one call, or leaves a call. -/
def turnsLeft (core : Core) : Nat :=
  2 * (config.instructionBudget - core.instructionsExecuted) + core.depth + 1

def execute (registers : List Value) (heap : Heap) :
    Option (Except InterpreterError (Value × Core)) :=
  let core := start config registers heap
  run config module (core.turnsLeft config) core

end Core

end FrankenEngine.Interpreter
