import FrankenEngine.Label

/-!
# The intermediate representations

The operators of `ast.rs` and the instructions of `ir_contract.rs`. IR1 and its
annotated form IR2 are code for a stack of values, IR3 is what the baseline
interpreter runs. Its operators that read two registers and write a third
differ only in the operation, so they are one constructor here, and so are
those that read one register.
-/

set_option autoImplicit false

namespace FrankenEngine.Ir

inductive BinaryOperator where
  | add | subtract | multiply | divide | remainder | exponentiate
  | equal | notEqual | strictEqual | strictNotEqual
  | lessThan | lessThanOrEqual | greaterThan | greaterThanOrEqual
  | logicalAnd | logicalOr | nullishCoalescing
  | bitwiseAnd | bitwiseOr | bitwiseXor
  | leftShift | rightShift | unsignedRightShift
  | instanceof | inOperator
  deriving DecidableEq, Repr

inductive UnaryOperator where
  | negate | bitwiseNot | logicalNot | typeof | void | delete | unaryPlus
  deriving DecidableEq, Repr

inductive AssignmentOperator where
  | assign
  | addAssign | subtractAssign | multiplyAssign | divideAssign | remainderAssign
  | exponentiateAssign | leftShiftAssign | rightShiftAssign | unsignedRightShiftAssign
  | bitwiseAndAssign | bitwiseOrAssign | bitwiseXorAssign
  | logicalAndAssign | logicalOrAssign | nullishCoalescingAssign
  deriving DecidableEq, Repr

/-- `u32::MAX`: registers, labels, bindings and instruction indices are 32-bit in the source. -/
def u32Max : Nat := 0xFFFFFFFF

structure RegRange where
  start : Nat
  count : Nat
  deriving DecidableEq, Repr

inductive IteratorCloseReason where
  | breakLoop
  | returnValue
  | throwValue
  deriving DecidableEq, Repr

inductive BinaryInstruction where
  | add | sub | mul | div | mod | exp
  | lt | lte | gt | gte
  | eq | strictEq | notEq | strictNotEq
  | bitAnd | bitOr | bitXor | shl | shr | ushr
  | instanceOf | inOp
  deriving DecidableEq, Repr

inductive UnaryInstruction where
  | unaryNeg | unaryPlus | logicalNot | bitNot | typeOf | void
  deriving DecidableEq, Repr

inductive Ir3Instruction where
  | loadInt (dst : Nat) (value : Int64)
  | loadStr (dst poolIndex : Nat)
  | loadBool (dst : Nat) (value : Bool)
  | loadNull (dst : Nat)
  | loadUndefined (dst : Nat)
  | binary (operator : BinaryInstruction) (dst lhs rhs : Nat)
  | unary (operator : UnaryInstruction) (dst src : Nat)
  | construct (callee : Nat) (args : RegRange) (dst : Nat)
  | forInInit (src dst : Nat)
  | forInNext (iterator valueDst doneTarget : Nat)
  | forOfInit (src dst : Nat)
  | forOfNext (iterator valueDst doneTarget : Nat)
  | iteratorClose (iterator : Nat) (reason : IteratorCloseReason)
  | move (dst src : Nat)
  | jump (target : Nat)
  | jumpIf (cond target : Nat)
  | jumpIfNullish (cond target : Nat)
  | call (callee : Nat) (args : RegRange) (dst : Nat)
  | ret (value : Nat)
  | hostCall (capability : String) (args : RegRange) (dst : Nat)
  | getProperty (obj key dst : Nat)
  | setProperty (obj key val : Nat)
  | deleteProperty (obj key dst : Nat)
  | newObject (dst : Nat)
  | newArray (dst : Nat)
  | templateLiteral (parts : RegRange) (dst : Nat)
  | halt
  | beginTry (catchTarget : Nat) (finallyTarget : Option Nat)
  | endTry
  | throw (value : Nat)
  | enterCatch (dst : Nat)
  | enterFinally
  | endFinally
  deriving DecidableEq, Repr

structure Ir3FunctionDesc where
  entry : Nat
  arity : Nat
  frameSize : Nat
  name : Option String
  deriving Repr

structure Ir3Module where
  instructions : List Ir3Instruction
  constantPool : List String := []
  functionTable : List Ir3FunctionDesc := []
  requiredCapabilities : List String := []

inductive BindingKind where
  | letKind | constKind | varKind | parameter | importKind | functionDecl
  deriving DecidableEq, Repr

structure ResolvedBinding where
  name : String
  bindingId : Nat
  kind : BindingKind
  deriving Repr

inductive Ir1PropertyKey where
  | static (key : String)
  | dynamic
  deriving DecidableEq, Repr

inductive Ir1Literal where
  | string (value : String)
  | integer (value : Int64)
  | boolean (value : Bool)
  | null
  | undefined
  deriving DecidableEq, Repr

inductive Ir1Op where
  | loadLiteral (value : Ir1Literal)
  | loadBinding (bindingId : Nat)
  | storeBinding (bindingId : Nat)
  | call (argCount : Nat)
  | ret
  | importModule (specifier : String)
  | exportBinding (name : String) (bindingId : Nat)
  | await
  | nop
  | binaryOp (operator : BinaryOperator)
  | unaryOp (operator : UnaryOperator)
  | assignOp (bindingId : Nat) (operator : AssignmentOperator)
  | label (id : Nat)
  | jump (labelId : Nat)
  | jumpIfFalsy (labelId : Nat)
  | jumpIfFalsyConsume (labelId : Nat)
  | jumpIfTruthy (labelId : Nat)
  | jumpIfNullish (labelId : Nat)
  | getProperty (key : Ir1PropertyKey)
  | setProperty (key : Ir1PropertyKey)
  | deleteProperty (key : Ir1PropertyKey)
  | newArray (count : Nat)
  | newObject (count : Nat)
  | throw
  | loadThis
  | declareFunction (name : String) (bindingId : Nat)
  | beginTry (catchLabel : Nat) (finallyLabel : Option Nat)
  | endTry
  | enterFinally
  | endFinally
  | pop
  | forInInit
  | forInNext (doneLabel : Nat)
  | forOfInit
  | forOfNext (doneLabel : Nat)
  | iteratorClose (reason : IteratorCloseReason)
  | construct (argCount : Nat)
  | templateLiteral (quasiCount : Nat)
  deriving DecidableEq, Repr

structure Ir1Module where
  bindings : List ResolvedBinding
  ops : List Ir1Op

inductive EffectBoundary where
  | pure
  | readEffect
  | writeEffect
  | networkEffect
  | fsEffect
  | hostcallEffect
  deriving DecidableEq, Repr

structure FlowAnnotation where
  dataLabel : Label
  sinkClearance : Label
  declassificationRequired : Bool
  deriving DecidableEq, Repr

structure Ir2Op where
  inner : Ir1Op
  effect : EffectBoundary
  requiredCapability : Option String
  flow : Option FlowAnnotation

structure Ir2Module where
  ops : List Ir2Op
  requiredCapabilities : List String

end FrankenEngine.Ir
