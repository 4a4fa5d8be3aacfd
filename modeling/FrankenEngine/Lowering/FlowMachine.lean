import FrankenEngine.Lowering.ToIr2

/-!
# The labels of values along an execution

IR1 as a stack machine whose values are only labels. A branch goes either way,
so the runs of the machine are the paths through the code.
-/

set_option autoImplicit false

namespace FrankenEngine.Lowering

open Library Ir

inductive Completion where
  | thrown (value : Label)
  | returned (value : Label)

def Completion.value : Completion → Label
  | .thrown value | .returned value => value

/-- An active try statement, with the heights of the stack and of the finalizers where it
began. -/
structure Handler where
  catchLabel : Nat
  finallyLabel : Option Nat
  height : Nat
  depth : Nat

/-- Where a completion goes in a try statement; a return passes one without a finalizer. -/
def Handler.landing (handler : Handler) : Completion → Option Nat
  | .thrown _ => some handler.catchLabel
  | .returned _ => handler.finallyLabel

def unwindTo (completion : Completion) : List Handler → Option (Nat × Handler × List Handler)
  | [] => none
  | handler :: outer =>
    match handler.landing completion with
    | some label => some (label, handler, outer)
    | none => unwindTo completion outer

structure FlowMachine where
  pc : Nat := 0
  /-- The top is first. -/
  stack : List Label := []
  bindings : Nat → Option Label := fun _ => none
  handlers : List Handler := []
  /-- The completion that a finalizer is about to be entered with. -/
  incoming : Option Completion := none
  /-- The completions of the finalizers that are running. -/
  finalizers : List (Option Completion) := []

def keyOperands : Ir1PropertyKey → Nat
  | .static _ => 0
  | .dynamic => 1

def operandCount : Ir1Op → Nat
  | .loadLiteral _ | .loadBinding _ | .importModule _ | .loadThis | .declareFunction .. => 0
  | .label _ | .jump _ | .beginTry .. | .endTry | .enterFinally | .endFinally => 0
  | .call argCount | .construct argCount => argCount + 1
  | .binaryOp _ => 2
  | .getProperty key | .deleteProperty key => keyOperands key + 1
  | .setProperty key => keyOperands key + 2
  | .newArray count => count
  | .newObject count => 2 * count
  | .templateLiteral quasiCount => quasiCount + (quasiCount - 1)
  | .storeBinding _ | .ret | .exportBinding .. | .await | .nop | .unaryOp _ | .assignOp .. => 1
  | .jumpIfFalsy _ | .jumpIfFalsyConsume _ | .jumpIfTruthy _ | .jumpIfNullish _ => 1
  | .throw | .pop | .forInInit | .forInNext _ | .forOfInit | .forOfNext _ | .iteratorClose _ => 1

def joinLabels (labels : List Label) : Label := labels.foldr Label.join .publicData

namespace FlowMachine

variable (machine : FlowMachine)

def readBinding : Ir1Op → Option Label
  | .assignOp _ .assign => none
  | .assignOp bindingId _ => machine.bindings bindingId
  | _ => none

def consumed (op : Ir1Op) : List Label :=
  machine.stack.take (operandCount op) ++ (machine.readBinding op).toList

/-- A literal has the label the inference gives it, a binding that of the value written last, and
an operator the join of its operands' labels; what was never written is `undefined`. -/
def resultLabel : Ir1Op → Label
  | .loadLiteral value => inferDataLabelForOp (.loadLiteral value) .empty .publicData
  | .importModule _ => .internal
  | .loadBinding bindingId => (machine.bindings bindingId).getD .publicData
  | op => joinLabels (machine.consumed op)

def advance : FlowMachine := { machine with pc := machine.pc + 1 }

def goto (ops : List Ir1Op) (labelId : Nat) : Option FlowMachine :=
  (ops.idxOf? (.label labelId)).map fun pc => { machine with pc }

def drop (machine : FlowMachine) (count : Nat) : FlowMachine :=
  { machine with stack := machine.stack.drop count }

def push (value : Label) : FlowMachine :=
  { machine with stack := value :: machine.stack }

def write (bindingId : Nat) (value : Label) : FlowMachine :=
  { machine with
    bindings := fun other => if other = bindingId then some value else machine.bindings other }

def cutTo (handler : Handler) (outer : List Handler) : FlowMachine :=
  { machine with
    stack := machine.stack.drop (machine.stack.length - handler.height)
    handlers := outer
    incoming := none
    finalizers := machine.finalizers.drop (machine.finalizers.length - handler.depth) }

/-- A throw or a return: to a finalizer with the completion, to a catch clause with the value. -/
def transfer (ops : List Ir1Op) (completion : Completion) : Option FlowMachine :=
  match unwindTo completion machine.handlers with
  | none => none
  | some (label, handler, outer) =>
    let cut := machine.cutTo handler outer
    if handler.finallyLabel = some label then
      { cut with incoming := some completion }.goto ops label
    else (cut.push completion.value).goto ops label

/-- One operation; `taken` says which way a branch goes. The machine stops where the operands are
missing and where a throw or a return leaves the code. -/
def next (ops : List Ir1Op) (taken : Bool) : Option FlowMachine :=
  match ops[machine.pc]? with
  | none => none
  | some op =>
    let dropped := machine.drop (operandCount op)
    if machine.stack.length < operandCount op then none
    else
      match op with
      | .storeBinding bindingId | .assignOp bindingId _ | .declareFunction _ bindingId =>
        some ((dropped.write bindingId (machine.resultLabel op)).push (machine.resultLabel op)).advance
      | .exportBinding .. | .nop | .label _ => some machine.advance
      | .pop | .iteratorClose _ => some dropped.advance
      | .jump labelId => machine.goto ops labelId
      | .jumpIfFalsy labelId =>
        -- the condition stays on the stack
        if taken then machine.goto ops labelId else some machine.advance
      | .jumpIfFalsyConsume labelId | .jumpIfTruthy labelId | .jumpIfNullish labelId =>
        if taken then dropped.goto ops labelId else some dropped.advance
      | .forInNext doneLabel | .forOfNext doneLabel =>
        -- the iterator stays below its values until it is exhausted
        if taken then dropped.goto ops doneLabel
        else some (machine.push (machine.resultLabel op)).advance
      | .beginTry catchLabel finallyLabel =>
        some { machine.advance with
          handlers := { catchLabel, finallyLabel, height := machine.stack.length,
                        depth := machine.finalizers.length } :: machine.handlers }
      | .endTry => some { machine.advance with handlers := machine.handlers.tail }
      | .enterFinally =>
        some { machine.advance with
          incoming := none, finalizers := machine.incoming :: machine.finalizers }
      | .endFinally =>
        match machine.finalizers with
        | [] => none
        | none :: outer => some { machine.advance with finalizers := outer }
        | some completion :: outer =>
          { machine with finalizers := outer }.transfer ops completion
      | .throw =>
        machine.stack.head?.bind fun value => dropped.transfer ops (.thrown value)
      | .ret =>
        machine.stack.head?.bind fun value => dropped.transfer ops (.returned value)
      | op => some (dropped.push (machine.resultLabel op)).advance

end FlowMachine

/-- The paths through the code, as the states passed so far with the newest first. -/
inductive FlowPath (ops : List Ir1Op) : List FlowMachine → Prop where
  | start : FlowPath ops [{}]
  | step {machine machine' : FlowMachine} {earlier : List FlowMachine} (taken : Bool) :
      FlowPath ops (machine :: earlier) → machine.next ops taken = some machine' →
      FlowPath ops (machine' :: machine :: earlier)

end FrankenEngine.Lowering
