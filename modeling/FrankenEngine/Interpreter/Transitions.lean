import FrankenEngine.Interpreter.Core
import FrankenEngine.Library.Result

/-!
# What one turn of the run loop can do

Every turn that goes on is one of a few transitions of the control state. The
instructions that only compute are a single case: they change the store and
the instruction pointer and leave calls, handlers and completions alone.
-/

set_option autoImplicit false

namespace FrankenEngine.Ir

/-- The instructions that `Core.executeInstruction` does not leave to `Store.perform`. -/
def Ir3Instruction.isControl : Ir3Instruction → Bool
  | .call .. | .construct .. | .ret .. | .halt | .beginTry .. | .endTry | .throw ..
  | .enterCatch .. | .enterFinally | .endFinally => true
  | _ => false

end FrankenEngine.Ir

namespace FrankenEngine.Interpreter.Core

open Library Ir

def counted (core : Core) : Core :=
  { core with instructionsExecuted := core.instructionsExecuted + 1 }

inductive Transition (config : InterpreterConfig) (module : Ir3Module) (core : Core) :
    Core → Prop
  | plain {instruction : Ir3Instruction} {store : Store} {ip : Nat}
      (fetched : module.instructions[core.ip]? = some instruction)
      (ordinary : instruction.isControl = false)
      (performed : core.store.perform config module.constantPool core.ip instruction =
        .ok (store, ip)) :
      Transition config module core { core.counted with store, ip }
  | called {callee dst entry : Nat} {args : RegRange} {constructThis : Option Value}
      {store : Store}
      (fetched : module.instructions[core.ip]? = some (.call callee args dst) ∨
        module.instructions[core.ip]? = some (.construct callee args dst)) :
      Transition config module core
        { core.counted.pushCallFrame dst constructThis with store, ip := entry }
  | returned {reg : Nat} {value : Value} {after : Core}
      (fetched : module.instructions[core.ip]? = some (.ret reg))
      (read : core.store.readReg config reg = .ok value)
      (left : core.counted.returnValue config value = .ok (.next after)) :
      Transition config module core after
  | beganTry {catchTarget : Nat} {finallyTarget : Option Nat}
      (fetched : module.instructions[core.ip]? = some (.beginTry catchTarget finallyTarget)) :
      Transition config module core
        { core.counted with
          catchFrames :=
            { catchTarget, finallyTarget, callDepth := core.depth } :: core.catchFrames
          ip := core.ip + 1 }
  | endedTry (fetched : module.instructions[core.ip]? = some .endTry) :
      Transition config module core { core.counted.popCurrentTryFrame with ip := core.ip + 1 }
  | thrown {reg : Nat} {value : Value} {after : Core}
      (fetched : module.instructions[core.ip]? = some (.throw reg))
      (read : core.store.readReg config reg = .ok value)
      (raised : core.counted.throwValue value = .ok (.next after)) :
      Transition config module core after
  | caught {dst : Nat} {after : Core}
      (fetched : module.instructions[core.ip]? = some (.enterCatch dst))
      (entered : core.counted.enterCatch config dst = .ok (.next after)) :
      Transition config module core after
  | enteredFinally (fetched : module.instructions[core.ip]? = some .enterFinally) :
      Transition config module core core.counted.enterFinally
  | endedFinally {after : Core}
      (fetched : module.instructions[core.ip]? = some .endFinally)
      (ended : core.counted.endFinally config = .ok (.next after)) :
      Transition config module core after
  | fellOff {after : Core} (missing : module.instructions[core.ip]? = none)
      (inside : core.callStack ≠ [])
      (left : core.completeReturn config .undefined = .ok (.next after)) :
      Transition config module core after

variable {config : InterpreterConfig} {module : Ir3Module} {core after : Core}

variable {instruction : Ir3Instruction}

theorem executeInstruction_plain (ordinary : instruction.isControl = false) :
    core.executeInstruction config module instruction =
      (core.store.perform config module.constantPool core.ip instruction >>= fun performed =>
        .ok (.next { core with store := performed.1, ip := performed.2 })) := by
  cases instruction <;> first | rfl | cases ordinary

theorem next_of_call {callee dst : Nat} {args : RegRange}
    (called : core.call config module callee args dst = .ok (.next after)) :
    ∃ store entry, after = { core.pushCallFrame dst none with store, ip := entry } := by
  obtain ⟨_, _, called⟩ := bind_ok called
  obtain ⟨_, _, called⟩ := bind_ok called
  obtain ⟨store, _, called⟩ := bind_ok called
  cases called
  exact ⟨store, _, rfl⟩

theorem next_of_construct {callee dst : Nat} {args : RegRange}
    (constructed : core.construct config module callee args dst = .ok (.next after)) :
    ∃ thisVal store entry,
      after = { core.pushCallFrame dst thisVal with store, ip := entry } := by
  obtain ⟨_, _, constructed⟩ := bind_ok constructed
  obtain ⟨_, _, constructed⟩ := bind_ok constructed
  obtain ⟨_, _, constructed⟩ := bind_ok constructed
  obtain ⟨store, _, constructed⟩ := bind_ok constructed
  cases constructed
  exact ⟨_, store, _, rfl⟩

theorem transition_of_executeInstruction
    (fetched : module.instructions[core.ip]? = some instruction)
    (executed : core.counted.executeInstruction config module instruction = .ok (.next after)) :
    Transition config module core after := by
  cases control : instruction.isControl with
  | false =>
    rw [executeInstruction_plain control] at executed
    obtain ⟨⟨store, ip⟩, performed, executed⟩ := bind_ok executed
    cases executed
    exact .plain fetched control performed
  | true =>
    cases instruction with
    | call callee args dst =>
      obtain ⟨store, entry, rfl⟩ := next_of_call executed
      exact .called (.inl fetched)
    | construct callee args dst =>
      obtain ⟨thisVal, store, entry, rfl⟩ := next_of_construct executed
      exact .called (.inr fetched)
    | ret reg =>
      obtain ⟨value, read, left⟩ := bind_ok executed
      exact .returned fetched read left
    | halt => cases executed
    | beginTry catchTarget finallyTarget =>
      cases executed
      exact .beganTry fetched
    | endTry =>
      cases executed
      exact .endedTry fetched
    | throw reg =>
      obtain ⟨value, read, raised⟩ := bind_ok executed
      exact .thrown fetched read raised
    | enterCatch dst => exact .caught fetched executed
    | enterFinally =>
      cases executed
      exact .enteredFinally fetched
    | endFinally => exact .endedFinally fetched executed
    | _ => cases control

theorem transition_of_step (stepped : core.step config module = .ok (.next after)) :
    Transition config module core after := by
  unfold step at stepped
  split at stepped
  next missing =>
    split at stepped
    next =>
      obtain ⟨_, _, stepped⟩ := bind_ok stepped
      cases stepped
    next inside => exact .fellOff missing inside stepped
  next instruction fetched =>
    split at stepped
    next => cases stepped
    next => exact transition_of_executeInstruction fetched stepped

theorem raise_next {thrown : Value} (raised : core.raise thrown = .ok (.next after)) :
    ∃ handler below,
      popFrame (fun frame => frame.callDepth ≤ core.depth) core.catchFrames =
        some (handler, below) ∧
      after =
        let unwound := { core with catchFrames := below }.unwindCallStackTo handler.callDepth
        { unwound.1.suspendAbruptCompletion unwound.2.1 unwound.2.2 with
          ip := handler.catchTarget } := by
  unfold raise popExceptionTargetFrame at raised
  cases found : popFrame (fun frame => frame.callDepth ≤ core.depth) core.catchFrames with
  | none =>
    rw [found] at raised
    cases raised
  | some popped =>
    rw [found] at raised
    cases raised
    exact ⟨popped.1, popped.2, rfl, rfl⟩

theorem completeReturn_next {value : Value}
    (left : core.completeReturn config value = .ok (.next after)) :
    ∃ frame, core.callStack = frame :: after.callStack ∧
      after.instructionsExecuted = core.instructionsExecuted ∧
      after.pendingException = frame.savedPendingException ∧
      after.pendingReturn = frame.savedPendingReturn := by
  unfold completeReturn at left
  split at left
  next frame rest calls =>
    obtain ⟨store, _, left⟩ := bind_ok left
    cases left
    exact ⟨frame, calls, rfl, rfl, rfl⟩
  next => cases left

theorem returnThrough_next {value : Value}
    (left : core.returnThrough config value = .ok (.next after)) :
    (∃ below target,
      after = { core with catchFrames := below, pendingReturn := some value, ip := target }) ∨
    { core with pendingReturn := none }.completeReturn config value = .ok (.next after) := by
  unfold returnThrough popCurrentFinallyTarget at left
  split at left
  next target inner popped =>
    split at popped
    next frame below _ =>
      obtain ⟨_, _, same⟩ := Option.map_eq_some_iff.mp popped
      cases same
      cases left
      exact .inl ⟨below, _, rfl⟩
    next => cases popped
  next => exact .inr left

/-- Some of the newest calls are left and no instruction is counted. -/
structure Drops (core after : Core) : Prop where
  callStack : ∃ count, after.callStack = core.callStack.drop count
  executed : after.instructionsExecuted = core.instructionsExecuted

namespace Drops

variable {middle : Core}

theorem refl (sameCalls : after.callStack = core.callStack)
    (sameCount : after.instructionsExecuted = core.instructionsExecuted) : Drops core after :=
  ⟨⟨0, sameCalls⟩, sameCount⟩

theorem trans (first : Drops core middle) (second : Drops middle after) : Drops core after := by
  obtain ⟨left, leftCalls⟩ := first.callStack
  obtain ⟨right, rightCalls⟩ := second.callStack
  refine ⟨⟨left + right, ?_⟩, second.executed.trans first.executed⟩
  rw [rightCalls, leftCalls, List.drop_drop]

theorem depth_le (drops : Drops core after) : after.depth ≤ core.depth := by
  obtain ⟨count, calls⟩ := drops.callStack
  unfold depth
  rw [calls, List.length_drop]
  exact Nat.sub_le _ _

theorem callStack_eq (drops : Drops core after) :
    after.callStack = core.callStack.drop (core.depth - after.depth) := by
  obtain ⟨count, calls⟩ := drops.callStack
  unfold depth
  rw [calls, List.length_drop]
  rcases Nat.le_total count core.callStack.length with inside | beyond
  · rw [Nat.sub_sub_self inside]
  · rw [List.drop_of_length_le beyond, List.drop_of_length_le (by omega)]

end Drops

theorem drops_popCurrentTryFrame : Drops core core.popCurrentTryFrame := by
  unfold popCurrentTryFrame
  split
  next => exact .refl rfl rfl
  next => exact .refl rfl rfl

theorem frame_suspendCurrent :
    core.suspendCurrentAbruptCompletion.callStack = core.callStack ∧
      core.suspendCurrentAbruptCompletion.instructionsExecuted = core.instructionsExecuted := by
  unfold suspendCurrentAbruptCompletion takeCurrentAbruptCompletion
  cases core.pendingException with
  | some exception => exact ⟨rfl, rfl⟩
  | none => cases core.pendingReturn <;> exact ⟨rfl, rfl⟩

theorem drops_suspendCurrent : Drops core core.suspendCurrentAbruptCompletion :=
  .refl frame_suspendCurrent.1 frame_suspendCurrent.2

theorem drops_restoreSuspended : Drops core core.restoreSuspendedAbruptCompletion := by
  unfold restoreSuspendedAbruptCompletion
  split
  next => exact .refl rfl rfl
  next =>
    split
    next => exact .refl rfl rfl
    next => exact .refl rfl rfl
    next => exact .refl rfl rfl

theorem drops_foldl_pop (frames : List CallFrame) (unwinding : Unwinding) :
    Drops unwinding.core (frames.foldl Unwinding.pop unwinding).core := by
  refine List.foldlRecOn (motive := fun popped : Unwinding => Drops unwinding.core popped.core)
    frames _ (.refl rfl rfl) fun popped drops frame _ => drops.trans ?_
  exact ⟨⟨1, rfl⟩, rfl⟩

theorem drops_unwindCallStackTo (targetDepth : Nat) :
    Drops core (core.unwindCallStackTo targetDepth).1 := by
  have popped := drops_foldl_pop
    (core.callStack.take (core.callStack.length - targetDepth)) { core }
  unfold unwindCallStackTo
  dsimp only
  split
  next => exact popped.trans (.refl rfl rfl)
  next => exact popped

theorem drops_raise {thrown : Value} (raised : core.raise thrown = .ok (.next after)) :
    Drops core after := by
  obtain ⟨handler, below, -, rfl⟩ := raise_next raised
  have handlers : Drops core { core with catchFrames := below } := .refl rfl rfl
  have frames := handlers.trans (drops_unwindCallStackTo handler.callDepth)
  exact frames.trans (.refl rfl rfl)

theorem drops_completeReturn {value : Value}
    (left : core.completeReturn config value = .ok (.next after)) :
    Drops core after ∧ after.depth + 1 = core.depth := by
  obtain ⟨frame, calls, executed, -⟩ := completeReturn_next left
  exact ⟨⟨⟨1, by rw [calls]; rfl⟩, executed⟩, by simp [depth, calls]⟩

theorem drops_returnThrough {value : Value}
    (left : core.returnThrough config value = .ok (.next after)) : Drops core after := by
  rcases returnThrough_next left with ⟨below, target, rfl⟩ | left
  · exact .refl rfl rfl
  · have quiet : Drops core { core with pendingReturn := none } := .refl rfl rfl
    exact quiet.trans (drops_completeReturn left).1

theorem drops_throwValue {thrown : Value} (raised : core.throwValue thrown = .ok (.next after)) :
    Drops core after := by
  have suspended : Drops core
      { core.suspendCurrentAbruptCompletion with
        pendingReturn := none
        pendingException := some thrown } := drops_suspendCurrent.trans (.refl rfl rfl)
  exact suspended.trans (drops_raise raised)

theorem drops_returnValue {value : Value}
    (left : core.returnValue config value = .ok (.next after)) : Drops core after := by
  have suspended : Drops core
      { core.suspendCurrentAbruptCompletion with pendingException := none } :=
    drops_suspendCurrent.trans (.refl rfl rfl)
  exact suspended.trans (drops_returnThrough left)

theorem drops_enterCatch {dst : Nat}
    (entered : core.enterCatch config dst = .ok (.next after)) : Drops core after := by
  obtain ⟨store, _, entered⟩ := bind_ok entered
  cases entered
  have taken : Drops core { core with pendingException := none } := .refl rfl rfl
  exact (taken.trans drops_restoreSuspended).trans (.refl rfl rfl)

theorem drops_endFinally (ended : core.endFinally config = .ok (.next after)) :
    Drops core after := by
  have popped : Drops core { core with finallyModes := core.finallyModes.drop 1 } := .refl rfl rfl
  unfold endFinally at ended
  dsimp only at ended
  split at ended
  next => exact popped.trans (drops_raise ended)
  next => exact popped.trans (drops_returnThrough ended)
  next =>
    cases ended
    exact .refl rfl rfl

/-- A turn enters one call, or it leaves calls; only a turn that leaves a call counts no
instruction. -/
theorem calls_of_transition (transition : Transition config module core after) :
    (∃ returnReg constructThis store entry,
      after = { core.counted.pushCallFrame returnReg constructThis with store, ip := entry }) ∨
    Drops core.counted after ∨ Drops core after ∧ after.depth + 1 = core.depth := by
  cases transition with
  | plain | beganTry | enteredFinally => exact .inr (.inl (.refl rfl rfl))
  | called => exact .inl ⟨_, _, _, _, rfl⟩
  | returned _ _ left => exact .inr (.inl (drops_returnValue left))
  | endedTry => exact .inr (.inl (drops_popCurrentTryFrame.trans (.refl rfl rfl)))
  | thrown _ _ raised => exact .inr (.inl (drops_throwValue raised))
  | caught _ entered => exact .inr (.inl (drops_enterCatch entered))
  | endedFinally _ ended => exact .inr (.inl (drops_endFinally ended))
  | fellOff _ _ left => exact .inr (.inr (drops_completeReturn left))

theorem executed_of_step {outcome : Outcome}
    (fetched : module.instructions[core.ip]? = some instruction)
    (stepped : core.step config module = .ok outcome) :
    core.instructionsExecuted < config.instructionBudget ∧
      core.counted.executeInstruction config module instruction = .ok outcome := by
  unfold step at stepped
  rw [fetched] at stepped
  dsimp only at stepped
  split at stepped
  next => cases stepped
  next inBudget => exact ⟨Nat.lt_of_not_le inBudget, stepped⟩

theorem turnsLeft_lt_of_step (stepped : core.step config module = .ok (.next after)) :
    after.turnsLeft config < core.turnsLeft config := by
  have transition := transition_of_step stepped
  unfold turnsLeft
  cases fetched : module.instructions[core.ip]? with
  | none =>
    cases transition with
    | fellOff _ _ left =>
      have leaves := drops_completeReturn left
      have sameCount := leaves.1.executed
      omega
    | called found => simp [fetched] at found
    | plain found | returned found | beganTry found | endedTry found | thrown found
    | caught found | enteredFinally found | endedFinally found => simp [fetched] at found
  | some instruction =>
    have inBudget := (executed_of_step fetched stepped).1
    rcases calls_of_transition transition with ⟨_, _, _, _, rfl⟩ | drops | leaves
    · simp only [depth, counted, pushCallFrame, List.length_cons]
      omega
    · have shallower := drops.depth_le
      have counted : after.instructionsExecuted = core.instructionsExecuted + 1 :=
        drops.executed
      have sameDepth : core.counted.depth = core.depth := rfl
      omega
    · have sameCount := leaves.1.executed
      omega

/-- The run loop ends within its bound, so `execute` always has a result. -/
theorem run_isSome (turns : Nat) (core : Core) (enough : core.turnsLeft config ≤ turns) :
    (run config module turns core).isSome := by
  induction turns generalizing core with
  | zero => simp [turnsLeft] at enough
  | succ turns ih =>
    unfold run
    split
    next => rfl
    next after stepped => exact ih after (by have := turnsLeft_lt_of_step stepped; omega)
    next => rfl
    next => rfl

theorem execute_ends (registers : List Value) (heap : Heap) :
    (execute config module registers heap).isSome :=
  run_isSome _ _ (Nat.le_refl _)

end FrankenEngine.Interpreter.Core
