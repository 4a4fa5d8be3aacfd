import FrankenEngine.Interpreter.Transitions
import Mathlib.Data.List.Forall2

/-!
# Unwinding across calls

A call saves the completion its caller has in flight, and unwinding to a
handler of an outer call merges what the frames it pops have saved. This module
relates the saved completions to the states that made the calls, over whole
runs, and says when the merge gives the catching call its own completion back.
-/

set_option autoImplicit false

namespace FrankenEngine.Interpreter

open Library Ir List CallFrame

namespace Core

def inFlight (core : Core) : Option AbruptCompletion :=
  match core.pendingException with
  | some exception => some (.exception exception)
  | none => core.pendingReturn.map .returning

end Core

def CallFrame.savedCompletions (frame : CallFrame) : List AbruptCompletion :=
  (frame.savedPendingException.map .exception).toList ++
    (frame.savedPendingReturn.map .returning).toList

namespace Core

def completions (core : Core) : List AbruptCompletion :=
  (core.pendingException.map .exception).toList ++
    (core.pendingReturn.map .returning).toList ++
    core.suspendedAbruptCompletions ++ core.callStack.flatMap CallFrame.savedCompletions

/-- A run from the start of an execution, with the states that made its outstanding calls, the
newest first. -/
inductive Run (config : InterpreterConfig) (module : Ir3Module) : List Core → Core → Prop
  | start (registers : List Value) (heap : Heap) :
      Run config module [] (Core.start config registers heap)
  | enter {calls : List Core} {core after : Core} (run : Run config module calls core)
      (stepped : core.step config module = .ok (.next after))
      (deeper : after.depth = core.depth + 1) : Run config module (core :: calls) after
  | stay {calls : List Core} {core after : Core} (run : Run config module calls core)
      (stepped : core.step config module = .ok (.next after))
      (shallower : after.depth ≤ core.depth) :
      Run config module (calls.drop (core.depth - after.depth)) after

/-- The next turn looks for the handler of an exception: it throws, or it ends a finalizer that
an exception had entered. -/
def Raising (module : Ir3Module) (core : Core) : Prop :=
  (∃ reg, module.instructions[core.ip]? = some (.throw reg)) ∨
    module.instructions[core.ip]? = some .endFinally ∧
      core.finallyModes.head? = some .exception ∧ core.pendingException.isSome

/-- The suspended completions that an exception is raised over. A throw first suspends what is in
flight. -/
def raisedOver (module : Ir3Module) (core : Core) : List AbruptCompletion :=
  match module.instructions[core.ip]? with
  | some (.throw _) => core.inFlight.toList ++ core.suspendedAbruptCompletions
  | _ => core.suspendedAbruptCompletions

/-- The assertion of `suspend_abrupt_completion`, for the completions that unwinding to a depth
hands to it. -/
def AtMostOneActive (core : Core) (targetDepth : Nat) : Prop :=
  (core.unwindCallStackTo targetDepth).2.1 = none ∨
    (core.unwindCallStackTo targetDepth).2.2 = none

variable {config : InterpreterConfig} {module : Ir3Module} {core after : Core}

/-!
## At most one completion is pending
-/

structure Single (core : Core) : Prop where
  pending : core.pendingException = none ∨ core.pendingReturn = none
  saved : ∀ frame ∈ core.callStack,
    frame.savedPendingException = none ∨ frame.savedPendingReturn = none

namespace Single

theorem of_pending (single : core.Single)
    (dropped : ∃ count, after.callStack = core.callStack.drop count)
    (pending : after.pendingException = none ∨ after.pendingReturn = none) : after.Single := by
  refine ⟨pending, ?_⟩
  obtain ⟨count, calls⟩ := dropped
  intro frame member
  rw [calls] at member
  exact single.saved frame (mem_of_mem_drop member)

theorem of_same (single : core.Single)
    (dropped : ∃ count, after.callStack = core.callStack.drop count)
    (sameException : after.pendingException = core.pendingException)
    (sameReturn : after.pendingReturn = core.pendingReturn) : after.Single :=
  single.of_pending dropped (by rw [sameException, sameReturn]; exact single.pending)

theorem completeReturn {value : Value} (single : core.Single)
    (left : core.completeReturn config value = .ok (.next after)) : after.Single := by
  obtain ⟨frame, calls, -, exception, returned⟩ := completeReturn_next left
  refine single.of_pending (drops_completeReturn left).1.callStack ?_
  rw [exception, returned]
  exact single.saved frame (by rw [calls]; exact .head _)

end Single

/-!
## What unwinding leaves
-/

/-- Popping frames only merges what they saved: the first exception and the first return found
on the way down. -/
structure Unwinding.Merges (unwinding : Unwinding) (frames : List CallFrame)
    (merged : Unwinding) : Prop where
  pendingException : merged.core.pendingException = unwinding.core.pendingException
  pendingReturn : merged.core.pendingReturn = unwinding.core.pendingReturn
  suspended : merged.core.suspendedAbruptCompletions = unwinding.core.suspendedAbruptCompletions
  callStack : merged.core.callStack = unwinding.core.callStack.drop frames.length
  restoredException : merged.restoredPendingException =
    unwinding.restoredPendingException.or (frames.findSome? CallFrame.savedPendingException)
  restoredReturn : merged.restoredPendingReturn =
    unwinding.restoredPendingReturn.or (frames.findSome? CallFrame.savedPendingReturn)

theorem Unwinding.merges_foldl_pop (frames : List CallFrame) (unwinding : Unwinding) :
    unwinding.Merges frames (frames.foldl Unwinding.pop unwinding) := by
  induction frames generalizing unwinding with
  | nil => exact ⟨rfl, rfl, rfl, rfl, by simp, by simp⟩
  | cons frame rest ih =>
    have merged := ih (unwinding.pop frame)
    refine ⟨merged.pendingException, merged.pendingReturn, merged.suspended, ?_, ?_, ?_⟩
    · rw [foldl_cons, merged.callStack, Unwinding.pop, drop_drop, length_cons, Nat.add_comm]
    · rw [foldl_cons, merged.restoredException, Unwinding.pop, Option.or_assoc, findSome?_cons]
      cases frame.savedPendingException <;> rfl
    · rw [foldl_cons, merged.restoredReturn, Unwinding.pop, Option.or_assoc, findSome?_cons]
      cases frame.savedPendingReturn <;> rfl

theorem unwindCallStackTo_split {deeper outer : List CallFrame} {catcher : CallFrame}
    (calls : core.callStack = deeper ++ catcher :: outer) :
    (core.unwindCallStackTo outer.length).2.1 =
        (deeper.findSome? savedPendingException).or catcher.savedPendingException ∧
      (core.unwindCallStackTo outer.length).2.2 =
        (deeper.findSome? savedPendingReturn).or catcher.savedPendingReturn ∧
      (core.unwindCallStackTo outer.length).1.suspendedAbruptCompletions =
        truncate core.suspendedAbruptCompletions catcher.savedSuspendedAbruptDepth := by
  have frames : core.callStack.take (core.callStack.length - outer.length) =
      deeper ++ [catcher] := by
    have count : core.callStack.length - outer.length = (deeper ++ [catcher]).length := by
      simp [calls]
      omega
    rw [count, calls, append_cons deeper catcher outer]
    exact take_left
  have merged := Unwinding.merges_foldl_pop (deeper ++ [catcher]) { core }
  have last : ((deeper ++ [catcher]).foldl Unwinding.pop { core }).restoredSuspendedAbruptDepth =
      some catcher.savedSuspendedAbruptDepth := by
    rw [foldl_append]
    rfl
  refine ⟨?_, ?_, ?_⟩
  · unfold unwindCallStackTo
    dsimp only
    rw [frames, merged.restoredException, findSome?_append, findSome?_singleton]
    rfl
  · unfold unwindCallStackTo
    dsimp only
    rw [frames, merged.restoredReturn, findSome?_append, findSome?_singleton]
    rfl
  · unfold unwindCallStackTo
    dsimp only
    rw [frames, last]
    rw [merged.suspended]

theorem pending_raise {thrown : Value} (raised : core.raise thrown = .ok (.next after)) :
    after.pendingException = core.pendingException ∧
      after.pendingReturn = core.pendingReturn := by
  obtain ⟨handler, below, -, rfl⟩ := raise_next raised
  have merged := Unwinding.merges_foldl_pop
    (core.callStack.take (core.callStack.length - handler.callDepth))
    { core := { core with catchFrames := below } }
  unfold suspendAbruptCompletion unwindCallStackTo
  dsimp only
  split
  next => exact ⟨merged.pendingException, merged.pendingReturn⟩
  next => exact ⟨merged.pendingException, merged.pendingReturn⟩

/-!
## One completion at a time, along whole runs
-/

namespace Single

variable (single : core.Single)

include single

theorem returnThrough {value : Value} (noException : core.pendingException = none)
    (left : core.returnThrough config value = .ok (.next after)) : after.Single := by
  rcases returnThrough_next left with ⟨below, target, rfl⟩ | left
  · exact single.of_pending ⟨0, rfl⟩ (.inl noException)
  · have quiet : { core with pendingReturn := none }.Single :=
      single.of_pending ⟨0, rfl⟩ (.inr rfl)
    exact quiet.completeReturn left

theorem enterCatch {dst : Nat} (entered : core.enterCatch config dst = .ok (.next after)) :
    after.Single := by
  have drops := drops_enterCatch entered
  obtain ⟨store, _, entered⟩ := bind_ok entered
  cases entered
  refine single.of_pending drops.callStack ?_
  unfold restoreSuspendedAbruptCompletion
  split
  next => exact .inl rfl
  next empty =>
    have noReturn : core.pendingReturn = none := by simpa using empty
    split
    next => exact .inr noReturn
    next => exact .inl rfl
    next => exact .inl rfl

theorem endFinally (ended : core.endFinally config = .ok (.next after)) : after.Single := by
  have drops := drops_endFinally ended
  unfold Core.endFinally at ended
  dsimp only at ended
  split at ended
  next =>
    have kept := pending_raise ended
    exact single.of_same drops.callStack kept.1 kept.2
  next value _ pendingReturn =>
    have noException : core.pendingException = none := by
      rcases single.pending with noException | noReturn
      · exact noException
      · rw [noReturn] at pendingReturn
        cases pendingReturn
    have popped : { core with finallyModes := core.finallyModes.drop 1 }.Single :=
      single.of_same ⟨0, rfl⟩ rfl rfl
    exact popped.returnThrough noException ended
  next =>
    cases ended
    exact single.of_same drops.callStack rfl rfl

theorem transition (next : Transition config module core after) : after.Single := by
  have counted : core.counted.Single := single.of_same ⟨0, rfl⟩ rfl rfl
  cases next with
  | plain | beganTry | enteredFinally => exact counted.of_same ⟨0, rfl⟩ rfl rfl
  | called =>
    refine ⟨.inl rfl, ?_⟩
    intro frame member
    rcases mem_cons.mp member with rfl | member
    · exact single.pending
    · exact single.saved frame member
  | returned _ _ left =>
    have suspended : Drops core.counted core.counted.suspendCurrentAbruptCompletion :=
      drops_suspendCurrent
    have quiet :
        { core.counted.suspendCurrentAbruptCompletion with pendingException := none }.Single :=
      counted.of_pending suspended.callStack (.inl rfl)
    exact quiet.returnThrough rfl left
  | endedTry =>
    have popped : Drops core.counted core.counted.popCurrentTryFrame := drops_popCurrentTryFrame
    refine counted.of_pending popped.callStack ?_
    unfold popCurrentTryFrame
    split
    next => exact single.pending
    next => exact single.pending
  | thrown _ _ raised =>
    exact counted.of_pending (drops_throwValue raised).callStack (.inr (pending_raise raised).2)
  | caught _ entered => exact counted.enterCatch entered
  | endedFinally _ ended => exact counted.endFinally ended
  | fellOff _ _ left => exact single.completeReturn left

omit single

theorem run {calls : List Core} (reached : Run config module calls core) : core.Single := by
  induction reached with
  | start => exact ⟨.inl rfl, fun _ member => by cases member⟩
  | enter _ stepped _ ih => exact ih.transition (transition_of_step stepped)
  | stay _ stepped _ ih => exact ih.transition (transition_of_step stepped)

end Single

/-!
## Frames keep what their callers had in flight
-/

structure Saves (caller : Core) (frame : CallFrame) : Prop where
  pendingException : frame.savedPendingException = caller.pendingException
  pendingReturn : frame.savedPendingReturn = caller.pendingReturn
  suspendedDepth : frame.savedSuspendedAbruptDepth = caller.suspendedAbruptCompletions.length

theorem saves_of_step (stepped : core.step config module = .ok (.next after)) :
    (after.depth = core.depth + 1 ∧
      ∃ frame, after.callStack = frame :: core.callStack ∧ Saves core frame) ∨
    (after.depth ≤ core.depth ∧
      after.callStack = core.callStack.drop (core.depth - after.depth)) := by
  rcases calls_of_transition (transition_of_step stepped) with
    ⟨_, _, _, _, rfl⟩ | drops | ⟨drops, _⟩
  · exact .inl ⟨rfl, _, rfl, rfl, rfl, rfl⟩
  · exact .inr ⟨drops.depth_le, drops.callStack_eq⟩
  · exact .inr ⟨drops.depth_le, drops.callStack_eq⟩

theorem saves_of_run {calls : List Core} (reached : Run config module calls core) :
    Forall₂ Saves calls core.callStack := by
  induction reached with
  | start => exact .nil
  | enter _ stepped deeper ih =>
    obtain ⟨_, frame, pushed, saved⟩ | ⟨shallower, _⟩ := saves_of_step stepped
    · rw [pushed]
      exact .cons saved ih
    · omega
  | stay _ stepped shallower ih =>
    obtain ⟨deeper, _⟩ | ⟨_, left⟩ := saves_of_step stepped
    · omega
    · rw [left]
      exact forall₂_drop _ ih

theorem saves_split {deeper outer : List Core} {catcher : Core} {frames : List CallFrame}
    (saves : Forall₂ Saves (deeper ++ catcher :: outer) frames) :
    ∃ deeperFrames catcherFrame outerFrames,
      frames = deeperFrames ++ catcherFrame :: outerFrames ∧
        Forall₂ Saves deeper deeperFrames ∧ Saves catcher catcherFrame ∧
        outerFrames.length = outer.length := by
  induction deeper generalizing frames with
  | nil =>
    cases saves with
    | @cons _ frame _ rest saved outerSaves =>
      exact ⟨[], frame, rest, rfl, .nil, saved, outerSaves.length_eq.symm⟩
  | cons caller rest ih =>
    cases saves with
    | @cons _ frame _ _ saved restSaves =>
      obtain ⟨deeperFrames, catcherFrame, outerFrames, rfl, inner, own, length⟩ := ih restSaves
      exact ⟨frame :: deeperFrames, catcherFrame, outerFrames, rfl, .cons saved inner, own, length⟩

theorem findSome?_saved {callers : List Core} {frames : List CallFrame}
    (saves : Forall₂ Saves callers frames) : frames.findSome? savedPendingException =
        callers.findSome? Core.pendingException ∧
      frames.findSome? savedPendingReturn = callers.findSome? Core.pendingReturn := by
  induction saves with
  | nil => exact ⟨rfl, rfl⟩
  | cons saved _ ih =>
    simp only [findSome?_cons, saved.pendingException, saved.pendingReturn, ih.1, ih.2]
    exact ⟨trivial, trivial⟩

/-!
## Landing in a handler of an outer call
-/

theorem suspended_suspendAbruptCompletion (exception returned : Option Value) :
    (core.suspendAbruptCompletion exception returned).suspendedAbruptCompletions =
      (returned.map .returning).toList ++
        ((exception.map .exception).toList ++ core.suspendedAbruptCompletions) := by
  cases exception <;> cases returned <;> rfl

theorem popFrame_wanted {wanted : CatchFrame → Bool} {frames below : List CatchFrame}
    {frame : CatchFrame} (popped : popFrame wanted frames = some (frame, below)) :
    wanted frame = true := by
  unfold popFrame at popped
  split at popped
  next => cases popped
  next found =>
    cases popped
    have stopped := head?_dropWhile_not (fun frame => !wanted frame) frames
    rw [found] at stopped
    simpa using stopped

theorem suspended_suspendCurrent : core.suspendCurrentAbruptCompletion.suspendedAbruptCompletions =
    core.inFlight.toList ++ core.suspendedAbruptCompletions := by
  unfold suspendCurrentAbruptCompletion takeCurrentAbruptCompletion inFlight
  cases core.pendingException with
  | some exception => rfl
  | none => cases core.pendingReturn <;> rfl

theorem truncate_eq_nil_iff {α : Type} {stack : List α} {length : Nat} :
    truncate stack length = [] ↔ length = 0 ∨ stack = [] := by
  rw [truncate, drop_eq_nil_iff, ← length_eq_zero_iff]
  omega

theorem raise_of_raising {landed : Core} (single : core.Single) (raising : core.Raising module)
    (stepped : core.step config module = .ok (.next landed)) :
    ∃ (before : Core) (thrown : Value), before.callStack = core.callStack ∧
      before.suspendedAbruptCompletions = core.raisedOver module ∧
      before.pendingReturn = none ∧ before.raise thrown = .ok (.next landed) := by
  unfold raisedOver
  rcases raising with ⟨reg, fetched⟩ | ⟨fetched, mode, pending⟩
  · obtain ⟨thrown, _, raised⟩ := bind_ok (executed_of_step fetched stepped).2
    unfold throwValue at raised
    rw [fetched]
    refine ⟨_, thrown, ?_, ?_, ?_, raised⟩
    · exact frame_suspendCurrent.1
    · exact suspended_suspendCurrent
    · rfl
  · obtain ⟨thrown, pending⟩ := Option.isSome_iff_exists.mp pending
    have noReturn : core.pendingReturn = none := by
      rcases single.pending with noException | noReturn
      · rw [pending] at noException
        cases noException
      · exact noReturn
    obtain ⟨modes, stack⟩ := head?_eq_some_iff.mp mode
    have ended := (executed_of_step fetched stepped).2
    simp only [executeInstruction, endFinally, counted, stack, headD_cons, pending] at ended
    rw [fetched]
    refine ⟨_, thrown, ?_, ?_, ?_, ended⟩
    · rfl
    · rfl
    · exact noReturn

theorem callStack_unwindCallStackTo (targetDepth : Nat) :
    (core.unwindCallStackTo targetDepth).1.callStack =
      core.callStack.drop (core.depth - targetDepth) := by
  have merged := Unwinding.merges_foldl_pop
    (core.callStack.take (core.callStack.length - targetDepth)) { core }
  have count : (core.callStack.take (core.callStack.length - targetDepth)).length =
      core.depth - targetDepth := by
    rw [length_take]
    unfold depth
    omega
  have calls := merged.callStack
  rw [count] at calls
  unfold unwindCallStackTo
  dsimp only
  split
  next => exact calls
  next => exact calls

/-- Where a raised exception lands, what the frames on the way saved is suspended. -/
theorem landing {landed : Core} {thrown : Value} {deeper outer : List CallFrame}
    {catcher : CallFrame} (calls : core.callStack = deeper ++ catcher :: outer)
    (noReturn : core.pendingReturn = none) (raised : core.raise thrown = .ok (.next landed))
    (caughtBy : landed.depth = outer.length) : landed.pendingReturn = none ∧
      landed.suspendedAbruptCompletions =
        (((deeper.findSome? savedPendingReturn).or
          catcher.savedPendingReturn).map .returning).toList ++
        ((((deeper.findSome? savedPendingException).or
          catcher.savedPendingException).map .exception).toList ++
        truncate core.suspendedAbruptCompletions catcher.savedSuspendedAbruptDepth) := by
  refine ⟨(pending_raise raised).2.trans noReturn, ?_⟩
  obtain ⟨handler, below, found, rfl⟩ := raise_next raised
  have inScope : handler.callDepth ≤ core.depth := by simpa using popFrame_wanted found
  have target : handler.callDepth = outer.length := by
    have left : (({ core with catchFrames := below } : Core).unwindCallStackTo
        handler.callDepth).1.callStack.length = outer.length := caughtBy
    rw [callStack_unwindCallStackTo, length_drop] at left
    change core.depth - (core.depth - handler.callDepth) = outer.length at left
    rw [← left, Nat.sub_sub_self inScope]
  have sameCalls : { core with catchFrames := below }.callStack = deeper ++ catcher :: outer :=
    calls
  obtain ⟨exception, returned, suspended⟩ := unwindCallStackTo_split sameCalls
  rw [suspended_suspendAbruptCompletion, target, exception, returned, suspended]

theorem entered_catch {landed caught : Core} {dst : Nat}
    (entry : module.instructions[landed.ip]? = some (.enterCatch dst))
    (noReturn : landed.pendingReturn = none)
    (entered : landed.step config module = .ok (.next caught)) :
    caught.inFlight = landed.suspendedAbruptCompletions.head? ∧
      caught.suspendedAbruptCompletions = landed.suspendedAbruptCompletions.tail := by
  have executed := (executed_of_step entry entered).2
  obtain ⟨store, _, executed⟩ := bind_ok executed
  cases executed
  simp only [counted, noReturn]
  cases landed.suspendedAbruptCompletions with
  | nil => exact ⟨rfl, rfl⟩
  | cons completion rest => cases completion <;> exact ⟨rfl, rfl⟩

theorem mem_completions_of_inFlight {completion : AbruptCompletion}
    (flying : core.inFlight = some completion) : completion ∈ core.completions := by
  unfold inFlight at flying
  cases exception : core.pendingException with
  | some value =>
    rw [exception] at flying
    cases flying
    simp [completions, exception]
  | none =>
    rw [exception] at flying
    cases returned : core.pendingReturn with
    | none => simp [returned] at flying
    | some value =>
      rw [returned] at flying
      cases flying
      simp [completions, returned]

theorem mem_completions_caught {landed caught : Core} {completion : AbruptCompletion}
    (flying : caught.inFlight = landed.suspendedAbruptCompletions.head?)
    (suspended : caught.suspendedAbruptCompletions = landed.suspendedAbruptCompletions.tail)
    (member : completion ∈ landed.suspendedAbruptCompletions) :
    completion ∈ caught.completions := by
  cases stack : landed.suspendedAbruptCompletions with
  | nil =>
    rw [stack] at member
    cases member
  | cons first rest =>
    rw [stack] at member flying suspended
    rcases mem_cons.mp member with rfl | member
    · exact mem_completions_of_inFlight flying
    · unfold completions
      rw [suspended]
      simp [member]

theorem inFlight_of_pendingException {value : Value}
    (pending : core.pendingException = some value) : core.inFlight = some (.exception value) := by
  unfold inFlight
  rw [pending]

theorem inFlight_of_pendingReturn {value : Value} (noException : core.pendingException = none)
    (pending : core.pendingReturn = some value) : core.inFlight = some (.returning value) := by
  unfold inFlight
  rw [noException, pending]
  rfl

theorem inFlight_eq_none_iff :
    core.inFlight = none ↔ core.pendingException = none ∧ core.pendingReturn = none := by
  unfold inFlight
  cases core.pendingException <;> cases core.pendingReturn <;> simp

section Catching

variable {calls deeper outer : List Core} {catcher landed caught : Core} {dst : Nat}
  (run : Run config module calls core) (raising : core.Raising module)
  (raised : core.step config module = .ok (.next landed))
  (outstanding : calls = deeper ++ catcher :: outer) (caughtBy : landed.depth = outer.length)
  (entry : module.instructions[landed.ip]? = some (.enterCatch dst))
  (entered : landed.step config module = .ok (.next caught))

include run raising raised outstanding caughtBy entry entered

/-- The merge on the way from a raised exception to the handler that `catcher`'s call has, in
terms of the states that made the calls in between. -/
theorem caught_of_run :
    landed.suspendedAbruptCompletions =
        (((deeper.findSome? pendingReturn).or catcher.pendingReturn).map .returning).toList ++
        ((((deeper.findSome? pendingException).or catcher.pendingException).map
          .exception).toList ++
        truncate (core.raisedOver module) catcher.suspendedAbruptCompletions.length) ∧
      caught.inFlight = landed.suspendedAbruptCompletions.head? ∧
      caught.suspendedAbruptCompletions = landed.suspendedAbruptCompletions.tail ∧
      (core.AtMostOneActive landed.depth ↔
        (deeper.findSome? pendingException).or catcher.pendingException = none ∨
          (deeper.findSome? pendingReturn).or catcher.pendingReturn = none) ∧
      (catcher.pendingException = none ∨ catcher.pendingReturn = none) := by
  have single := Single.run run
  have saves := saves_of_run run
  rw [outstanding] at saves
  obtain ⟨deeperFrames, catcherFrame, outerFrames, frames, inner, own, length⟩ := saves_split saves
  obtain ⟨before, thrown, sameCalls, sameSuspended, noReturn, raisedFrom⟩ :=
    raise_of_raising single raising raised
  have target : landed.depth = outerFrames.length := caughtBy.trans length.symm
  obtain ⟨landedReturn, landedSuspended⟩ :=
    landing (sameCalls.trans frames) noReturn raisedFrom target
  obtain ⟨flying, suspended⟩ := entered_catch entry landedReturn entered
  obtain ⟨mergedException, mergedReturn, _⟩ := unwindCallStackTo_split frames
  obtain ⟨innerException, innerReturn⟩ := findSome?_saved inner
  rw [innerException, innerReturn, own.pendingException, own.pendingReturn, own.suspendedDepth,
    sameSuspended] at landedSuspended
  rw [innerException, own.pendingException] at mergedException
  rw [innerReturn, own.pendingReturn] at mergedReturn
  have catcherSingle := single.saved catcherFrame (by rw [frames]; simp)
  rw [own.pendingException, own.pendingReturn] at catcherSingle
  refine ⟨landedSuspended, flying, suspended, ?_, catcherSingle⟩
  unfold AtMostOneActive
  rw [target, mergedException, mergedReturn]

end Catching

def follow (config : InterpreterConfig) (module : Ir3Module) :
    Nat → List Core × Core → Option (List Core × Core)
  | 0, reached => some reached
  | turns + 1, (calls, core) =>
    match core.step config module with
    | .ok (.next after) =>
      follow config module turns
        (if after.depth = core.depth + 1 then core :: calls
          else calls.drop (core.depth - after.depth), after)
    | _ => none

theorem run_of_follow {turns : Nat} {calls : List Core} {reached : List Core × Core}
    (run : Run config module calls core)
    (followed : follow config module turns (calls, core) = some reached) :
    Run config module reached.1 reached.2 := by
  induction turns generalizing calls core with
  | zero =>
    cases followed
    exact run
  | succ turns ih =>
    unfold follow at followed
    split at followed
    next after stepped =>
      by_cases deeper : after.depth = core.depth + 1
      · rw [if_pos deeper] at followed
        exact ih (.enter run stepped deeper) followed
      · rw [if_neg deeper] at followed
        obtain ⟨pushed, _⟩ | ⟨shallower, _⟩ := saves_of_step stepped
        · exact absurd pushed deeper
        · exact ih (.stay run stepped shallower) followed
    next => cases followed

end Core

section Scenarios

/-- Two calls, with `f` in the first register and `g` in the second. -/
def scenarioConfig : InterpreterConfig :=
  { instructionBudget := 100, maxRegisters := 8, maxCallDepth := 8 }

def scenarioRegisters : List Value := [.function 0, .function 1]

/-- `try { throw 1 } finally { try { f(g) } catch (e) {} }` where `f` calls `g` and `g` throws. -/
def callInFinally : Ir3Module :=
  { instructions :=
      [.beginTry 3 (some 3), .loadInt 2 1, .throw 2, .enterFinally, .beginTry 7 none,
        .call 0 ⟨1, 1⟩ 3, .halt, .enterCatch 4, .endFinally,
        .call 0 ⟨0, 0⟩ 1,
        .loadInt 0 9, .throw 0]
    functionTable := [⟨9, 1, 8, none⟩, ⟨10, 0, 8, none⟩] }

/-- `try { f(g) } catch (e) {}` where `f` is `try { throw 7 } finally { g() }` and `g` throws. -/
def calleeInFinally : Ir3Module :=
  { instructions :=
      [.beginTry 3 none, .call 0 ⟨1, 1⟩ 2, .halt, .enterCatch 2, .halt,
        .beginTry 8 (some 8), .loadInt 1 7, .throw 1, .enterFinally, .call 0 ⟨0, 0⟩ 2, .endFinally,
        .loadInt 0 9, .throw 0]
    functionTable := [⟨5, 1, 8, none⟩, ⟨11, 0, 8, none⟩] }

def scenario (module : Ir3Module) (turns : Nat) : List Core × Core :=
  (Core.follow scenarioConfig module turns
    ([], Core.start scenarioConfig scenarioRegisters {})).getD
    ([], Core.start scenarioConfig [] {})

theorem run_scenario (module : Ir3Module) (turns : Nat)
    (goesOn : (Core.follow scenarioConfig module turns
      ([], Core.start scenarioConfig scenarioRegisters {})).isSome) :
    Core.Run scenarioConfig module (scenario module turns).1 (scenario module turns).2 := by
  obtain ⟨reached, followed⟩ := Option.isSome_iff_exists.mp goesOn
  unfold scenario
  rw [followed]
  exact Core.run_of_follow (.start scenarioRegisters {}) followed

end Scenarios

end FrankenEngine.Interpreter
