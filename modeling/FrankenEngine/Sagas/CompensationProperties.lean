import FrankenEngine.Sagas.Orchestrator
import Mathlib.Data.List.Nodup

/-!
# Compensation

The records of a saga as a run forward and, if a step failed, back again. What
the state says about the records is kept by every call, so the records of every
saga in every run have this form.
-/

set_option autoImplicit false

namespace FrankenEngine.Sagas

open Library SagaOrchestrator List Option OrderedMap

def StepOutcome.isSuccess : StepOutcome → Bool
  | .success _ => true
  | _ => false

def StepRecord.entry (record : StepRecord) : ActionType × Nat × Bool :=
  (record.actionType, record.stepIndex, record.outcome.isSuccess)

def Saga.log (saga : Saga) : List (ActionType × Nat × Bool) := saga.stepRecords.map (·.entry)

/-!
## Logs
-/

def forwards (count : Nat) : List (ActionType × Nat × Bool) :=
  (List.range count).map fun index => (.forward, index, true)

/-- Compensations of the `count` steps before a failed one, the latest first. -/
def compensations (failed count : Nat) : List (ActionType × Nat × Bool) :=
  (List.range count).map fun back => (.compensate, failed - 1 - back, true)

/-- Forward, then a failed step and compensations, of which only the last may have failed. -/
inductive Discipline : List (ActionType × Nat × Bool) → Prop where
  | forward (count : Nat) : Discipline (forwards count)
  | back {failed count : Nat} (few : count ≤ failed) :
      Discipline (forwards failed ++ (.forward, failed, false) :: compensations failed count)
  | stuck {failed count : Nat} (few : count < failed) :
      Discipline (forwards failed ++ (.forward, failed, false) ::
        (compensations failed count ++ [(.compensate, failed - 1 - count, false)]))

/-- Which log goes with which state of a saga with so many steps. -/
inductive Lawful (stepCount : Nat) : SagaState → List (ActionType × Nat × Bool) → Prop where
  | pending : Lawful stepCount .pending []
  | inProgress {stepIndex : Nat} : Lawful stepCount (.inProgress stepIndex) (forwards stepIndex)
  | completed : Lawful stepCount .completed (forwards stepCount)
  | compensating {failed count stepIndex : Nat} (position : stepIndex + count + 1 = failed) :
      Lawful stepCount (.compensating stepIndex)
        (forwards failed ++ (.forward, failed, false) :: compensations failed count)
  | failed {diagnostic : String} {log : List (ActionType × Nat × Bool)}
      (other : diagnostic ≠ "compensated") (discipline : Discipline log) :
      Lawful stepCount (.failed diagnostic) log
  | compensated (failed : Nat) :
      Lawful stepCount (.failed "compensated")
        (forwards failed ++ (.forward, failed, false) :: compensations failed failed)

variable {log : List (ActionType × Nat × Bool)} {stepCount stepIndex : Nat} {saga : Saga}

theorem Lawful.discipline {state : SagaState} (lawful : Lawful stepCount state log) :
    Discipline log := by
  cases lawful with
  | pending => exact .forward 0
  | inProgress | completed => exact .forward _
  | compensating position => exact .back (by omega)
  | failed _ discipline => exact discipline
  | compensated failed => exact .back le_rfl

theorem forwards_succ (count : Nat) :
    forwards (count + 1) = forwards count ++ [(.forward, count, true)] := by
  rw [forwards, range_succ, map_append, forwards]
  rfl

theorem compensations_succ (failed count : Nat) : compensations failed (count + 1) =
      compensations failed count ++ [(.compensate, failed - 1 - count, true)] := by
  rw [compensations, range_succ, map_append, compensations]
  rfl

theorem nodup_compensations (failed : Nat) : (compensations failed failed).Nodup := by
  refine Nodup.map_on (fun left leftMember right rightMember same => ?_) nodup_range
  have leftBelow := mem_range.mp leftMember
  have rightBelow := mem_range.mp rightMember
  have indices : failed - 1 - left = failed - 1 - right := (Prod.mk.inj (Prod.mk.inj same).2).1
  omega

/-- In a log that went all the way back, every step that succeeded is compensated once. -/
theorem Lawful.compensated_once (lawful : Lawful stepCount (.failed "compensated") log)
    {index : Nat} (ran : (.forward, index, true) ∈ log) :
    log.count (.compensate, index, true) = 1 := by
  cases lawful with
  | failed other => exact absurd rfl other
  | compensated failed =>
    have below : index < failed := by
      simpa [forwards, compensations] using ran
    have undone : (.compensate, index, true) ∈ compensations failed failed :=
      mem_map.mpr ⟨failed - 1 - index, mem_range.mpr (by omega), by
        rw [show failed - 1 - (failed - 1 - index) = index by omega]⟩
    have forward : (forwards failed).count (.compensate, index, true) = 0 := by
      simp [count_eq_zero, forwards]
    rw [count_append, forward, Nat.zero_add, count_cons_of_ne (by simp)]
    exact count_eq_one_of_mem (nodup_compensations failed) undone

/-!
## Diagnostics
-/

theorem append_ne_of_not_prefix {start text : String} (differs : ¬ start.toList <+: text.toList)
    (rest : String) : start ++ rest ≠ text := by
  rintro rfl
  rw [String.toList_append] at differs
  exact differs (prefix_append _ _)

theorem display_ne_compensated (outcome : StepOutcome) : outcome.display ≠ "compensated" := by
  cases outcome <;> rw [StepOutcome.display, String.append_assoc] <;>
    exact append_ne_of_not_prefix (by decide) _

/-!
## Steps
-/

theorem Lawful.begun {state : SagaState} (lawful : Lawful stepCount state log)
    (next : nextForward? state = some stepIndex) :
    Lawful stepCount (.inProgress stepIndex) log := by
  cases lawful with
  | pending | inProgress =>
    cases next
    exact .inProgress
  | completed | compensating | failed | compensated => cases next

theorem Lawful.afterForward (inside : stepIndex < saga.steps.length)
    (lawful : Lawful saga.steps.length (.inProgress stepIndex) saga.log) (outcome : StepOutcome) :
    Lawful saga.steps.length (afterForward saga stepIndex outcome)
      (saga.log ++ [(.forward, stepIndex, outcome.isSuccess)]) := by
  have log : saga.log = forwards stepIndex := by
    generalize saga.log = held at lawful
    cases lawful
    rfl
  -- A step that failed or was cancelled starts the way back.
  have fails : outcome.isSuccess = false →
      Lawful saga.steps.length
        (if stepIndex = 0 then .failed outcome.display else .compensating (stepIndex - 1))
        (forwards stepIndex ++ [(.forward, stepIndex, false)]) := by
    intro _
    split
    next first => exact .failed (display_ne_compensated outcome) (.back (Nat.zero_le stepIndex))
    next later => exact @Lawful.compensating _ _ 0 _ (by omega)
  rw [log]
  cases outcome with
  | success result =>
    rw [SagaOrchestrator.afterForward, StepOutcome.isSuccess, ← forwards_succ]
    split
    next last =>
      have whole : stepIndex + 1 = saga.steps.length := Nat.le_antisymm inside last
      rw [whole]
      exact .completed
    next => exact .inProgress
  | failure | cancelled => exact fails rfl

theorem Lawful.afterCompensation
    (lawful : Lawful saga.steps.length (.compensating stepIndex) saga.log) (outcome : StepOutcome) :
    Lawful saga.steps.length (afterCompensation stepIndex outcome)
      (saga.log ++ [(.compensate, stepIndex, outcome.isSuccess)]) := by
  obtain ⟨failed, count, position, log⟩ : ∃ failed count, stepIndex + count + 1 = failed ∧
      saga.log = forwards failed ++ (.forward, failed, false) :: compensations failed count := by
    generalize saga.log = held at lawful
    cases lawful with
    | compensating position => exact ⟨_, _, position, rfl⟩
  have own : failed - 1 - count = stepIndex := by omega
  -- A compensation that failed or was cancelled ends the way back.
  have fails : ∀ {diagnostic : String}, diagnostic ≠ "compensated" →
      Lawful saga.steps.length (.failed diagnostic)
        (saga.log ++ [(.compensate, stepIndex, false)]) := by
    intro diagnostic other
    rw [log, append_assoc, cons_append, ← own]
    exact .failed other (.stuck (by omega))
  cases outcome with
  | success result =>
    rw [SagaOrchestrator.afterCompensation, StepOutcome.isSuccess, log, append_assoc,
      cons_append, ← own, ← compensations_succ]
    split
    next first =>
      rw [show count + 1 = failed by omega]
      exact .compensated failed
    next later => exact .compensating (by omega)
  | failure | cancelled =>
    refine fails ?_
    rw [String.append_assoc, String.append_assoc]
    exact append_ne_of_not_prefix (by decide) _

/-!
## Sagas of an orchestrator
-/

/-- Every saga has records that go with its state, and a saga that is not over is of the current
epoch. -/
structure Sound (maxConcurrent : Nat) (orchestrator : SagaOrchestrator) : Prop where
  lawful : ∀ sagaId saga, orchestrator.sagas.get? sagaId = some saga →
    Lawful saga.steps.length saga.state saga.log
  current : ∀ sagaId saga, orchestrator.sagas.get? sagaId = some saga → saga.isTerminal = false →
    saga.epoch = orchestrator.currentEpoch
  bounded : orchestrator.activeCount ≤ maxConcurrent
  limit : orchestrator.maxConcurrent = maxConcurrent

section

variable {maxConcurrent : Nat} {orchestrator : SagaOrchestrator}

theorem sound_new (epoch : UInt64) : Sound maxConcurrent (.new epoch maxConcurrent) where
  lawful := nofun
  current := nofun
  bounded := Nat.zero_le maxConcurrent
  limit := rfl

theorem activeCount_put (orchestrator : SagaOrchestrator) (sagaId : String) (saga : Saga) :
    (orchestrator.put sagaId saga).activeCount +
        (orchestrator.sagas.get? sagaId).elim 0 (fun held => (!held.isTerminal).toNat) =
      orchestrator.activeCount + (!saga.isTerminal).toNat :=
  orchestrator.sagas.countP_values_insert _ sagaId saga

variable (sound : Sound maxConcurrent orchestrator)

include sound

theorem Sound.put {sagaId : String} {saga : Saga}
    (lawful : Lawful saga.steps.length saga.state saga.log)
    (current : saga.epoch = orchestrator.currentEpoch)
    (room : (orchestrator.put sagaId saga).activeCount ≤ maxConcurrent) :
    Sound maxConcurrent (orchestrator.put sagaId saga) where
  lawful := forall_get?_insert sound.lawful lawful
  current := forall_get?_insert sound.current fun _ => current
  bounded := room
  limit := sound.limit

theorem Sound.replace {sagaId : String} {saga updated : Saga}
    (found : orchestrator.sagas.get? sagaId = some saga) (active : saga.isTerminal = false)
    (epoch : updated.epoch = saga.epoch)
    (lawful : Lawful updated.steps.length updated.state updated.log) :
    Sound maxConcurrent (orchestrator.put sagaId updated) := by
  refine sound.put lawful (epoch.trans (sound.current sagaId saga found active)) ?_
  have counted := activeCount_put orchestrator sagaId updated
  rw [found, elim_some, active, Bool.not_false, Bool.toNat_true] at counted
  have atMostOne := Bool.toNat_le (!updated.isTerminal)
  have before := sound.bounded
  omega

theorem Sound.createSaga (sagaId : String) (sagaType : SagaType) (steps : List SagaStep)
    (traceId : String) (currentTicks : UInt64) : Sound maxConcurrent
      (orchestrator.createSaga sagaId sagaType steps traceId currentTicks).1 := by
  unfold SagaOrchestrator.createSaga
  split
  · exact sound
  split
  · exact sound
  split
  · exact sound
  next fresh =>
    split
    · exact sound
    next room =>
      refine sound.put .pending rfl ?_
      have counted := activeCount_put orchestrator sagaId
      rw [not_isSome_iff_eq_none.mp fresh] at counted
      rw [← sound.limit]
      exact (counted _).trans_le (Nat.lt_of_not_le room)

theorem Sound.beginStep (sagaId : String) :
    Sound maxConcurrent (orchestrator.beginStep sagaId).1 := by
  unfold SagaOrchestrator.beginStep
  split
  · exact sound
  next saga found =>
    split
    · exact sound
    next active =>
      split
      · exact sound
      split
      · exact sound
      next stepIndex next =>
        split
        · exact sound.replace found (Bool.eq_false_iff.mpr active) rfl
            ((sound.lawful sagaId saga found).begun next)
        · exact sound

theorem Sound.complete (direction : Direction)
    (active : ∀ stepIndex, (direction.expected stepIndex).isTerminal = false)
    (carried : ∀ (saga : Saga) stepIndex outcome, stepIndex < saga.steps.length →
      Lawful saga.steps.length (direction.expected stepIndex) saga.log →
      Lawful saga.steps.length (direction.next saga stepIndex outcome)
        (saga.log ++ [(direction.actionType, stepIndex, outcome.isSuccess)]))
    (sagaId : String) (stepIndex : Nat) (outcome : StepOutcome) (idempotencyKeyHex : String)
    (currentTicks : UInt64) :
    Sound maxConcurrent (complete direction orchestrator sagaId stepIndex outcome
      idempotencyKeyHex currentTicks).1 := by
  unfold SagaOrchestrator.complete
  split
  · exact sound
  next saga found =>
    split
    next inside =>
      split
      · exact sound
      split
      next expected =>
        refine sound.replace found (by rw [Saga.isTerminal, expected, active]) rfl ?_
        have lawful := carried saga stepIndex outcome inside (expected ▸ sound.lawful sagaId saga found)
        rwa [Saga.log, withOutcome, map_append]
      · exact sound
    · exact sound

theorem Sound.advanceEpoch (newEpoch : UInt64) :
    Sound maxConcurrent (orchestrator.advanceEpoch newEpoch).1 where
  lawful := by
    intro sagaId saga found
    obtain ⟨old, held, rfl⟩ := map_eq_some_iff.mp
      ((orchestrator.sagas.get?_mapValues _ sagaId).symm.trans found)
    unfold invalidate
    split
    · refine .failed ?_ (sound.lawful sagaId old held).discipline
      simp only [String.append_assoc]
      exact append_ne_of_not_prefix (by decide) _
    · exact sound.lawful sagaId old held
  current := by
    intro sagaId saga found active
    obtain ⟨old, held, rfl⟩ := map_eq_some_iff.mp
      ((orchestrator.sagas.get?_mapValues _ sagaId).symm.trans found)
    unfold invalidate at active ⊢
    split at active
    · cases active
    next kept =>
      rw [if_neg kept]
      -- A saga that goes on is of the announced epoch, which then is the current one.
      have announced : old.epoch = newEpoch := by
        simpa [invalidated, active] using kept
      have own := sound.current sagaId old held active
      rw [SagaOrchestrator.advanceEpoch, ← announced, own, ite_self]
  bounded := by
    refine le_trans ?_ sound.bounded
    rw [SagaOrchestrator.activeCount, SagaOrchestrator.advanceEpoch, values_mapValues, countP_map]
    refine countP_mono_left fun saga _ active => ?_
    unfold invalidate at active
    simp only [Function.comp_apply] at active
    split at active
    · cases active
    · exact active
  limit := sound.limit

theorem Sound.gcTerminal (olderThanTicks : UInt64) :
    Sound maxConcurrent (orchestrator.gcTerminal olderThanTicks).1 where
  lawful := by
    intro sagaId saga found
    have kept := (orchestrator.sagas.get?_retain _ sagaId).symm.trans found
    exact sound.lawful sagaId saga (filter_eq_some_iff.mp kept).1
  current := by
    intro sagaId saga found
    have kept := (orchestrator.sagas.get?_retain _ sagaId).symm.trans found
    exact sound.current sagaId saga (filter_eq_some_iff.mp kept).1
  bounded := by
    refine le_trans ?_ sound.bounded
    exact (filter_sublist.map _).countP_le
  limit := sound.limit

theorem Sound.step (call : Call) : Sound maxConcurrent (orchestrator.step call) := by
  cases call with
  | createSaga => exact sound.createSaga ..
  | beginStep => exact sound.beginStep _
  | completeStep =>
    exact sound.complete forward (fun _ => rfl)
      (fun _ _ outcome inside lawful => lawful.afterForward inside outcome) ..
  | nextCompensationStep => exact sound
  | completeCompensation =>
    exact sound.complete backward (fun _ => rfl)
      (fun _ _ outcome _ lawful => lawful.afterCompensation outcome) ..
  | advanceEpoch => exact sound.advanceEpoch _
  | gcTerminal => exact sound.gcTerminal _

theorem Sound.run (calls : List Call) : Sound maxConcurrent (orchestrator.run calls) := by
  induction calls generalizing orchestrator with
  | nil => exact sound
  | cons call rest ih => exact ih (sound.step call)

end

/-- Whatever is called, with whatever indices, outcomes and keys: every saga goes forward in order
and back in order, is compensated only if every step that succeeded was undone once, and is of the
current epoch as long as it is not over. -/
theorem sagas_disciplined (epoch : UInt64) (maxConcurrent : Nat)
    (calls : List SagaOrchestrator.Call) :
    let reached := (SagaOrchestrator.new epoch maxConcurrent).run calls
    (∀ sagaId saga, reached.sagas.get? sagaId = some saga → Discipline saga.log ∧
      (saga.state = .failed "compensated" → ∀ index, (.forward, index, true) ∈ saga.log →
          saga.log.count (.compensate, index, true) = 1) ∧
      (saga.isTerminal = false → saga.epoch = reached.currentEpoch)) ∧
    reached.activeCount ≤ maxConcurrent := by
  intro reached
  have sound : Sound maxConcurrent reached := (sound_new epoch).run calls
  refine ⟨fun sagaId saga found => ?_, sound.bounded⟩
  have lawful := sound.lawful sagaId saga found
  refine ⟨lawful.discipline, fun compensated index ran => ?_, sound.current sagaId saga found⟩
  rw [compensated] at lawful
  exact lawful.compensated_once ran

/-!
## Stale epochs
-/

theorem activeCount_eq_zero_iff {orchestrator : SagaOrchestrator} : orchestrator.activeCount = 0 ↔
      ∀ sagaId saga, orchestrator.sagas.get? sagaId = some saga → saga.isTerminal = true := by
  rw [activeCount, countP_eq_zero]
  simp only [Bool.not_eq_true, Bool.not_eq_false', mem_values_iff]
  exact ⟨fun ended sagaId saga found => ended saga ⟨sagaId, found⟩,
    fun ended saga held => held.elim fun sagaId found => ended sagaId saga found⟩

theorem Sound.invalidated_eq_false {maxConcurrent : Nat} {orchestrator : SagaOrchestrator}
    (sound : Sound maxConcurrent orchestrator) {newEpoch : UInt64}
    (harmless : newEpoch = orchestrator.currentEpoch ∨ orchestrator.activeCount = 0)
    {sagaId : String} (found : orchestrator.sagas.get? sagaId = some saga) :
    invalidated newEpoch saga = false := by
  cases terminal : saga.isTerminal with
  | true => simp [invalidated, terminal]
  | false =>
    cases harmless with
    | inl same =>
      have own := sound.current sagaId saga found terminal
      simp [invalidated, same, own]
    | inr allOver =>
      have ended := activeCount_eq_zero_iff.mp allOver sagaId saga found
      cases ended.symm.trans terminal

theorem invalidate_of_kept {newEpoch : UInt64}
    (kept : invalidated newEpoch saga = false) : invalidate newEpoch saga = saga :=
  if_neg (by rw [kept]; nofun)

/-- Announcing an epoch that is not ahead changes nothing exactly if it is the current one or there
is no saga to be failed: sagas fail for being of another epoch, not of an older one. -/
theorem advanceEpoch_stale_iff (epoch : UInt64) (maxConcurrent : Nat)
    (calls : List SagaOrchestrator.Call) (newEpoch : UInt64)
    (stale : newEpoch ≤ ((SagaOrchestrator.new epoch maxConcurrent).run calls).currentEpoch) :
    let reached := (SagaOrchestrator.new epoch maxConcurrent).run calls
    reached.advanceEpoch newEpoch = (reached, []) ↔
      newEpoch = reached.currentEpoch ∨ reached.activeCount = 0 := by
  intro reached
  have sound : Sound maxConcurrent reached := (sound_new epoch).run calls
  constructor
  · intro unchanged
    by_contra harmful
    obtain ⟨other, active⟩ := not_or.mp harmful
    have some_active : ¬ ∀ sagaId saga, reached.sagas.get? sagaId = some saga →
        saga.isTerminal = true := fun ended => active (activeCount_eq_zero_iff.mpr ended)
    push Not at some_active
    obtain ⟨sagaId, saga, found, running⟩ := some_active
    have own := sound.current sagaId saga found (Bool.eq_false_iff.mpr running)
    -- The saga is of the current epoch, so not of the announced one, and is reported.
    have reported : sagaId ∈ (reached.advanceEpoch newEpoch).2 := by
      refine List.mem_map.mpr ⟨(sagaId, saga), List.mem_filter.mpr ⟨?_, ?_⟩, rfl⟩
      · exact reached.sagas.ascending.lookup_eq_some_iff.mp found
      · simp [SagaOrchestrator.invalidated, running, own, Ne.symm other]
    rw [unchanged] at reported
    cases reported
  · intro harmless
    have kept : ∀ sagaId saga, reached.sagas.get? sagaId = some saga →
        SagaOrchestrator.invalidated newEpoch saga = false :=
      fun _ _ found => sound.invalidated_eq_false harmless found
    have epochKept : ¬ reached.currentEpoch < newEpoch := UInt64.not_lt.mpr stale
    have sagasKept : reached.sagas.mapValues (SagaOrchestrator.invalidate newEpoch) =
        reached.sagas := by
      refine OrderedMap.ext_get? fun sagaId => ?_
      rw [OrderedMap.get?_mapValues]
      cases found : reached.sagas.get? sagaId with
      | none => rfl
      | some saga => rw [Option.map_some, invalidate_of_kept (kept sagaId saga found)]
    have noneReported : reached.sagas.entries.filter
        (fun entry => SagaOrchestrator.invalidated newEpoch entry.2) = [] := by
      refine List.filter_eq_nil_iff.mpr fun entry member => ?_
      rw [kept _ _ (reached.sagas.ascending.lookup_eq_some_iff.mpr member)]
      nofun
    rw [SagaOrchestrator.advanceEpoch, sagasKept, noneReported, if_neg epochKept]
    rfl

def transfer : SagaStep where
  stepName := "transfer"
  forwardAction := "send"
  compensatingAction := "recall"
  timeoutTicks := 100

theorem advanceEpoch_stale_iff_running :
    let reached := (SagaOrchestrator.new 5 2).run
      [.createSaga "s" .quarantine [transfer] "t" 0]
    reached.activeCount = 1 ∧ (5 : UInt64) ≤ reached.currentEpoch ∧
      reached.advanceEpoch 5 = (reached, []) :=
  ⟨by decide +kernel, by decide +kernel,
    (advanceEpoch_stale_iff 5 2 [.createSaga "s" .quarantine [transfer] "t" 0] 5
      (by decide +kernel)).mpr (.inl (by decide +kernel))⟩

/-- In epoch 5, the announcement of epoch 4 fails a saga that was just created. -/
theorem advanceEpoch_fails_current :
    let reached := (SagaOrchestrator.new 5 2).run
      [.createSaga "s" .quarantine [transfer] "t" 0]
    (4 : UInt64) ≤ reached.currentEpoch ∧
      (reached.advanceEpoch 4).2 = ["s"] ∧
      ((reached.advanceEpoch 4).1.sagas.get? "s").map (·.state) =
        some (.failed "epoch_invalidated: saga epoch epoch:5, new epoch epoch:4") ∧
      (reached.advanceEpoch 4).1.currentEpoch = 5 := by
  decide +kernel

end FrankenEngine.Sagas
