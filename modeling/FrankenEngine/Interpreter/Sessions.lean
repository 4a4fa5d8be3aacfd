import FrankenEngine.Interpreter.Transitions

/-!
# Running module after module on one core

`execute` of `baseline_interpreter.rs` with its seeds and the records of a run.
A core that was not changed from outside since its last run starts the next one
from the seed of the last one, so that no run sees what an earlier one left.
-/

set_option autoImplicit false

namespace FrankenEngine.Interpreter

open Library Ir Option

deriving instance DecidableEq for HeapObject, Heap

structure ExecutionSeed where
  registers : List Value
  heap : Heap
  deriving DecidableEq

inductive WitnessEventKind where
  | hostcallDispatched
  | capabilityChecked
  | executionCompleted

structure WitnessEvent (Hash : Type) where
  seq : Nat
  kind : WitnessEventKind
  instructionIndex : Nat
  payloadHash : Hash
  timestampTick : Nat

structure HostcallDecisionRecord where
  seq : Nat
  capability : String
  allowed : Bool
  instructionIndex : Nat

structure InterpreterEvent where
  traceId : String
  component : String
  event : String
  outcome : String
  errorCode : Option String

structure ExecutionResult (Hash : Type) where
  value : Value
  instructionsExecuted : Nat
  witnessEvents : List (WitnessEvent Hash)
  hostcallDecisions : List HostcallDecisionRecord
  events : List InterpreterEvent

structure Log (Hash : Type) where
  witnessEvents : List (WitnessEvent Hash) := []
  hostcallDecisions : List HostcallDecisionRecord := []

structure InterpreterCore where
  config : InterpreterConfig
  traceId : String
  state : Core
  lastPreRunSeed : Option ExecutionSeed := none
  lastPostRunSeed : Option ExecutionSeed := none

variable {Hash : Type} (compute : String → Hash)

def Log.emitWitness (log : Log Hash) (core : Core) (kind : WitnessEventKind) (detail : String) :
    Log Hash :=
  { log with
    witnessEvents := log.witnessEvents ++
      [{ seq := log.witnessEvents.length
         kind
         instructionIndex := core.ip % 2 ^ 32
         payloadHash := compute detail
         timestampTick := core.instructionsExecuted }] }

namespace Core

/-- What the next turn of the run loop records: of the instructions only host calls do. -/
def record (config : InterpreterConfig) (module : Ir3Module) (core : Core) (log : Log Hash) :
    Log Hash :=
  match module.instructions[core.ip]? with
  | some (.hostCall capability _ _) =>
    if core.instructionsExecuted ≥ config.instructionBudget then log
    else
      let core := { core with instructionsExecuted := core.instructionsExecuted + 1 }
      if capability ∈ config.grantedCapabilities then
        let dispatched := log.emitWitness compute core .hostcallDispatched s!"cap:{capability}"
        { dispatched.emitWitness compute core .capabilityChecked s!"granted:{capability}" with
          hostcallDecisions := log.hostcallDecisions ++
            [{ seq := log.hostcallDecisions.length
               capability
               allowed := true
               instructionIndex := core.ip % 2 ^ 32 }] }
      else log.emitWitness compute core .capabilityChecked s!"denied:{capability}"
  | _ => log

/-- The run loop with its records and the name of the event at its end. What a turn that fails has
changed by then is `residue`. -/
def runLoop (residue : Core → Core) (config : InterpreterConfig) (module : Ir3Module) :
    Nat → Core → Log Hash → Option (Except InterpreterError (Value × String) × Core × Log Hash)
  | 0, _, _ => none
  | turns + 1, core, log =>
    let log := core.record compute config module log
    match core.step config module with
    | .error error => some (.error error, residue core, log)
    | .ok (.next core) => runLoop residue config module turns core log
    | .ok (.done value core) => some (.ok (value, "execution_completed"), core, log)
    | .ok (.halted core) =>
      let value := (core.store.readReg config 0).toOption.getD .undefined
      some (.ok (value, "execution_halted"), core, log)

variable {config : InterpreterConfig} {module : Ir3Module}

theorem result_runLoop (residue : Core → Core) (turns : Nat) (core : Core) (log : Log Hash) :
    (core.runLoop compute residue config module turns log).map (fun ending => ending.1.map (·.1)) =
      (core.run config module turns).map (fun ending => ending.map (·.1)) := by
  induction turns generalizing core log with
  | zero => rfl
  | succ turns ih =>
    rw [runLoop, run]
    cases core.step config module with
    | error error => rfl
    | ok outcome =>
      cases outcome with
      | next after => exact ih after _
      | done | halted => rfl

end Core

namespace InterpreterCore

variable (core : InterpreterCore)

def captureExecutionSeed : ExecutionSeed :=
  { registers := core.state.store.registers.takeD core.config.maxRegisters .undefined
    heap := core.state.store.heap }

def seed : ExecutionSeed :=
  match core.lastPreRunSeed, core.lastPostRunSeed with
  | some previousPreRun, some previousPostRun =>
    if core.captureExecutionSeed = previousPostRun then previousPreRun
    else core.captureExecutionSeed
  | _, _ => core.captureExecutionSeed

def resetExecutionStateFromSeed (seed : ExecutionSeed) : Core :=
  { store := { registers := seed.registers, heap := seed.heap } }

def event (core : InterpreterCore) (event outcome : String) : InterpreterEvent :=
  { traceId := core.traceId, component := "baseline_interpreter", event, outcome, errorCode := none }

def finish (ending : Except InterpreterError (Value × String) × Core × Log Hash) :
    Except InterpreterError (ExecutionResult Hash) × InterpreterCore :=
  let (result, state, log) := ending
  let after := { core with lastPreRunSeed := some core.seed, state }
  (result.map fun (value, name) =>
    { value
      instructionsExecuted := state.instructionsExecuted
      witnessEvents := (log.emitWitness compute state .executionCompleted "").witnessEvents
      hostcallDecisions := log.hostcallDecisions
      events := [core.event "execution_started" "ok", core.event name "ok"] },
    { after with lastPostRunSeed := some after.captureExecutionSeed })

def execute (residue : Ir3Module → Core → Core) (core : InterpreterCore) (module : Ir3Module) :
    Option (Except InterpreterError (ExecutionResult Hash) × InterpreterCore) :=
  let state := resetExecutionStateFromSeed core.seed
  (state.runLoop compute (residue module) core.config module (state.turnsLeft core.config) {}).map
    (core.finish compute)

variable (residue : Ir3Module → Core → Core)

theorem execute_isSome (module : Ir3Module) : (core.execute compute residue module).isSome := by
  have ends := @Core.run_isSome core.config module _ (resetExecutionStateFromSeed core.seed)
    (Nat.le_refl _)
  rw [← isSome_map, ← Core.result_runLoop compute (residue module) _ _ {}] at ends
  rw [execute, isSome_map]
  rwa [isSome_map] at ends

variable {compute residue}

theorem seed_of_execute {core after : InterpreterCore} {module : Ir3Module}
    {result : Except InterpreterError (ExecutionResult Hash)}
    (executed : core.execute compute residue module = some (result, after)) :
    after.seed = core.seed ∧ after.config = core.config ∧ after.traceId = core.traceId := by
  obtain ⟨ending, -, ended⟩ := map_eq_some_iff.mp executed
  cases ended
  exact ⟨if_pos rfl, rfl, rfl⟩

/-- A run depends on the core only through its seed, its configuration and its trace. -/
theorem result_execute_congr {left right : InterpreterCore} (seed : left.seed = right.seed)
    (config : left.config = right.config) (traceId : left.traceId = right.traceId)
    (module : Ir3Module) : (left.execute compute residue module).map (·.1) =
      (right.execute compute residue module).map (·.1) := by
  have same : Prod.fst ∘ left.finish compute = Prod.fst ∘ right.finish compute := by
    funext ending
    simp only [Function.comp_apply, finish, event, traceId]
  rw [execute, execute, map_map, map_map, same, seed, config]

/-- Whatever the first module does and however its run ends, the second one runs as if the first
had not been run. -/
theorem execute_isolated (compute : String → Hash) (residue : Ir3Module → Core → Core)
    (core : InterpreterCore) (first second : Ir3Module) :
    ∃ result after later final, core.execute compute residue first = some (result, after) ∧
      after.execute compute residue second = some (later, final) ∧
      (core.execute compute residue second).map (·.1) = some later := by
  obtain ⟨⟨result, after⟩, executed⟩ := Option.isSome_iff_exists.mp
    (core.execute_isSome compute residue first)
  obtain ⟨⟨later, final⟩, continued⟩ := Option.isSome_iff_exists.mp
    (after.execute_isSome compute residue second)
  obtain ⟨seed, config, traceId⟩ := seed_of_execute executed
  refine ⟨result, after, later, final, executed, continued, ?_⟩
  rw [← result_execute_congr seed config traceId second, continued]
  rfl

end InterpreterCore

end FrankenEngine.Interpreter
