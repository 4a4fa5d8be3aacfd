import FrankenEngine.Library.Words
import Mathlib.Data.List.Sort

/-!
# Scheduler lanes

The scheduler of `scheduler_lane.rs`. Cancel and ready tasks leave their queues in
the order in which they came, and timed tasks by their deadlines. The sub-band of
a task is meant as its priority within a lane, but nothing reads it. Metrics and
counters are left out.
-/

set_option autoImplicit false

namespace FrankenEngine.Scheduling

open Library

inductive SchedulerLane where
  | cancel
  | timed
  | ready
  deriving DecidableEq

inductive TaskType where
  | cancelCleanup
  | quarantineExec
  | forcedDrain
  | leaseRenewal
  | monitoringProbe
  | evidenceFlush
  | epochBarrierTimeout
  | extensionDispatch
  | gcCycle
  | policyIteration
  | remoteSync
  | sagaStepExec
  deriving DecidableEq

def TaskType.requiredLane : TaskType → SchedulerLane
  | cancelCleanup | quarantineExec | forcedDrain => .cancel
  | leaseRenewal | monitoringProbe | evidenceFlush | epochBarrierTimeout => .timed
  | extensionDispatch | gcCycle | policyIteration | remoteSync | sagaStepExec => .ready

structure TaskLabel where
  lane : SchedulerLane
  taskType : TaskType
  traceId : String
  /-- The lower, the higher the priority. -/
  prioritySubBand : UInt32
  deriving DecidableEq

structure ScheduledTask where
  taskId : UInt64
  label : TaskLabel
  /-- Zero stands for no deadline. -/
  deadlineTick : UInt64
  submittedAt : UInt64
  payloadId : String
  deriving DecidableEq

structure LaneConfig where
  cancelMaxDepth : Nat := 256
  timedMaxDepth : Nat := 1024
  readyMaxDepth : Nat := 4096
  readyMinThroughput : Nat := 1

inductive EventType where
  | submit
  | schedule
  | timeout
  deriving DecidableEq

structure SchedulerEvent where
  taskId : UInt64
  lane : SchedulerLane
  taskType : TaskType
  traceId : String
  queuePosition : Nat
  event : EventType
  deriving DecidableEq

def ScheduledTask.report (task : ScheduledTask) (lane : SchedulerLane) (queuePosition : Nat)
    (event : EventType) : SchedulerEvent where
  taskId := task.taskId
  lane
  taskType := task.label.taskType
  traceId := task.label.traceId
  queuePosition
  event

inductive LaneError where
  | laneMismatch (taskType : TaskType) (declaredLane requiredLane : SchedulerLane)
  | laneFull (lane : SchedulerLane) (maxDepth : Nat)
  | emptyTraceId
  deriving DecidableEq

structure LaneScheduler where
  config : LaneConfig
  nextTaskId : UInt64
  cancelQueue : List ScheduledTask
  timedQueue : List ScheduledTask
  readyQueue : List ScheduledTask
  events : List SchedulerEvent

namespace LaneScheduler

def new (config : LaneConfig) : LaneScheduler := ⟨config, 1, [], [], [], []⟩

variable (scheduler : LaneScheduler)

def queue : SchedulerLane → List ScheduledTask
  | .cancel => scheduler.cancelQueue
  | .timed => scheduler.timedQueue
  | .ready => scheduler.readyQueue

def maxDepth : SchedulerLane → Nat
  | .cancel => scheduler.config.cancelMaxDepth
  | .timed => scheduler.config.timedMaxDepth
  | .ready => scheduler.config.readyMaxDepth

def pushBack (task : ScheduledTask) : SchedulerLane → LaneScheduler
  | .cancel => { scheduler with cancelQueue := scheduler.cancelQueue ++ [task] }
  | .timed => { scheduler with timedQueue := scheduler.timedQueue ++ [task] }
  | .ready => { scheduler with readyQueue := scheduler.readyQueue ++ [task] }

/-- The lane of the label is the lane of the queue. -/
def accept (task : ScheduledTask) : LaneScheduler :=
  { scheduler.pushBack task task.label.lane with
    nextTaskId := saturatingAdd scheduler.nextTaskId 1
    events := scheduler.events ++
      [task.report task.label.lane (scheduler.queue task.label.lane).length .submit] }

def submit (label : TaskLabel) (deadlineTick : UInt64) (payloadId : String)
    (currentTicks : UInt64) : Except LaneError (LaneScheduler × UInt64) :=
  if label.traceId = "" then .error .emptyTraceId
  else if label.lane ≠ label.taskType.requiredLane then
    .error (.laneMismatch label.taskType label.lane label.taskType.requiredLane)
  else if scheduler.maxDepth label.lane ≤ (scheduler.queue label.lane).length then
    .error (.laneFull label.lane (scheduler.maxDepth label.lane))
  else
    let taskId := scheduler.nextTaskId
    .ok (scheduler.accept ⟨taskId, label, deadlineTick, currentTicks, payloadId⟩, taskId)

/-- The loop over the sorted timed tasks: those that are taken as long as there is room, and those
that are put back. -/
def takeDue (currentTicks : UInt64) :
    Nat → List ScheduledTask → List ScheduledTask × List ScheduledTask
  | _, [] => ([], [])
  | room, task :: rest =>
    if 0 < room ∧ task.deadlineTick ≤ currentTicks then
      let (taken, returned) := takeDue currentTicks (room - 1) rest
      (task :: taken, returned)
    else
      let (taken, returned) := takeDue currentTicks room rest
      (taken, task :: returned)

section Batches

variable (batchSize : Nat) (currentTicks : UInt64)

def cancelled : List ScheduledTask := scheduler.cancelQueue.take batchSize

def pullTimed : List ScheduledTask × List ScheduledTask :=
  let pulled := (scheduler.cancelled batchSize).length
  if pulled < batchSize then
    takeDue currentTicks (batchSize - pulled)
      (scheduler.timedQueue.insertionSort (·.deadlineTick ≤ ·.deadlineTick))
  else ([], scheduler.timedQueue)

def readySlots : Nat :=
  let pulled := (scheduler.cancelled batchSize).length +
    (scheduler.pullTimed batchSize currentTicks).1.length
  if batchSize = 0 then 0
  else if pulled < batchSize then max (batchSize - pulled) scheduler.config.readyMinThroughput
  else scheduler.config.readyMinThroughput

def isExpired (task : ScheduledTask) : Bool :=
  0 < task.deadlineTick ∧ task.deadlineTick < currentTicks

def scheduleBatch : LaneScheduler × List ScheduledTask :=
  let (due, returned) := scheduler.pullTimed batchSize currentTicks
  let slots := scheduler.readySlots batchSize currentTicks
  let batch := scheduler.cancelled batchSize ++ due ++ scheduler.readyQueue.take slots
  ({ scheduler with
      cancelQueue := scheduler.cancelQueue.drop batchSize
      timedQueue := returned.filter (!isExpired currentTicks ·)
      readyQueue := scheduler.readyQueue.drop slots
      events := scheduler.events ++ batch.map (fun task => task.report task.label.lane 0 .schedule) ++
        (returned.filter (isExpired currentTicks)).map (·.report .timed 0 .timeout) },
    batch)

end Batches

end LaneScheduler

end FrankenEngine.Scheduling
