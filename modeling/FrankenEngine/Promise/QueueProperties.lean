import FrankenEngine.Library.History
import FrankenEngine.Promise.Store

/-!
# The witness of the microtask queue

Tasks leave the queue in the order in which they came. The witness of a dequeued
task is the position of the read cursor, which compaction rewinds, so it is the
index recorded for the task exactly as long as nothing was compacted away.
-/

set_option autoImplicit false

namespace FrankenEngine.Promise

open Library List WitnessEvent

inductive QueueCall where
  | enqueue (task : Microtask)
  | dequeue
  | compact

def QueueCall.task? : QueueCall → Option Microtask
  | .enqueue task => some task
  | .dequeue | .compact => none

def WitnessEvent.enqueued? : WitnessEvent → Option Nat
  | .microtaskEnqueued index => some index
  | _ => none

def WitnessEvent.dequeued? : WitnessEvent → Option Nat
  | .microtaskDequeued index => some index
  | _ => none

namespace MicrotaskQueue

variable (queue : MicrotaskQueue)

def perform : QueueCall → MicrotaskQueue × Option Microtask
  | .enqueue task => (queue.enqueue task, none)
  | .dequeue => (queue.dequeue.2, queue.dequeue.1)
  | .compact => (queue.compact, none)

def enqueuedIndices : List Nat :=
  queue.witness.filterMap WitnessEvent.enqueued?

def dequeuedIndices : List Nat :=
  queue.witness.filterMap WitnessEvent.dequeued?

/-- Every task that was enqueued still stands in the buffer. -/
def Uncompacted : Prop := queue.tasks.length = queue.enqueueCount

/-- The call takes no task out of a buffer from which others have been compacted away. -/
def InTime (entry : Record MicrotaskQueue QueueCall (Option Microtask)) : Prop :=
  entry.call = .dequeue → entry.before.cursor < entry.before.tasks.length →
    entry.before.Uncompacted

section Histories

variable (past : List (Record MicrotaskQueue QueueCall (Option Microtask)))

def enqueuedTasks : List Microtask := past.filterMap (·.call.task?)

def dequeuedTasks : List Microtask := past.filterMap (·.outcome)

structure Accounts (queue : MicrotaskQueue) : Prop where
  count : queue.enqueueCount = (enqueuedTasks past).length
  within : queue.cursor ≤ queue.tasks.length
  order : enqueuedTasks past = dequeuedTasks past ++ queue.tasks.drop queue.cursor
  recorded : queue.enqueuedIndices = List.range queue.enqueueCount
  each : queue.dequeuedIndices.length = (dequeuedTasks past).length
  replayed : queue.dequeuedIndices = List.range (dequeuedTasks past).length ↔
    ∀ entry ∈ past, InTime entry

end Histories

variable (past : List (Record MicrotaskQueue QueueCall (Option Microtask)))
  (queue : MicrotaskQueue)

theorem enqueuedTasks_snoc (call : QueueCall) :
    enqueuedTasks (past ++ [record perform queue call]) =
      enqueuedTasks past ++ call.task?.toList := by
  rw [enqueuedTasks, filterMap_append]
  cases call <;> rfl

theorem dequeuedTasks_snoc (call : QueueCall) :
    dequeuedTasks (past ++ [record perform queue call]) =
      dequeuedTasks past ++ (queue.perform call).2.toList := by
  cases outcome : (queue.perform call).2 <;> simp [dequeuedTasks, record, outcome]

variable {past queue}

variable (accounts : Accounts past queue)

include accounts

theorem Accounts.cursor_eq_iff :
    queue.cursor = (dequeuedTasks past).length ↔ queue.Uncompacted := by
  have lengths := congrArg length accounts.order
  rw [length_append, length_drop, ← accounts.count] at lengths
  have within := accounts.within
  unfold Uncompacted
  omega

theorem accounts_enqueue (task : Microtask) :
    Accounts (past ++ [record perform queue (.enqueue task)]) (queue.enqueue task) := by
  have enqueued := enqueuedTasks_snoc past queue (.enqueue task)
  have dequeued := dequeuedTasks_snoc past queue (.enqueue task)
  simp only [QueueCall.task?, perform, Option.toList, append_nil] at enqueued dequeued
  have indices : (queue.enqueue task).dequeuedIndices = queue.dequeuedIndices := by
    simp [dequeuedIndices, enqueue, dequeued?]
  constructor
  case count => simp [enqueued, enqueue, accounts.count]
  case within => simpa [enqueue] using Nat.le_succ_of_le accounts.within
  case order =>
    rw [enqueued, dequeued, accounts.order, append_assoc, enqueue,
      drop_append_of_le_length accounts.within]
  case recorded =>
    have kept := accounts.recorded
    rw [enqueuedIndices] at kept
    simp [enqueuedIndices, enqueue, enqueued?, kept, range_succ]
  case each => rw [indices, dequeued, accounts.each]
  case replayed =>
    rw [indices, dequeued, accounts.replayed, forall_mem_append, forall_mem_singleton]
    simp [InTime, record]

theorem accounts_idle {call : QueueCall} {after : MicrotaskQueue} (nothing : call.task? = none)
    (idle : (queue.perform call).2 = none) (inTime : InTime (record perform queue call))
    (count : after.enqueueCount = queue.enqueueCount)
    (witness : after.witness = queue.witness) (within : after.cursor ≤ after.tasks.length)
    (pending : after.tasks.drop after.cursor = queue.tasks.drop queue.cursor) :
    Accounts (past ++ [record perform queue call]) after := by
  have enqueued := enqueuedTasks_snoc past queue call
  have dequeued := dequeuedTasks_snoc past queue call
  rw [nothing, Option.toList_none, append_nil] at enqueued
  rw [idle, Option.toList_none, append_nil] at dequeued
  have indices : after.dequeuedIndices = queue.dequeuedIndices := by
    rw [dequeuedIndices, witness, dequeuedIndices]
  constructor
  case count => rw [count, enqueued, accounts.count]
  case within => exact within
  case order => rw [enqueued, dequeued, pending, accounts.order]
  case recorded => rw [enqueuedIndices, witness, count, ← accounts.recorded, enqueuedIndices]
  case each => rw [indices, dequeued, accounts.each]
  case replayed =>
    rw [indices, dequeued, accounts.replayed, forall_mem_append, forall_mem_singleton,
      and_iff_left inTime]

theorem accounts_dequeue : Accounts (past ++ [record perform queue .dequeue]) queue.dequeue.2 := by
  cases next : queue.tasks[queue.cursor]? with
  | none =>
    have same : queue.dequeue = (none, queue) := by rw [dequeue, next]
    rw [same]
    refine accounts_idle accounts rfl (by rw [perform, same]) (fun _ inside => ?_) rfl rfl
      accounts.within rfl
    exact absurd inside (List.getElem?_eq_none_iff.mp next).not_gt
  | some task =>
    have moved : queue.dequeue = (some task, { queue with
        cursor := queue.cursor + 1
        witness := queue.witness ++ [.microtaskDequeued queue.cursor] }) := by
      rw [dequeue, next]
    have enqueued := enqueuedTasks_snoc past queue .dequeue
    have dequeued := dequeuedTasks_snoc past queue .dequeue
    simp only [QueueCall.task?, perform, moved, Option.toList, append_nil]
      at enqueued dequeued
    obtain ⟨inside, found⟩ := List.getElem?_eq_some_iff.mp next
    have indices : queue.dequeue.2.dequeuedIndices = queue.dequeuedIndices ++ [queue.cursor] := by
      simp [dequeuedIndices, moved, dequeued?]
    constructor
    case count => rw [enqueued, moved, accounts.count]
    case within =>
      rw [moved]
      exact inside
    case order =>
      rw [enqueued, dequeued, moved, accounts.order, drop_eq_getElem_cons inside, found,
        append_assoc, singleton_append]
    case recorded =>
      rw [moved, ← accounts.recorded]
      simp [enqueuedIndices, enqueued?]
    case each => simp [indices, dequeued, accounts.each]
    case replayed =>
      rw [indices, dequeued, length_append, length_singleton, range_succ,
        append_singleton_inj, accounts.replayed, accounts.cursor_eq_iff, forall_mem_append,
        forall_mem_singleton]
      simp [InTime, record, inside]

theorem accounts_compact : Accounts (past ++ [record perform queue .compact]) queue.compact := by
  by_cases read : 0 < queue.cursor
  case pos =>
    have dropped : queue.compact = { queue with tasks := queue.tasks.drop queue.cursor, cursor := 0 } :=
      if_pos read
    rw [dropped]
    exact accounts_idle accounts rfl rfl nofun rfl rfl (Nat.zero_le _) rfl
  case neg =>
    have same : queue.compact = queue := if_neg read
    rw [same]
    exact accounts_idle accounts rfl rfl nofun rfl rfl accounts.within rfl

theorem accounts_perform (call : QueueCall) :
    Accounts (past ++ [record perform queue call]) (queue.perform call).1 := by
  cases call with
  | enqueue task => exact accounts_enqueue accounts task
  | dequeue => exact accounts_dequeue accounts
  | compact => exact accounts_compact accounts

omit accounts

theorem accounts_new : Accounts [] new := by
  constructor <;> simp [enqueuedTasks, dequeuedTasks, enqueuedIndices, dequeuedIndices, new]

/-- Tasks leave in the order in which they came and none is lost or repeated, the `k`-th task to
come is recorded with index `k`, and the `k`-th task to leave is recorded with index `k` exactly
if every task left before anything had been compacted away. -/
theorem dequeuedIndices_eq_range_iff (calls : List QueueCall) :
    let queue := final perform new calls
    let past := history perform new calls
    enqueuedTasks past = dequeuedTasks past ++ queue.tasks.drop queue.cursor ∧
      queue.enqueuedIndices = List.range (enqueuedTasks past).length ∧
      queue.dequeuedIndices.length = (dequeuedTasks past).length ∧
      (queue.dequeuedIndices = List.range (dequeuedTasks past).length ↔
        ∀ entry ∈ past, InTime entry) := by
  intro queue past
  have accounts : Accounts past queue :=
    history_induction (fun queue past => Accounts past queue) accounts_new
      (fun _ _ call held => accounts_perform held call) calls
  have recorded := accounts.recorded
  rw [accounts.count] at recorded
  exact ⟨accounts.order, recorded, accounts.each, accounts.replayed⟩

/-- The second task is dequeued after a compaction, under the index of the first. -/
theorem dequeuedIndices_rewound :
    let first : Microtask := .promiseReaction none .undefined ⟨0⟩ .publicData
    let second : Microtask := .promiseReaction none .undefined ⟨1⟩ .publicData
    let calls := [.enqueue first, .enqueue second, .dequeue, .compact, .dequeue]
    dequeuedTasks (history perform new calls) = [first, second] ∧
      (final perform new calls).enqueuedIndices = [0, 1] ∧
      (final perform new calls).dequeuedIndices = [0, 0] := by
  exact ⟨rfl, rfl, rfl⟩

end MicrotaskQueue

end FrankenEngine.Promise
