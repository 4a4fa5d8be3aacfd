import FrankenEngine.Library.History
import FrankenEngine.Promise.Store
import Mathlib.Data.List.MinMax
import Mathlib.Data.Prod.Lex

/-!
# The event loop

Macrotasks, the virtual clock and the turns of `promise_model.rs`. The clock only
jumps to the time of the earliest task, so a timer that is set later is due no
earlier than every timer that has fired.
-/

set_option autoImplicit false

namespace FrankenEngine.Promise

open Library List

inductive MacrotaskSource where
  | messageChannel
  | timer
  | ioCompletion
  deriving DecidableEq

def MacrotaskSource.rank : MacrotaskSource → Nat
  | .messageChannel => 0
  | .timer => 1
  | .ioCompletion => 2

structure Macrotask where
  source : MacrotaskSource
  handler : ClosureHandle
  scheduledAt : Nat
  registrationSeq : Nat
  label : Label
  deriving DecidableEq

namespace Macrotask

def due (task : Macrotask) : Nat ×ₗ Nat := toLex (task.scheduledAt, task.registrationSeq)

def priority (task : Macrotask) : Nat ×ₗ Nat ×ₗ Nat := toLex (task.source.rank, task.due)

end Macrotask

structure MacrotaskQueue where
  tasks : List Macrotask := []
  nextRegistrationSeq : Nat := 0

namespace MacrotaskQueue

def schedule (queue : MacrotaskQueue) (source : MacrotaskSource) (handler : ClosureHandle)
    (scheduledAt : Nat) (label : Label) : MacrotaskQueue where
  tasks := queue.tasks ++
    [{ source, handler, scheduledAt, registrationSeq := queue.nextRegistrationSeq, label }]
  nextRegistrationSeq := queue.nextRegistrationSeq + 1

def dequeueReady (queue : MacrotaskQueue) (currentTimeMs : Nat) :
    Option Macrotask × MacrotaskQueue :=
  match (queue.tasks.filter (·.scheduledAt ≤ currentTimeMs)).argmin Macrotask.priority with
  | some task => (some task, { queue with tasks := queue.tasks.erase task })
  | none => (none, queue)

def nextScheduledTime (queue : MacrotaskQueue) : Option Nat :=
  (queue.tasks.map (·.scheduledAt)).min?

end MacrotaskQueue

structure EventLoop where
  microtasks : MicrotaskQueue := .new
  macrotasks : MacrotaskQueue := {}
  clock : Nat := 0
  maxMicrotasksPerTurn : Nat := 100000

structure TurnResult where
  microtasksDrained : Nat
  macrotask : Option Macrotask
  clockAdvanced : Bool

namespace EventLoop

/-- The loop of `drain_microtasks`, with the number of tasks it may still take. -/
def drain : Nat → MicrotaskQueue → Nat × MicrotaskQueue
  | 0, queue => (0, queue)
  | left + 1, queue =>
    match queue.dequeue with
    | (some _, queue) => ((drain left queue).1 + 1, (drain left queue).2)
    | (none, queue) => (0, queue)

def turn (loop : EventLoop) : TurnResult × EventLoop :=
  let (microtasksDrained, microtasks) := drain loop.maxMicrotasksPerTurn loop.microtasks
  match loop.macrotasks.dequeueReady loop.clock with
  | (some task, macrotasks) =>
    ({ microtasksDrained, macrotask := some task, clockAdvanced := false },
      { loop with microtasks, macrotasks })
  | (none, _) =>
    match loop.macrotasks.nextScheduledTime with
    | none =>
      ({ microtasksDrained, macrotask := none, clockAdvanced := false }, { loop with microtasks })
    | some nextTime =>
      let clock := max loop.clock nextTime
      let (macrotask, macrotasks) := loop.macrotasks.dequeueReady clock
      ({ microtasksDrained, macrotask, clockAdvanced := macrotask.isSome },
        { loop with microtasks, macrotasks, clock })

/-- The addition is one of 64-bit numbers. -/
def setTimeout (loop : EventLoop) (handler : ClosureHandle) (delayMs : Nat) (label : Label) :
    EventLoop :=
  { loop with
    macrotasks := loop.macrotasks.schedule .timer handler ((loop.clock + delayMs) % 2 ^ 64) label }

inductive Call where
  | setTimeout (handler : ClosureHandle) (delayMs : Nat) (label : Label)
  | schedule (source : MacrotaskSource) (handler : ClosureHandle) (scheduledAt : Nat)
      (label : Label)
  | turn

def perform (loop : EventLoop) : Call → EventLoop × Option Macrotask
  | .setTimeout handler delayMs label => (loop.setTimeout handler delayMs label, none)
  | .schedule source handler scheduledAt label =>
    ({ loop with macrotasks := loop.macrotasks.schedule source handler scheduledAt label }, none)
  | .turn => (loop.turn.2, loop.turn.1.macrotask)

end EventLoop

namespace MacrotaskQueue

variable {queue after : MacrotaskQueue} {now : Nat} {task : Macrotask}

theorem dequeueReady_some (taken : queue.dequeueReady now = (some task, after)) :
    task ∈ queue.tasks ∧ task.scheduledAt ≤ now ∧
      (∀ other ∈ queue.tasks, other.source = task.source → task.due ≤ other.due) ∧
      after = { queue with tasks := queue.tasks.erase task } := by
  unfold dequeueReady at taken
  split at taken
  next best isBest =>
    cases taken
    obtain ⟨member, ready⟩ := mem_filter.mp (argmin_mem isBest)
    have early := of_decide_eq_true ready
    refine ⟨member, early, fun other isOther same => ?_, rfl⟩
    by_cases isReady : other.scheduledAt ≤ now
    · have least := le_of_mem_argmin
        (mem_filter.mpr ⟨isOther, decide_eq_true isReady⟩) isBest
      rw [Macrotask.priority, Macrotask.priority, same, Prod.Lex.toLex_le_toLex] at least
      exact (least.resolve_left (Nat.lt_irrefl _)).2
    · exact Prod.Lex.toLex_le_toLex.mpr (.inl (Nat.lt_of_le_of_lt early (Nat.not_le.mp isReady)))
  next => cases taken

theorem dequeueReady_none (taken : queue.dequeueReady now = (none, after)) :
    ∀ other ∈ queue.tasks, now < other.scheduledAt := by
  unfold dequeueReady at taken
  split at taken
  next => cases taken
  next none =>
    intro other member
    have passed := filter_eq_nil_iff.mp (argmin_eq_none.mp none) other member
    simpa using passed

end MacrotaskQueue

namespace EventLoop

/-- A turn takes the first of the tasks of one source, and it takes one if there is any. -/
structure Takes (loop after : EventLoop) (task : Macrotask) : Prop where
  pending : task ∈ loop.macrotasks.tasks
  reached : task.scheduledAt ≤ after.clock
  first : ∀ other ∈ loop.macrotasks.tasks, other.source = task.source → task.due ≤ other.due
  rest : after.macrotasks = { loop.macrotasks with tasks := loop.macrotasks.tasks.erase task }

theorem turn_cases (loop : EventLoop) : loop.clock ≤ loop.turn.2.clock ∧
    (loop.turn.1.macrotask = none ∧ loop.macrotasks.tasks = [] ∧
        loop.turn.2.macrotasks = loop.macrotasks ∨
      ∃ task, loop.turn.1.macrotask = some task ∧ loop.Takes loop.turn.2 task) := by
  unfold turn
  dsimp only
  split
  next task macrotasks taken =>
    obtain ⟨pending, reached, first, rest⟩ := MacrotaskQueue.dequeueReady_some taken
    exact ⟨Nat.le_refl _, .inr ⟨task, rfl, pending, reached, first, rest⟩⟩
  next =>
    split
    next nothing =>
      rw [MacrotaskQueue.nextScheduledTime, min?_eq_none_iff, map_eq_nil_iff] at nothing
      exact ⟨Nat.le_refl _, .inl ⟨rfl, nothing, rfl⟩⟩
    next nextTime earliest =>
      refine ⟨Nat.le_max_left _ _, .inr ?_⟩
      cases taken : loop.macrotasks.dequeueReady (max loop.clock nextTime) with
      | mk macrotask macrotasks =>
      cases macrotask with
      | some task =>
        obtain ⟨pending, reached, first, rest⟩ := MacrotaskQueue.dequeueReady_some taken
        exact ⟨task, rfl, pending, reached, first, rest⟩
      | none =>
        -- the clock stands at or past the time of the earliest task, which is therefore ready
        obtain ⟨task, pending, rfl⟩ := mem_map.mp (min?_mem earliest)
        have late := MacrotaskQueue.dequeueReady_none taken task pending
        omega

/-- The books of a run: all tasks that were scheduled, those of them that `set_timeout` set, and
those that turns have returned. -/
structure Accounts (scheduled timers fired : List Macrotask) (loop : EventLoop) : Prop where
  all : scheduled.Perm (fired ++ loop.macrotasks.tasks)
  seqs : scheduled.map (·.registrationSeq) = List.range loop.macrotasks.nextRegistrationSeq
  timer : ∀ task ∈ timers, task ∈ scheduled ∧ task.source = .timer
  reached : ∀ task ∈ fired, task.scheduledAt ≤ loop.clock
  order : (fired.filter (· ∈ timers)).Pairwise fun early late => early.due < late.due
  ahead : ∀ early ∈ fired, early ∈ timers → ∀ late ∈ loop.macrotasks.tasks, late ∈ timers →
    early.due < late.due

section Steps

variable {scheduled timers fired : List Macrotask} {loop : EventLoop}
  (accounts : Accounts scheduled timers fired loop)

include accounts

theorem Accounts.seq_lt {task : Macrotask} (known : task ∈ scheduled) :
    task.registrationSeq < loop.macrotasks.nextRegistrationSeq :=
  mem_range.mp (accounts.seqs ▸ mem_map_of_mem known)

theorem accounts_schedule {source : MacrotaskSource} {handler : ClosureHandle} {time : Nat}
    {label : Label} {task : Macrotask} (set : List Macrotask)
    (isTask : task = ⟨source, handler, time, loop.macrotasks.nextRegistrationSeq, label⟩)
    (sets : ∀ timer ∈ set, timer = task ∧ source = .timer ∧ loop.clock ≤ time) :
    Accounts (scheduled ++ [task]) (timers ++ set) fired
      { loop with macrotasks := loop.macrotasks.schedule source handler time label } := by
  have older : ∀ early ∈ fired, early.registrationSeq < task.registrationSeq := by
    intro early isFired
    rw [isTask]
    exact accounts.seq_lt (accounts.all.mem_iff.mpr (mem_append_left _ isFired))
  have old : ∀ early ∈ fired, (early ∈ timers ++ set ↔ early ∈ timers) := by
    intro early isFired
    rw [mem_append, or_iff_left]
    intro isSet
    exact Nat.lt_irrefl _ ((sets early isSet).1 ▸ older early isFired)
  refine ⟨?_, ?_, ?_, accounts.reached, ?_, ?_⟩
  · rw [MacrotaskQueue.schedule, ← isTask, ← append_assoc]
    exact accounts.all.append_right [task]
  · rw [map_append, accounts.seqs, MacrotaskQueue.schedule, range_succ, isTask, map_singleton]
  · intro timer member
    rcases mem_append.mp member with known | isSet
    · exact (accounts.timer timer known).imp_left (mem_append_left _)
    · obtain ⟨rfl, isTimer, -⟩ := sets timer isSet
      exact ⟨mem_append_right _ (.head _), isTask ▸ isTimer⟩
  · rw [filter_congr fun early isFired => decide_eq_decide.mpr (old early isFired)]
    exact accounts.order
  · intro early isFired isTimer late pending isLate
    rcases mem_append.mp isLate with known | isSet
    · rcases mem_append.mp pending with held | isLast
      · exact accounts.ahead early isFired ((old early isFired).mp isTimer) late held known
      · have earlier := accounts.seq_lt (accounts.timer late known).1
        rw [mem_singleton.mp isLast] at earlier
        exact absurd earlier (Nat.lt_irrefl _)
    · -- the clock has reached every task that fired, and a new timer is due no earlier than it
      obtain ⟨isNew, -, later⟩ := sets late isSet
      have before := (accounts.reached early isFired).trans later
      have registered := older early isFired
      rw [isNew, Macrotask.due, Macrotask.due, Prod.Lex.toLex_lt_toLex, isTask]
      rw [isTask] at registered
      exact (Nat.lt_or_eq_of_le before).imp_right fun same => ⟨same, registered⟩

theorem accounts_turn :
    Accounts scheduled timers (fired ++ loop.turn.1.macrotask.toList) loop.turn.2 := by
  obtain ⟨later, ⟨silent, -, kept⟩ | ⟨task, returned, pending, reached, first, rest⟩⟩ :=
    turn_cases loop
  · rw [silent, Option.toList_none, append_nil]
    obtain ⟨all, seqs, timer, past, order, ahead⟩ := accounts
    rw [← kept] at all seqs ahead
    exact ⟨all, seqs, timer, fun early isFired => (past early isFired).trans later, order, ahead⟩
  · rw [returned, Option.toList_some]
    have split := perm_cons_erase pending
    have once := (accounts.all.trans (split.append_left fired)).map (·.registrationSeq)
    rw [accounts.seqs, map_append] at once
    have fresh := (nodup_append.mp (once.nodup nodup_range)).2.1
    rw [map_cons, nodup_cons] at fresh
    refine ⟨?_, ?_, accounts.timer, ?_, ?_, ?_⟩
    · rw [rest, append_assoc]
      exact accounts.all.trans (split.append_left fired)
    · rw [rest]
      exact accounts.seqs
    · intro early isFired
      rcases mem_append.mp isFired with old | isTask
      · exact (accounts.reached early old).trans later
      · exact mem_singleton.mp isTask ▸ reached
    · rw [filter_append]
      refine pairwise_append.mpr ⟨accounts.order, (pairwise_singleton _ task).filter _, ?_⟩
      intro early isEarly late isLate
      obtain ⟨isFired, isTimer⟩ := mem_filter.mp isEarly
      obtain ⟨isTask, isLate⟩ := mem_filter.mp isLate
      refine accounts.ahead early isFired (of_decide_eq_true isTimer) late ?_ ?_
      · exact mem_singleton.mp isTask ▸ pending
      · exact of_decide_eq_true isLate
    · rw [rest]
      intro early isFired isTimer late member isLate
      rcases mem_append.mp isFired with old | isTask
      · exact accounts.ahead early old isTimer late (mem_of_mem_erase member) isLate
      · obtain rfl := mem_singleton.mp isTask
        have source := (accounts.timer late isLate).2.trans (accounts.timer early isTimer).2.symm
        refine lt_of_le_of_ne (first late (mem_of_mem_erase member) source) fun same => ?_
        rw [Macrotask.due, Macrotask.due, toLex_inj, Prod.mk.injEq] at same
        exact fresh.1 (same.2 ▸ mem_map_of_mem member)

end Steps

section Histories

variable (past : List (Record EventLoop Call (Option Macrotask)))

variable (entry : Record EventLoop Call (Option Macrotask))

def added : List Macrotask :=
  match entry.call with
  | .turn => []
  | _ => entry.after.macrotasks.tasks.drop entry.before.macrotasks.tasks.length

def timed : List Macrotask :=
  match entry.call with
  | .setTimeout .. => added entry
  | _ => []

def scheduled : List Macrotask := past.flatMap added

def timers : List Macrotask := past.flatMap timed

def fired : List Macrotask := past.flatMap (·.outcome.toList)

/-- No time that was set passes the end of the 64-bit range. -/
def Within : Prop :=
  match entry.call with
  | .setTimeout _ delayMs _ => entry.before.clock + delayMs < 2 ^ 64
  | _ => True

end Histories

theorem accounts_history (calls : List Call) :
    (∀ entry ∈ history perform {} calls, Within entry) →
      Accounts (scheduled (history perform {} calls)) (timers (history perform {} calls))
        (fired (history perform {} calls)) (final perform {} calls) := by
  refine history_induction (fun loop past => (∀ entry ∈ past, Within entry) →
    Accounts (scheduled past) (timers past) (fired past) loop) ?_ ?_ calls
  · intro _
    exact ⟨.nil, rfl, forall_mem_nil _, forall_mem_nil _, .nil, forall_mem_nil _⟩
  · intro loop past call accounts within
    have books := accounts fun entry member => within entry (mem_append_left _ member)
    have limit := within _ (mem_append_right _ (.head _))
    rw [scheduled, timers, fired, flatMap_append, flatMap_append, flatMap_append,
      flatMap_singleton, flatMap_singleton, flatMap_singleton]
    change Accounts (scheduled past ++ added _) (timers past ++ timed _) (fired past ++ _) _
    cases call with
    | setTimeout handler delayMs label =>
      have inRange := Nat.mod_eq_of_lt limit
      simp only [record, perform, setTimeout, added, timed, MacrotaskQueue.schedule, drop_left,
        Option.toList_none, append_nil]
      refine accounts_schedule books _ rfl fun timer isSet => ⟨mem_singleton.mp isSet, rfl, ?_⟩
      exact (Nat.le_add_right _ _).trans_eq inRange.symm
    | schedule source handler scheduledAt label =>
      simp only [record, perform, added, timed, MacrotaskQueue.schedule, drop_left,
        Option.toList_none, append_nil (fired past)]
      exact accounts_schedule books [] rfl (forall_mem_nil _)
    | turn =>
      simp only [record, added, timed, append_nil]
      exact accounts_turn books

theorem perform_clock (loop : EventLoop) (call : Call) :
    loop.clock ≤ (loop.perform call).1.clock ∧
      (∀ task ∈ (loop.perform call).2, task.scheduledAt ≤ (loop.perform call).1.clock) ∧
      (call = .turn → loop.macrotasks.tasks ≠ [] → (loop.perform call).2.isSome) := by
  cases call with
  | setTimeout | schedule =>
    refine ⟨Nat.le_refl _, fun task isTask => ?_, fun isTurn => ?_⟩
    · cases isTask
    · cases isTurn
  | turn =>
    obtain ⟨later, ⟨silent, empty, -⟩ | ⟨task, returned, takes⟩⟩ := turn_cases loop
    · refine ⟨later, fun task isTask => ?_, fun _ pending => absurd empty pending⟩
      cases silent.symm.trans isTask
    · refine ⟨later, fun other isOther => ?_, fun _ _ => Option.isSome_of_mem returned⟩
      cases returned.symm.trans isOther
      exact takes.reached

/-- In every run the clock never goes back, every task that a turn returns is due, and a turn
returns one whenever one is pending. The tasks that were scheduled, all different, are those that
have been returned and those that are pending, and timers fire in the order of their times, and
of their registration for the same time. -/
theorem turns_of_history (calls : List Call)
    (within : ∀ entry ∈ history perform {} calls, Within entry) :
    (∀ entry ∈ history perform {} calls, entry.before.clock ≤ entry.after.clock ∧
      (∀ task ∈ entry.outcome, task.scheduledAt ≤ entry.after.clock) ∧
      (entry.call = .turn → entry.before.macrotasks.tasks ≠ [] → entry.outcome.isSome)) ∧
    (scheduled (history perform {} calls)).Nodup ∧
    (scheduled (history perform {} calls)).Perm
      (fired (history perform {} calls) ++ (final perform {} calls).macrotasks.tasks) ∧
    ((fired (history perform {} calls)).filter
      (· ∈ timers (history perform {} calls))).Pairwise fun early late => early.due < late.due := by
  have accounts := accounts_history calls within
  refine ⟨fun entry member => ?_, ?_, accounts.all, accounts.order⟩
  · rw [(mem_history member).2]
    exact perform_clock entry.before entry.call
  · exact .of_map _ (accounts.seqs ▸ nodup_range)

theorem turns_of_two_timers : ∃ calls : List Call,
    (fired (history perform {} calls)).map (·.registrationSeq) = [1, 0] ∧
      ((fired (history perform {} calls)).filter
        (· ∈ timers (history perform {} calls))).Pairwise fun early late => early.due < late.due := by
  refine ⟨[.setTimeout ⟨0⟩ 5 .publicData, .setTimeout ⟨1⟩ 3 .publicData, .turn, .turn], by decide, ?_⟩
  refine (turns_of_history _ ?_).2.2.2
  simp [history, record, Within, perform, setTimeout]

end EventLoop

end FrankenEngine.Promise
