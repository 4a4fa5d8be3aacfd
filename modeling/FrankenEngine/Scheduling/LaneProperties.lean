import FrankenEngine.Library.History
import FrankenEngine.Scheduling.LaneScheduler

/-!
# Batches of the lane scheduler

No task is lost or returned twice, and the tasks of a lane are returned in the
order of their submission or, if they are timed, of their deadlines. Sub-bands
are served in their order only where the queue happens to stand in it.
-/

set_option autoImplicit false

namespace FrankenEngine.Scheduling

open Library List

inductive Call where
  | submit (label : TaskLabel) (deadlineTick : UInt64) (payloadId : String) (currentTicks : UInt64)
  | scheduleBatch (batchSize : Nat) (currentTicks : UInt64)

inductive Outcome where
  | submitted (answer : Except LaneError UInt64)
  | scheduled (batch : List ScheduledTask)

namespace LaneScheduler

def perform (scheduler : LaneScheduler) : Call → LaneScheduler × Outcome
  | .submit label deadlineTick payloadId currentTicks =>
    match scheduler.submit label deadlineTick payloadId currentTicks with
    | .ok (after, taskId) => (after, .submitted (.ok taskId))
    | .error error => (scheduler, .submitted (.error error))
  | .scheduleBatch batchSize currentTicks =>
    let (after, batch) := scheduler.scheduleBatch batchSize currentTicks
    (after, .scheduled batch)

abbrev Entry := Record LaneScheduler Call Outcome

section Histories

variable (past : List Entry)

def accepted? (entry : Entry) : Option ScheduledTask :=
  match entry.call, entry.outcome with
  | .submit label deadlineTick payloadId currentTicks, .submitted (.ok taskId) =>
    some ⟨taskId, label, deadlineTick, currentTicks, payloadId⟩
  | _, _ => none

def batchOf (entry : Entry) : List ScheduledTask :=
  match entry.outcome with
  | .submitted _ => []
  | .scheduled batch => batch

/-- The accepted tasks in the order of their submission. -/
def accepted : List ScheduledTask := past.filterMap accepted?

def returned : List ScheduledTask := past.flatMap batchOf

end Histories

section Places

variable (scheduler : LaneScheduler)

def queued : List ScheduledTask :=
  scheduler.queue .cancel ++ scheduler.queue .timed ++ scheduler.queue .ready

def timeouts : List SchedulerEvent := scheduler.events.filter (·.event = .timeout)

end Places

def withDeadline (tick : UInt64) (tasks : List ScheduledTask) : List ScheduledTask :=
  tasks.filter (·.deadlineTick = tick)

/-- Every accepted task is queued, was returned or was reported as timed out, once. -/
def Conserved (past : List Entry) (scheduler : LaneScheduler) : Prop :=
  ∃ timedOut : List ScheduledTask,
    scheduler.timeouts = timedOut.map (·.report .timed 0 .timeout) ∧
      (accepted past).Perm (scheduler.queued ++ returned past ++ timedOut)

/-- The parts of a batch stand in the order of submission, and timed tasks in that of their
deadlines first. -/
structure InOrder (past : List Entry) (currentTicks : UInt64)
    (cancelled due ready : List ScheduledTask) : Prop where
  cancelLane : ∀ task ∈ cancelled, task.label.lane = .cancel
  cancelOrder : cancelled <+ accepted past
  timedLane : ∀ task ∈ due, task.label.lane = .timed ∧ task.deadlineTick ≤ currentTicks
  timedOrder : due.Pairwise (·.deadlineTick ≤ ·.deadlineTick) ∧
    ∀ tick, withDeadline tick due <+ accepted past
  readyLane : ∀ task ∈ ready, task.label.lane = .ready
  readyOrder : ready <+ accepted past

/-- What is returned when a batch is scheduled after this past. -/
def Schedules (config : LaneConfig) (past : List Entry) (entry : Entry) : Prop :=
  ∀ batchSize currentTicks, entry.call = .scheduleBatch batchSize currentTicks →
    ∃ cancelled due ready, batchOf entry = cancelled ++ due ++ ready ∧
      InOrder past currentTicks cancelled due ready ∧
      cancelled.length + due.length ≤ batchSize ∧
      (0 < batchSize →
        min config.readyMinThroughput entry.before.readyQueue.length ≤ ready.length)

/-!
## Timed tasks
-/

section Timed

variable {currentTicks : UInt64} {room : Nat} {tasks : List ScheduledTask}

theorem withDeadline_insertionSort (tick : UInt64) (tasks : List ScheduledTask) :
    withDeadline tick (tasks.insertionSort (·.deadlineTick ≤ ·.deadlineTick)) =
      withDeadline tick tasks := by
  have equal : (withDeadline tick tasks).Pairwise (·.deadlineTick ≤ ·.deadlineTick) := by
    refine pairwise_of_forall_mem_list fun first isFirst second isSecond => ?_
    rw [of_decide_eq_true (mem_filter.mp isFirst).2, of_decide_eq_true (mem_filter.mp isSecond).2]
  -- Sorting is stable: what stands in order already keeps its order.
  have kept := (sublist_insertionSort equal filter_sublist).filter (·.deadlineTick = tick)
  rw [withDeadline, filter_filter] at kept
  simp only [Bool.and_self] at kept
  refine (kept.eq_of_length ?_).symm
  exact ((perm_insertionSort _ tasks).filter _).length_eq.symm

theorem takeDue_eq_nil (idle : room = 0 ∨ ∀ task ∈ tasks, ¬ task.deadlineTick ≤ currentTicks) :
    takeDue currentTicks room tasks = ([], tasks) := by
  induction tasks with
  | nil => rfl
  | cons task rest ih =>
    have stays : ¬ (0 < room ∧ task.deadlineTick ≤ currentTicks) := by
      rintro ⟨free, due⟩
      rcases idle with full | late
      · exact absurd full (Nat.ne_of_gt free)
      · exact late task (.head _) due
    have rest := ih (idle.imp_right fun late other member => late other (.tail _ member))
    rw [takeDue, if_neg stays, rest]

/-- Of sorted tasks, the first ones are taken. -/
theorem takeDue_of_pairwise (sorted : tasks.Pairwise (·.deadlineTick ≤ ·.deadlineTick)) :
    let count := min room (tasks.countP (·.deadlineTick ≤ currentTicks))
    takeDue currentTicks room tasks = (tasks.take count, tasks.drop count) ∧
      ∀ task ∈ tasks.take count, task.deadlineTick ≤ currentTicks := by
  induction tasks generalizing room with
  | nil => simp [takeDue]
  | cons task rest ih =>
    obtain ⟨first, sortedRest⟩ := pairwise_cons.mp sorted
    by_cases due : task.deadlineTick ≤ currentTicks
    · rw [countP_cons_of_pos (by simpa using due)]
      cases room with
      | zero => simp [takeDue_eq_nil]
      | succ room =>
        obtain ⟨taken, allDue⟩ := @ih room sortedRest
        simp only [takeDue, Nat.succ_pos, due, and_self, if_true, Nat.add_sub_cancel,
          Nat.add_min_add_right, take_succ_cons, drop_succ_cons, taken]
        exact ⟨trivial, forall_mem_cons.mpr ⟨due, allDue⟩⟩
    · have late : ∀ other ∈ task :: rest, ¬ other.deadlineTick ≤ currentTicks :=
        forall_mem_cons.mpr ⟨due, fun other member isDue => due ((first other member).trans isDue)⟩
      have none : (task :: rest).countP (·.deadlineTick ≤ currentTicks) = 0 :=
        countP_eq_zero.mpr fun other member => by simpa using late other member
      simp [none, takeDue_eq_nil (.inr late)]

end Timed

section Batches

variable (scheduler : LaneScheduler) (batchSize : Nat) (currentTicks : UInt64)

/-- The timed tasks are pulled from the front of some arrangement of their queue. -/
theorem pullTimed_spec : ∃ line taken, scheduler.pullTimed batchSize currentTicks =
        (line.take taken, line.drop taken) ∧
      line.Perm scheduler.timedQueue ∧
      (∀ tick, withDeadline tick line = withDeadline tick scheduler.timedQueue) ∧
      (line.take taken).Pairwise (·.deadlineTick ≤ ·.deadlineTick) ∧
      (∀ task ∈ line.take taken, task.deadlineTick ≤ currentTicks) ∧
      (line.take taken).length = min (batchSize - (scheduler.cancelled batchSize).length)
        (scheduler.timedQueue.countP (·.deadlineTick ≤ currentTicks)) := by
  have short : (scheduler.cancelled batchSize).length ≤ batchSize := length_take_le _ _
  unfold pullTimed
  by_cases room : (scheduler.cancelled batchSize).length < batchSize
  · have sorted := pairwise_insertionSort (fun left right : ScheduledTask =>
      left.deadlineTick ≤ right.deadlineTick) scheduler.timedQueue
    have perm := perm_insertionSort (fun left right : ScheduledTask =>
      left.deadlineTick ≤ right.deadlineTick) scheduler.timedQueue
    obtain ⟨split, due⟩ := @takeDue_of_pairwise currentTicks
      (batchSize - (scheduler.cancelled batchSize).length) _ sorted
    refine ⟨_, _, (if_pos room).trans split, perm,
      fun tick => withDeadline_insertionSort tick _, ?_, due, ?_⟩
    · exact sorted.sublist (take_sublist _ _)
    · rw [length_take, perm.countP_eq, perm.length_eq]
      have most := scheduler.timedQueue.countP_le_length (p := (·.deadlineTick ≤ currentTicks))
      omega
  · refine ⟨scheduler.timedQueue, 0, if_neg room, .rfl, fun _ => rfl, .nil, nofun, ?_⟩
    rw [Nat.sub_eq_zero_of_le (Nat.not_lt.mp room), Nat.zero_min]
    rfl

/-- The room in a batch for tasks of the lane. -/
def freeSlots : SchedulerLane → Nat
  | .cancel => batchSize
  | .timed => batchSize - scheduler.cancelQueue.length
  | .ready =>
    if batchSize = 0 then 0
    else max (batchSize - (scheduler.cancelQueue.length +
      scheduler.timedQueue.countP (·.deadlineTick ≤ currentTicks)))
        scheduler.config.readyMinThroughput

theorem readySlots_eq : scheduler.readySlots batchSize currentTicks =
    scheduler.freeSlots batchSize currentTicks .ready := by
  obtain ⟨line, taken, pulled, -, -, -, -, length⟩ :=
    scheduler.pullTimed_spec batchSize currentTicks
  have cancelled : (scheduler.cancelled batchSize).length =
      min batchSize scheduler.cancelQueue.length := length_take
  rw [cancelled] at length
  simp only [readySlots, freeSlots, pulled, length, cancelled]
  split
  · rfl
  · split <;> omega

end Batches

/-!
## Conservation
-/

structure Accounts (config : LaneConfig) (past : List Entry) (scheduler : LaneScheduler) :
    Prop where
  configured : scheduler.config = config
  lanes : ∀ lane, ∀ task ∈ scheduler.queue lane, task.label.lane = lane
  order : ∀ lane, lane ≠ .timed → scheduler.queue lane <+ accepted past
  ties : ∀ tick, withDeadline tick (scheduler.queue .timed) <+ accepted past
  conserved : Conserved past scheduler

variable {scheduler : LaneScheduler} {config : LaneConfig} {past : List Entry} {entry : Entry}

theorem accepted_snoc : accepted (past ++ [entry]) = accepted past ++ (accepted? entry).toList := by
  rw [accepted, filterMap_append]
  cases isAccepted : accepted? entry <;> simp [accepted, isAccepted]

theorem returned_snoc : returned (past ++ [entry]) = returned past ++ batchOf entry := by
  simp [returned]

theorem queue_accept (task : ScheduledTask) (lane : SchedulerLane) :
    (scheduler.accept task).queue lane =
      scheduler.queue lane ++ if lane = task.label.lane then [task] else [] := by
  unfold accept
  cases task.label.lane <;> cases lane <;> simp [pushBack, queue]

theorem timeouts_map_report (tasks : List ScheduledTask) (lane : ScheduledTask → SchedulerLane)
    (event : EventType) :
    (tasks.map fun task => task.report (lane task) 0 event).filter (·.event = .timeout) =
      if event = .timeout then tasks.map fun task => task.report (lane task) 0 event else [] := by
  cases event <;> simp [filter_map, Function.comp_def, ScheduledTask.report]

/-- A call is rejected, accepts a task or schedules a batch. -/
theorem record_cases (scheduler : LaneScheduler) (call : Call) :
    let entry := record perform scheduler call
    (entry.after = scheduler ∧ accepted? entry = none ∧ batchOf entry = []) ∨
      (∃ task, entry.after = scheduler.accept task ∧ accepted? entry = some task ∧
        batchOf entry = []) ∨
      ∃ batchSize currentTicks, call = .scheduleBatch batchSize currentTicks := by
  cases call with
  | submit label deadlineTick payloadId currentTicks =>
    simp only [record, perform, submit, accepted?, batchOf]
    split_ifs
    · exact .inl ⟨rfl, rfl, rfl⟩
    · exact .inl ⟨rfl, rfl, rfl⟩
    · exact .inl ⟨rfl, rfl, rfl⟩
    · exact .inr (.inl ⟨_, rfl, rfl, rfl⟩)
  | scheduleBatch batchSize currentTicks => exact .inr (.inr ⟨batchSize, currentTicks, rfl⟩)

variable (accounts : Accounts config past scheduler)

include accounts

theorem Accounts.accept {task : ScheduledTask} (isAccepted : accepted? entry = some task)
    (nothing : batchOf entry = []) : Accounts config (past ++ [entry]) (scheduler.accept task) := by
  have grown : accepted (past ++ [entry]) = accepted past ++ [task] := by
    rw [accepted_snoc, isAccepted]
    rfl
  have one (lane : SchedulerLane) : (if lane = task.label.lane then [task] else []) <+ [task] := by
    split
    · exact .refl _
    · exact nil_sublist _
  refine ⟨?_, fun lane other member => ?_, fun lane untimed => ?_, fun tick => ?_, ?_⟩
  · rw [← accounts.configured, LaneScheduler.accept]
    cases task.label.lane <;> rfl
  · rw [queue_accept, mem_append] at member
    rcases member with old | new
    · exact accounts.lanes lane other old
    · split at new
      next own => rw [mem_singleton.mp new, own]
      next => cases new
  · rw [queue_accept, grown]
    exact (accounts.order lane untimed).append (one lane)
  · rw [queue_accept, grown, withDeadline, filter_append]
    exact (accounts.ties tick).append (filter_sublist.trans (one _))
  · obtain ⟨timedOut, reported, perm⟩ := accounts.conserved
    refine ⟨timedOut, ?_, ?_⟩
    · rw [← reported]
      simp [timeouts, LaneScheduler.accept, ScheduledTask.report]
    · rw [grown, returned_snoc, nothing, append_nil]
      rw [perm_iff_count] at perm ⊢
      intro other
      have before := perm other
      simp only [queued, queue_accept, count_append] at before ⊢
      cases task.label.lane <;> simp <;> omega

theorem Accounts.scheduleBatch {batchSize : Nat} {currentTicks : UInt64}
    (nothing : accepted? entry = none)
    (isBatch : batchOf entry = (scheduler.scheduleBatch batchSize currentTicks).2) :
    Accounts config (past ++ [entry]) (scheduler.scheduleBatch batchSize currentTicks).1 := by
  obtain ⟨line, taken, pulled, perm, ties, -⟩ := scheduler.pullTimed_spec batchSize currentTicks
  have same : accepted (past ++ [entry]) = accepted past := by
    rw [accepted_snoc, nothing, Option.toList_none, append_nil]
  have timed : (scheduler.scheduleBatch batchSize currentTicks).1.queue .timed <+ line := by
    simp only [LaneScheduler.scheduleBatch, queue, pulled]
    exact filter_sublist.trans (drop_sublist _ _)
  have shrunk (lane : SchedulerLane) (untimed : lane ≠ .timed) :
      (scheduler.scheduleBatch batchSize currentTicks).1.queue lane <+ scheduler.queue lane := by
    cases lane with
    | timed => exact absurd rfl untimed
    | cancel | ready => exact drop_sublist _ _
  refine ⟨accounts.configured, fun lane task member => ?_, fun lane untimed => ?_, fun tick => ?_,
    ?_⟩
  · by_cases untimed : lane = .timed
    · subst untimed
      exact accounts.lanes .timed task (perm.mem_iff.mp (timed.subset member))
    · exact accounts.lanes lane task ((shrunk lane untimed).subset member)
  · rw [same]
    exact (shrunk lane untimed).trans (accounts.order lane untimed)
  · rw [same]
    have old := accounts.ties tick
    rw [queue, ← ties] at old
    exact (timed.filter _).trans old
  · obtain ⟨timedOut, reported, conserved⟩ := accounts.conserved
    refine ⟨timedOut ++ (line.drop taken).filter (isExpired currentTicks), ?_, ?_⟩
    · simp only [timeouts, LaneScheduler.scheduleBatch, pulled, filter_append]
      rw [timeouts_map_report, timeouts_map_report]
      simp only [reduceCtorEq, if_false, if_true, append_nil, map_append, ← reported]
      rfl
    · rw [same, returned_snoc, isBatch]
      rw [perm_iff_count] at conserved perm ⊢
      intro task
      have before := conserved task
      have apart (place : Nat) (tasks : List ScheduledTask) :
          count task (tasks.take place) + count task (tasks.drop place) = count task tasks := by
        rw [← count_append, take_append_drop]
      have ended := (filter_append_perm (isExpired currentTicks) (line.drop taken)).count_eq task
      have cancelled := apart batchSize scheduler.cancelQueue
      have ready := apart (scheduler.readySlots batchSize currentTicks) scheduler.readyQueue
      have moved := (apart taken line).trans (perm task)
      simp only [queued, queue, LaneScheduler.scheduleBatch, LaneScheduler.cancelled, pulled,
        count_append] at before ended ⊢
      omega

theorem Accounts.perform (call : Call) :
    Accounts config (past ++ [record perform scheduler call]) (scheduler.perform call).1 := by
  rcases record_cases scheduler call with ⟨unchanged, rejected, nothing⟩ |
    ⟨task, grown, isAccepted, nothing⟩ | ⟨batchSize, currentTicks, rfl⟩
  · have same : accepted (past ++ [record LaneScheduler.perform scheduler call]) =
        accepted past := by
      rw [accepted_snoc, rejected, Option.toList_none, append_nil]
    obtain ⟨timedOut, reported, conserved⟩ := accounts.conserved
    change Accounts config _ (record LaneScheduler.perform scheduler call).after
    rw [unchanged]
    refine ⟨accounts.configured, accounts.lanes, same ▸ accounts.order, same ▸ accounts.ties,
      timedOut, reported, ?_⟩
    rwa [same, returned_snoc, nothing, append_nil]
  · change Accounts config _ (record LaneScheduler.perform scheduler call).after
    rw [grown]
    exact accounts.accept isAccepted nothing
  · exact accounts.scheduleBatch rfl rfl

theorem Accounts.schedules (call : Call) :
    Schedules config past (record LaneScheduler.perform scheduler call) := by
  rintro batchSize currentTicks ⟨⟩
  obtain ⟨line, taken, pulled, perm, ties, rising, due, length⟩ :=
    scheduler.pullTimed_spec batchSize currentTicks
  have short : (scheduler.cancelled batchSize).length ≤ batchSize := length_take_le _ _
  refine ⟨scheduler.cancelled batchSize, line.take taken,
    scheduler.readyQueue.take (scheduler.readySlots batchSize currentTicks), ?_,
    ⟨?_, ?_, fun task member => ⟨?_, due task member⟩, ⟨rising, ?_⟩, ?_, ?_⟩, ?_, ?_⟩
  · simp only [batchOf, record, LaneScheduler.perform, LaneScheduler.scheduleBatch, pulled]
  · exact fun task member => accounts.lanes .cancel task (mem_of_mem_take member)
  · exact (take_sublist _ _).trans (accounts.order .cancel nofun)
  · exact accounts.lanes .timed task (perm.mem_iff.mp (mem_of_mem_take member))
  · intro tick
    have old := accounts.ties tick
    rw [queue, ← ties] at old
    exact ((take_sublist _ _).filter _).trans old
  · exact fun task member => accounts.lanes .ready task (mem_of_mem_take member)
  · exact (take_sublist _ _).trans (accounts.order .ready nofun)
  · omega
  · intro positive
    rw [length_take, readySlots_eq, freeSlots, if_neg (Nat.ne_of_gt positive), accounts.configured]
    change min _ scheduler.readyQueue.length ≤ _
    omega

omit accounts

theorem accounts_new (config : LaneConfig) : Accounts config [] (new config) where
  configured := rfl
  lanes lane := by cases lane <;> exact nofun
  order lane _ := by cases lane <;> exact nil_sublist _
  ties _ := nil_sublist _
  conserved := ⟨[], rfl, .refl _⟩

/-- The accounts are right before every call of a run and at its end. -/
theorem accounts_run (config : LaneConfig) (calls : List Call) :
    Accounts config (history perform (new config) calls) (final perform (new config) calls) ∧
      ∀ before entry after, history perform (new config) calls = before ++ entry :: after →
        Accounts config before entry.before ∧ entry = record perform entry.before entry.call :=
  history_induction (fun scheduler past => Accounts config past scheduler ∧
    ∀ before entry after, past = before ++ entry :: after →
      Accounts config before entry.before ∧ entry = record perform entry.before entry.call)
    ⟨accounts_new config, by simp⟩ (fun _ _ call ⟨accounts, each⟩ =>
      ⟨accounts.perform call, forall_places_snoc.mpr ⟨each, accounts, rfl⟩⟩) calls

def ofBand (band : UInt32) (tasks : List ScheduledTask) : List ScheduledTask :=
  tasks.filter (·.label.prioritySubBand = band)

/-- The first tasks of each band are returned in the order of submission, and before a task is
returned all queued tasks of the lower bands are. -/
structure InBandOrder (submitted queue batch : List ScheduledTask) : Prop where
  first : ∀ band, ofBand band batch <+: ofBand band queue
  order : ∀ band, ofBand band batch <+ submitted
  lower : ∀ earlier task later, batch = earlier ++ task :: later →
    ∀ band < task.label.prioritySubBand, ofBand band queue <+ earlier

def Prioritized (past : List Entry) (entry : Entry) : Prop :=
  ∀ batchSize currentTicks, entry.call = .scheduleBatch batchSize currentTicks →
    ∀ lane, lane ≠ .timed → InBandOrder (accepted past) (entry.before.queue lane)
      ((batchOf entry).filter (·.label.lane = lane))

/-- None of the first tasks stands before one of a lower band. -/
def LowestInFront (slots : Nat) (queue : List ScheduledTask) : Prop :=
  ∀ earlier task later, queue = earlier ++ task :: later → earlier.length < slots →
    ∀ behind ∈ later, task.label.prioritySubBand ≤ behind.label.prioritySubBand

/-- In both lanes, no task for which the batch has room stands before one of a lower band. -/
def QueuesByBand (entry : Entry) : Prop :=
  ∀ batchSize currentTicks, entry.call = .scheduleBatch batchSize currentTicks →
    ∀ lane, lane ≠ .timed →
      LowestInFront (entry.before.freeSlots batchSize currentTicks lane) (entry.before.queue lane)

theorem inBandOrder_take_iff (slots : Nat) {submitted queue : List ScheduledTask}
    (order : queue <+ submitted) :
    InBandOrder submitted queue (queue.take slots) ↔ LowestInFront slots queue := by
  constructor
  · rintro ⟨-, -, lower⟩ earlier task later rfl inside behind member
    by_contra less
    have taken : (earlier ++ task :: later).take slots =
        earlier ++ task :: later.take (slots - earlier.length - 1) := by
      obtain ⟨more, rfl⟩ := Nat.exists_eq_add_of_lt inside
      rw [take_append, take_of_length_le (by omega), Nat.add_assoc, Nat.add_sub_cancel_left,
        take_succ_cons, Nat.add_sub_cancel]
    have all := (lower earlier task _ taken _ (UInt32.not_le.mp less)).filter
      (·.label.prioritySubBand = behind.label.prioritySubBand)
    have own : behind ∈ ofBand behind.label.prioritySubBand (task :: later) :=
      mem_filter.mpr ⟨.tail _ member, decide_eq_true rfl⟩
    have positive := length_pos_of_mem own
    have short := all.length_le
    rw [ofBand, filter_filter] at short
    simp only [Bool.and_self, filter_append, length_append] at short
    unfold ofBand at positive
    omega
  · intro fronted
    refine ⟨fun band => ( take_prefix _ _).filter _,
      fun band => (filter_sublist.trans (take_sublist _ _)).trans order,
      fun earlier task later split band less => ?_⟩
    have whole : queue = earlier ++ task :: (later ++ queue.drop slots) := by
      conv_lhs => rw [← take_append_drop slots queue, split, append_assoc, cons_append]
    have inside : earlier.length < slots := by
      have length := congrArg List.length split
      rw [length_take, length_append, length_cons] at length
      omega
    have none : ofBand band (task :: (later ++ queue.drop slots)) = [] := by
      refine filter_eq_nil_iff.mpr fun other member => ?_
      rw [decide_eq_true_eq]
      rintro rfl
      rcases mem_cons.mp member with rfl | behind
      · exact UInt32.lt_irrefl _ less
      · exact UInt32.not_lt.mpr (fronted earlier task _ whole inside other behind) less
    have same : ofBand band queue = ofBand band earlier := by
      rw [whole, ofBand, filter_append]
      exact (congrArg _ none).trans (append_nil _)
    rw [same]
    exact filter_sublist

theorem filter_batch (lanes : ∀ lane, ∀ task ∈ scheduler.queue lane, task.label.lane = lane)
    (batchSize : Nat) (currentTicks : UInt64) {lane : SchedulerLane} (untimed : lane ≠ .timed) :
    (scheduler.scheduleBatch batchSize currentTicks).2.filter (·.label.lane = lane) =
      (scheduler.queue lane).take (scheduler.freeSlots batchSize currentTicks lane) := by
  obtain ⟨line, taken, pulled, perm, -⟩ := scheduler.pullTimed_spec batchSize currentTicks
  have part (own : SchedulerLane) {tasks : List ScheduledTask}
      (inside : ∀ task ∈ tasks, task ∈ scheduler.queue own) :
      tasks.filter (·.label.lane = lane) = if own = lane then tasks else [] := by
    have lane_eq : ∀ task ∈ tasks, task.label.lane = own :=
      fun task member => lanes own task (inside task member)
    split
    next same => exact filter_eq_self.mpr fun task member => by simp [lane_eq task member, same]
    next apart =>
      exact filter_eq_nil_iff.mpr fun task member => by simp [lane_eq task member, apart]
  have cancelled := part .cancel fun task (member : task ∈ scheduler.cancelled batchSize) =>
    mem_of_mem_take member
  have timed := part .timed fun task (member : task ∈ line.take taken) =>
    perm.mem_iff.mp (mem_of_mem_take member)
  have ready := part .ready fun task (member : task ∈ scheduler.readyQueue.take
    (scheduler.readySlots batchSize currentTicks)) => mem_of_mem_take member
  simp only [LaneScheduler.scheduleBatch, pulled, filter_append, cancelled, timed, ready]
  cases lane with
  | timed => exact absurd rfl untimed
  | cancel => simp [queue, freeSlots, LaneScheduler.cancelled]
  | ready => simp [queue, readySlots_eq]

/-- Every batch of a run keeps the order of the bands exactly if no batch has room for a task that
stands before one of a lower band. -/
theorem run_prioritized_iff (config : LaneConfig) (calls : List Call) :
    (∀ before entry after, history perform (new config) calls = before ++ entry :: after →
        Prioritized before entry) ↔
      ∀ before entry after, history perform (new config) calls = before ++ entry :: after →
        QueuesByBand entry := by
  refine forall₄_congr fun before entry after split => ?_
  obtain ⟨accounts, recorded⟩ := (accounts_run config calls).2 before entry after split
  refine forall₃_congr fun batchSize currentTicks isCall => forall₂_congr fun lane untimed => ?_
  have batch : batchOf entry = (entry.before.scheduleBatch batchSize currentTicks).2 := by
    rw [recorded, isCall]
    rfl
  rw [batch, filter_batch accounts.lanes _ _ untimed,
    inBandOrder_take_iff _ (accounts.order lane untimed)]

def cleanup (band : UInt32) : TaskLabel := ⟨.cancel, .cancelCleanup, "trace", band⟩

/-- With room for one task, the less urgent one is returned and the more urgent one waits. -/
theorem scheduleBatch_ignores_band :
    let calls :=
      [.submit (cleanup 1) 0 "bulk" 0, .submit (cleanup 0) 0 "urgent" 0, .scheduleBatch 1 0]
    let bulk : ScheduledTask := ⟨1, cleanup 1, 0, 0, "bulk"⟩
    let urgent : ScheduledTask := ⟨2, cleanup 0, 0, 0, "urgent"⟩
    ∃ before entry, history perform (new {}) calls = before ++ [entry] ∧
      entry.call = .scheduleBatch 1 0 ∧ entry.before.queue .cancel = [bulk, urgent] ∧
      batchOf entry = [bulk] ∧ ¬ Prioritized before entry := by
  refine ⟨[_, _], _, rfl, rfl, rfl, rfl, fun prioritized => ?_⟩
  have before := (prioritized 1 0 rfl .cancel nofun).lower [] _ [] rfl 0 (by decide)
  exact absurd (sublist_nil.mp before) (by decide)

end LaneScheduler

end FrankenEngine.Scheduling
