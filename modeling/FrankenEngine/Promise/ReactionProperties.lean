import FrankenEngine.Library.History
import FrankenEngine.Promise.StoreProperties

/-!
# One reaction for each then

How many jobs a `then` call leads to. A promise that is pending keeps two
reactions for the call and settles with a job for each of them; a settled one
answers with a single job.
-/

set_option autoImplicit false

namespace FrankenEngine.Promise

open Library PromiseStore PromiseOp List
open Object (JsValue)

/-!
## Reads behind writes
-/

namespace PromiseStore

variable {store : PromiseStore} {handle other : PromiseHandle} {record written : PromiseRecord}

theorem index_lt (found : store.get handle = .ok record) :
    handle.index.toNat < store.promises.length :=
  (List.getElem?_eq_some_iff.mp (get_eq_ok_iff.mp found)).1

theorem get_put_self (written : PromiseRecord) (found : store.get handle = .ok record) :
    (store.put handle written).get handle = .ok written :=
  get_eq_ok_iff.mpr (List.getElem?_set_self (index_lt found))

theorem get_put_of_ne (apart : handle ≠ other) :
    (store.put handle written).get other = store.get other := by
  unfold get put
  rw [getElem?_set_ne (index_ne apart)]

theorem get_put_inv (found : (store.put handle written).get other = .ok record) :
    (handle = other ∧ record = written) ∨ store.get other = .ok record := by
  by_cases same : handle = other
  · subst same
    have inside : handle.index.toNat < (store.promises.set handle.index.toNat written).length :=
      index_lt found
    rw [length_set] at inside
    have held := getElem?_set_self (a := written) inside
    exact .inl ⟨rfl, Option.some.inj ((get_eq_ok_iff.mp found).symm.trans held)⟩
  · rw [get_put_of_ne same] at found
    exact .inr found

theorem get_create_inv (found : store.create.2.get handle = .ok record) :
    store.get handle = .ok record ∨
      (store.promises.length = handle.index.toNat ∧ record.state = .pending ∧
        record.reactions = []) := by
  have held : (store.promises ++ [PromiseRecord.new store.nextHandle store.nextSeq])[
      handle.index.toNat]? = some record := get_eq_ok_iff.mp found
  rw [getElem?_append] at held
  split at held
  next => exact .inl (get_eq_ok_iff.mpr held)
  next outside =>
    rw [getElem?_singleton] at held
    split at held
    next position =>
      obtain rfl := Option.some.inj held
      refine .inr ⟨?_, rfl, rfl⟩
      exact le_antisymm (not_lt.mp outside) (Nat.sub_eq_zero_iff_le.mp position)
    next => cases held

theorem length_put : (store.put handle written).promises.length = store.promises.length :=
  length_set

theorem length_create : store.create.2.promises.length = store.promises.length + 1 := by
  exact length_append

theorem length_settled (kind : ReactionKind) (value : JsValue) (label : Label) :
    (store.settled kind handle record value label).promises.length = store.promises.length :=
  length_set

theorem length_registered (onFulfilled onRejected : Option ClosureHandle) (label : Label) :
    (store.registered handle record onFulfilled onRejected label).promises.length =
      store.promises.length + 1 :=
  length_put.trans length_create

theorem nextHandle_index (room : store.promises.length < 2 ^ 32) :
    store.nextHandle.index.toNat = store.promises.length :=
  UInt32.toNat_ofNat_of_lt' room

theorem nextHandle_ne (room : store.promises.length < 2 ^ 32)
    (found : store.get handle = .ok record) : store.nextHandle ≠ handle := by
  rintro rfl
  exact (index_lt found).ne (nextHandle_index room)

theorem Replied.length_eq {after : PromiseStore} (replied : Replied store handle record after) :
    after.promises.length = store.promises.length + 1 := by
  cases replied with
  | created => exact length_create
  | marked => exact length_put.trans length_create

theorem Replied.get_state {after : PromiseStore} (replied : Replied store handle record after)
    (found : store.get handle = .ok record) :
    ∃ next, after.get handle = .ok next ∧ next.state = record.state := by
  cases replied with
  | created => exact ⟨record, get_create found, rfl⟩
  | marked => exact ⟨_, get_put_self _ (get_create found), rfl⟩

end PromiseStore

variable {after : PromiseStore} {op : PromiseOp} {tasks : List Microtask} {ops : List PromiseOp}
  {result : PromiseHandle} {runtime : Runtime}

variable {store : PromiseStore}

theorem Effect.length_le (effect : Effect store op after tasks) :
    store.promises.length ≤ after.promises.length := by
  cases effect with
  | idle => exact le_refl _
  | create => rw [length_create]; exact Nat.le_succ _
  | settle => rw [length_settled]
  | settleNew =>
    rw [length_settled, length_create]
    exact Nat.le_succ _
  | register =>
    rw [length_registered]
    exact Nat.le_succ _
  | reply _ _ _ replied =>
    rw [replied.length_eq]
    exact Nat.le_succ _

/-!
## The two orders
-/

def jobsFor (result : PromiseHandle) (tasks : List Microtask) :
    List (Option ClosureHandle × JsValue) :=
  tasks.filterMap fun task =>
    match task with
    | .promiseReaction handler argument resultPromise _ =>
      if resultPromise = result then some (handler, argument) else none
    | .resolveThenable .. => none

/-- Registering on a pending promise and settling it leads to the same jobs for
the result promise as settling it and registering then. -/
def ReactionsAgree (store : PromiseStore) (handle : PromiseHandle)
    (onFulfilled onRejected : Option ClosureHandle) (thenLabel : Label) (kind : ReactionKind)
    (value : JsValue) (label : Label) : Prop :=
  ∀ record, store.get handle = .ok record → record.state = .pending →
    jobsFor store.nextHandle ((Runtime.ofStore store).runFrom
        [.registerThen handle onFulfilled onRejected thenLabel,
          kind.settleOp handle value label]).enqueued =
      jobsFor store.nextHandle ((Runtime.ofStore store).runFrom
        [kind.settleOp handle value label,
          .registerThen handle onFulfilled onRejected thenLabel]).enqueued

theorem jobsFor_append (result : PromiseHandle) (left right : List Microtask) :
    jobsFor result (left ++ right) = jobsFor result left ++ jobsFor result right :=
  filterMap_append

section Orders

variable {store : PromiseStore} {handle : PromiseHandle} {record : PromiseRecord}
  (onFulfilled onRejected : Option ClosureHandle) (thenLabel : Label) (kind : ReactionKind)
  (value : JsValue) (label : Label)

theorem length_perform_then (found : store.get handle = .ok record) :
    (store.perform (.registerThen handle onFulfilled onRejected thenLabel)).1.promises.length =
      store.promises.length + 1 := by
  cases state : record.state.isSettled with
  | false =>
    rw [perform_then_pending onFulfilled onRejected thenLabel found (eq_pending state)]
    exact length_registered onFulfilled onRejected thenLabel
  | true =>
    obtain ⟨after, handler, argument, replied, performed⟩ :=
      perform_then_settled onFulfilled onRejected thenLabel found state
    rw [performed]
    exact replied.length_eq

theorem enqueued_runFrom_pair (first second : PromiseOp) :
    ((Runtime.ofStore store).runFrom [first, second]).enqueued =
      (store.perform first).2 ++ ((store.perform first).1.perform second).2 := rfl

theorem length_jobsFor_then_settle (found : store.get handle = .ok record)
    (pending : record.state = .pending) : (jobsFor store.nextHandle ((Runtime.ofStore store).runFrom
        [.registerThen handle onFulfilled onRejected thenLabel,
          kind.settleOp handle value label]).enqueued).length =
      (jobsFor store.nextHandle (record.reactions.map (·.job kind value label))).length + 2 := by
  have held : (store.registered handle record onFulfilled onRejected thenLabel).get handle = _ :=
    get_put_self _ (get_create found)
  rw [enqueued_runFrom_pair, perform_then_pending onFulfilled onRejected thenLabel found pending,
    nil_append, perform_settleOp_pending kind value label held pending,
    PromiseRecord.reactions_register, map_append, jobsFor_append, length_append]
  simp [jobsFor, PromiseReaction.job]

theorem length_jobsFor_settle_then (found : store.get handle = .ok record)
    (pending : record.state = .pending) : (jobsFor store.nextHandle ((Runtime.ofStore store).runFrom
        [kind.settleOp handle value label,
          .registerThen handle onFulfilled onRejected thenLabel]).enqueued).length =
      (jobsFor store.nextHandle (record.reactions.map (·.job kind value label))).length + 1 := by
  have held : (store.settled kind handle record value label).get handle =
      .ok (record.settle kind value label) := get_put_self _ found
  have settled : (record.settle kind value label).state.isSettled = true := by
    cases kind <;> rfl
  have sameNext : (store.settled kind handle record value label).nextHandle = store.nextHandle := by
    rw [nextHandle, length_settled]
    rfl
  obtain ⟨after, handler, argument, -, performed⟩ :=
    perform_then_settled onFulfilled onRejected thenLabel held settled
  rw [enqueued_runFrom_pair, perform_settleOp_pending kind value label found pending,
    performed, jobsFor_append, length_append, sameNext]
  simp [jobsFor]

theorem reactionsAgree_iff :
    ReactionsAgree store handle onFulfilled onRejected thenLabel kind value label ↔
      ∀ record, store.get handle = .ok record → record.state ≠ .pending := by
  constructor
  · intro agree record found pending
    have lengths := congrArg length (agree record found pending)
    rw [length_jobsFor_then_settle onFulfilled onRejected thenLabel kind value label found pending,
      length_jobsFor_settle_then onFulfilled onRejected thenLabel kind value label found pending]
      at lengths
    omega
  · intro settled record found pending
    exact absurd pending (settled record found)

end Orders

/-!
## Where reactions come from
-/

variable {handle : PromiseHandle} {record : PromiseRecord}

theorem Effect.reaction_origin (effect : Effect store op after tasks)
    (found : after.get handle = .ok record) {reaction : PromiseReaction}
    (member : reaction ∈ record.reactions) :
    (∃ old, store.get handle = .ok old ∧ reaction ∈ old.reactions ∧
        old.reactions.Sublist record.reactions) ∨
      ∃ onFulfilled onRejected label old,
        op = .registerThen handle onFulfilled onRejected label ∧ store.get handle = .ok old ∧
          store.nextHandle = reaction.resultPromise ∧
          2 ≤ record.reactions.countP (·.resultPromise = reaction.resultPromise) := by
  have ofCreated {held : PromiseRecord} (created : store.create.2.get handle = .ok held)
      (holds : reaction ∈ held.reactions) : store.get handle = .ok held := by
    rcases get_create_inv created with old | ⟨-, -, empty⟩
    · exact old
    · rw [empty] at holds
      cases holds
  have notSettled (kind : ReactionKind) (held : PromiseRecord) (value : JsValue) (label : Label) :
      reaction ∉ (held.settle kind value label).reactions := not_mem_nil
  cases effect with
  | idle => exact .inl ⟨record, found, member, .refl _⟩
  | create => exact .inl ⟨record, ofCreated found member, member, .refl _⟩
  | settle =>
    rcases get_put_inv found with ⟨-, rfl⟩ | old
    · exact absurd member (notSettled _ _ _ _)
    · exact .inl ⟨record, old, member, .refl _⟩
  | settleNew =>
    rcases get_put_inv found with ⟨-, rfl⟩ | created
    · exact absurd member (notSettled _ _ _ _)
    · exact .inl ⟨record, ofCreated created member, member, .refl _⟩
  | @register target onFulfilled onRejected label held isThen isHeld =>
    rcases get_put_inv found with ⟨rfl, rfl⟩ | created
    · rcases mem_append.mp member with earlier | added
      · exact .inl ⟨held, isHeld, earlier, sublist_append_left _ _⟩
      · refine .inr ⟨onFulfilled, onRejected, label, held, isThen, isHeld, ?_⟩
        have target : store.nextHandle = reaction.resultPromise := by
          rcases mem_pair.mp added with rfl | rfl <;> rfl
        refine ⟨target, ?_⟩
        rw [PromiseRecord.reactions_register, countP_append, ← target]
        simp
    · exact .inl ⟨record, ofCreated created member, member, .refl _⟩
  | reply _ isHeld _ replied =>
    cases replied with
    | created => exact .inl ⟨record, ofCreated found member, member, .refl _⟩
    | marked =>
      rcases get_put_inv found with ⟨rfl, rfl⟩ | created
      · exact .inl ⟨_, isHeld, member, .refl _⟩
      · exact .inl ⟨record, ofCreated created member, member, .refl _⟩

theorem reaction_origin_run (ops : List PromiseOp)
    (found : (Runtime.run ops).store.get handle = .ok record) {reaction : PromiseReaction}
    (member : reaction ∈ record.reactions) : (∃ before onFulfilled onRejected label mid old,
        ops = before ++ .registerThen handle onFulfilled onRejected label :: mid ∧
          (Runtime.run before).store.get handle = .ok old ∧
          (Runtime.run before).store.nextHandle = reaction.resultPromise) ∧
      2 ≤ record.reactions.countP (·.resultPromise = reaction.resultPromise) := by
  induction ops using reverseRecOn generalizing record with
  | nil => cases found
  | append_singleton ops op ih =>
    rw [Runtime.run_snoc] at found
    rcases ((Runtime.run ops).store.effect_perform op).reaction_origin found member with
      ⟨old, held, earlier, sublist⟩ | ⟨onFulfilled, onRejected, label, old, rfl, held, target, twice⟩
    · obtain ⟨⟨before, onFulfilled, onRejected, label, mid, first, rfl, call, target⟩, twice⟩ :=
        ih held earlier
      exact ⟨⟨before, onFulfilled, onRejected, label, mid ++ [op], first, by simp, call, target⟩,
        twice.trans (sublist.countP_le)⟩
    · exact ⟨⟨ops, onFulfilled, onRejected, label, [], old, rfl, held, target⟩, twice⟩

/-!
## Whole runs
-/

def Microtask.reactsFor (result : PromiseHandle) : Microtask → Bool
  | .promiseReaction _ _ resultPromise _ => resultPromise = result
  | .resolveThenable .. => false

def PromiseStore.isSettled (store : PromiseStore) (handle : PromiseHandle) : Bool :=
  match store.get handle with
  | .ok record => record.state.isSettled
  | .error _ => false

/-- There is one job for the result promise if the promise is settled, and none
otherwise. -/
def AnsweredOnce (runtime : Runtime) (handle result : PromiseHandle) : Prop :=
  runtime.enqueued.countP (·.reactsFor result) = if runtime.store.isSettled handle then 1 else 0

/-- Every `then` call of the run that succeeds is answered once from there on. -/
def OneReactionPerThen (ops : List PromiseOp) : Prop :=
  ∀ before handle onFulfilled onRejected label mid after,
    ops = before ++ .registerThen handle onFulfilled onRejected label :: (mid ++ after) →
    ∀ record, (Runtime.run before).store.get handle = .ok record →
      AnsweredOnce (Runtime.run (before ++ .registerThen handle onFulfilled onRejected label :: mid))
        handle (Runtime.run before).store.nextHandle

/-- No promise is settled that has been given reactions while it was pending. -/
def PromiseOp.SettlesUnregistered (store : PromiseStore) : PromiseOp → Prop
  | .fulfill handle _ _ => ∀ record, store.get handle = .ok record →
      record.state = .pending → record.reactions = []
  | .reject handle _ _ => ∀ record, store.get handle = .ok record →
      record.state = .pending → record.reactions = []
  | _ => True

theorem PromiseOp.settlesUnregistered_settleOp {kind : ReactionKind} {value : JsValue}
    {label : Label} : (kind.settleOp handle value label).SettlesUnregistered store ↔
      ∀ record, store.get handle = .ok record → record.state = .pending →
        record.reactions = [] := by
  cases kind <;> rfl

theorem countP_reactsFor_jobs (reactions : List PromiseReaction) (kind : ReactionKind)
    (value : JsValue) (label : Label) (result : PromiseHandle) :
    (reactions.map (·.job kind value label)).countP (·.reactsFor result) =
      reactions.countP (·.resultPromise = result) := by
  rw [countP_map]
  rfl

theorem OneReactionPerThen.unregistered {before after : List PromiseOp}
    (once : OneReactionPerThen ops) (kind : ReactionKind) {value : JsValue} {label : Label}
    (split : ops = before ++ kind.settleOp handle value label :: after) :
    (kind.settleOp handle value label).SettlesUnregistered (Runtime.run before).store := by
  rw [settlesUnregistered_settleOp]
  intro record found pending
  by_contra registered
  obtain ⟨reaction, member⟩ := exists_mem_of_ne_nil _ registered
  obtain ⟨⟨first, onFulfilled, onRejected, thenLabel, mid, old, rfl, call, target⟩, twice⟩ :=
    reaction_origin_run before found member
  have count := once first handle onFulfilled onRejected thenLabel
    (mid ++ [kind.settleOp handle value label]) after (by rw [split]; simp) old call
  rw [← cons_append, ← append_assoc, Runtime.run_snoc, AnsweredOnce,
    Runtime.step_enqueued, perform_settleOp_pending kind value label found pending,
    countP_append, countP_reactsFor_jobs, target] at count
  split at count <;> omega

theorem throughout_unregistered (once : OneReactionPerThen ops) :
    Throughout SettlesUnregistered ops := by
  intro before op after split
  cases op with
  | fulfill handle value label => exact once.unregistered .fulfill split
  | reject handle reason label => exact once.unregistered .reject split
  | create | registerThen | resolve | rejectWith | dequeue | compact => trivial

theorem Effect.tasks_cases (effect : Effect store op after tasks)
    (unregistered : op.SettlesUnregistered store) (room : after.promises.length ≤ 2 ^ 32) :
    tasks = [] ∨ ∃ handler argument label,
      tasks = [.promiseReaction handler argument store.nextHandle label] ∧
        after.promises.length = store.promises.length + 1 := by
  cases effect with
  | idle | create | register => exact .inl rfl
  | settle isSettle found pending =>
    subst isSettle
    rw [settlesUnregistered_settleOp] at unregistered
    rw [unregistered _ found pending]
    exact .inl rfl
  | settleNew _ found =>
    rw [length_settled, length_create] at room
    rcases get_create_inv found with old | ⟨-, -, empty⟩
    · exact absurd rfl (nextHandle_ne room old)
    · rw [empty]
      exact .inl rfl
  | reply _ _ _ replied => exact .inr ⟨_, _, _, rfl, replied.length_eq⟩

theorem Effect.record_kept (effect : Effect store op after tasks)
    (unregistered : op.SettlesUnregistered store) (room : after.promises.length ≤ 2 ^ 32)
    (found : store.get handle = .ok record)
    (engaged : record.state.isSettled = true ∨ record.reactions ≠ []) :
    ∃ next, after.get handle = .ok next ∧ next.state = record.state ∧
      (record.reactions ≠ [] → next.reactions ≠ []) := by
  have created := get_create found
  have ofPut {base : PromiseStore} {target : PromiseHandle} {held written : PromiseRecord}
      (base_get : base.get handle = .ok record) (isHeld : base.get target = .ok held)
      (state : written.state = held.state) (kept : held.reactions ≠ [] → written.reactions ≠ []) :
      ∃ next, (base.put target written).get handle = .ok next ∧ next.state = record.state ∧
        (record.reactions ≠ [] → next.reactions ≠ []) := by
    by_cases same : target = handle
    · subst same
      obtain rfl := Except.ok.inj (isHeld.symm.trans base_get)
      exact ⟨written, get_put_self written isHeld, state, kept⟩
    · exact ⟨record, (get_put_of_ne same).trans base_get, rfl, id⟩
  cases effect with
  | idle => exact ⟨record, found, rfl, id⟩
  | create => exact ⟨record, created, rfl, id⟩
  | @settle kind target value label held isSettle isHeld pending =>
    by_cases same : target = handle
    · subst same isSettle
      obtain rfl := Except.ok.inj (isHeld.symm.trans found)
      rw [settlesUnregistered_settleOp] at unregistered
      rcases engaged with settled | registered
      · rw [pending] at settled
        cases settled
      · exact absurd (unregistered _ isHeld pending) registered
    · exact ⟨record, (get_put_of_ne same).trans found, rfl, id⟩
  | settleNew _ isHeld =>
    rw [length_settled, length_create] at room
    exact ⟨record, (get_put_of_ne (nextHandle_ne room found)).trans created, rfl, id⟩
  | register _ isHeld =>
    exact ofPut created (get_create isHeld) rfl fun _ =>
      append_ne_nil_of_right_ne_nil _ (cons_ne_nil _ _)
  | reply _ isHeld _ replied =>
    cases replied with
    | created => exact ⟨record, created, rfl, id⟩
    | marked => exact ofPut created (get_create isHeld) rfl id

theorem length_run_le (before rest : List PromiseOp) : (Runtime.run before).store.promises.length ≤
      (Runtime.run (before ++ rest)).store.promises.length := by
  induction rest using reverseRecOn with
  | nil => rw [append_nil]
  | append_singleton rest op ih =>
    rw [← append_assoc, Runtime.run_snoc]
    exact ih.trans ((Runtime.run (before ++ rest)).store.effect_perform op).length_le

theorem countP_reactsFor_other {target : PromiseHandle} (apart : target ≠ result)
    (handler : Option ClosureHandle) (argument : JsValue) (label : Label) :
    [Microtask.promiseReaction handler argument target label].countP (·.reactsFor result) = 0 := by
  simp [Microtask.reactsFor, apart]

theorem Effect.countP_tasks (effect : Effect store op after tasks)
    (unregistered : op.SettlesUnregistered store) (room : after.promises.length ≤ 2 ^ 32)
    (other : store.promises.length < after.promises.length →
      result.index.toNat ≠ store.promises.length) :
    tasks.countP (·.reactsFor result) = 0 := by
  rcases effect.tasks_cases unregistered room with rfl | ⟨handler, argument, label, rfl, grown⟩
  · rfl
  · apply countP_reactsFor_other
    rintro rfl
    rw [grown] at room other
    exact other (Nat.lt_succ_self _) (nextHandle_index room)

theorem countP_enqueued_fresh (through : Throughout SettlesUnregistered ops)
    (room : (Runtime.run ops).store.promises.length ≤ 2 ^ 32)
    (fresh : (Runtime.run ops).store.promises.length ≤ result.index.toNat) :
    (Runtime.run ops).enqueued.countP (·.reactsFor result) = 0 := by
  induction ops using reverseRecOn with
  | nil => rfl
  | append_singleton ops op ih =>
    obtain ⟨earlier, unregistered⟩ := forall_places_snoc.mp through
    have effect := (Runtime.run ops).store.effect_perform op
    have grows := effect.length_le
    rw [Runtime.run_snoc] at room fresh ⊢
    rw [Runtime.step_store] at room fresh
    rw [Runtime.step_enqueued, countP_append, ih earlier (grows.trans room) (grows.trans fresh),
      effect.countP_tasks unregistered room (by omega)]

/-- A `then` call whose promise is settled and answered, or holds its reactions. -/
structure Engaged (runtime : Runtime) (handle result : PromiseHandle) (record : PromiseRecord) :
    Prop where
  known : result.index.toNat < runtime.store.promises.length
  found : runtime.store.get handle = .ok record
  engaged : record.state.isSettled = true ∨ record.reactions ≠ []
  count : runtime.enqueued.countP (·.reactsFor result) = if record.state.isSettled then 1 else 0

theorem Engaged.answeredOnce (engaged : Engaged runtime handle result record) :
    AnsweredOnce runtime handle result := by
  rw [AnsweredOnce, engaged.count, isSettled, engaged.found]

theorem Engaged.step (engaged : Engaged runtime handle result record)
    (unregistered : op.SettlesUnregistered runtime.store)
    (room : (runtime.step op).store.promises.length ≤ 2 ^ 32) :
    ∃ next, Engaged (runtime.step op) handle result next := by
  have effect := runtime.store.effect_perform op
  obtain ⟨next, found, state, kept⟩ :=
    effect.record_kept unregistered room engaged.found engaged.engaged
  refine ⟨next, engaged.known.trans_le effect.length_le, found, ?_, ?_⟩
  · rw [state]
    exact engaged.engaged.imp_right kept
  · rw [Runtime.step_enqueued, countP_append, engaged.count, state,
      effect.countP_tasks unregistered room fun _ => engaged.known.ne, Nat.add_zero]

theorem engaged_then (found : runtime.store.get handle = .ok record)
    (onFulfilled onRejected : Option ClosureHandle) (label : Label)
    (room : runtime.store.promises.length < 2 ^ 32)
    (fresh : runtime.enqueued.countP (·.reactsFor runtime.store.nextHandle) = 0) :
    ∃ next, Engaged (runtime.step (.registerThen handle onFulfilled onRejected label)) handle
      runtime.store.nextHandle next := by
  have index := nextHandle_index room
  cases state : record.state.isSettled with
  | false =>
    have performed := perform_then_pending onFulfilled onRejected label found
      (eq_pending state)
    refine ⟨record.register onFulfilled onRejected runtime.store.nextHandle label, ?_, ?_, ?_, ?_⟩
    · rw [Runtime.step_store, performed, index, length_registered]
      exact Nat.lt_succ_self _
    · rw [Runtime.step_store, performed]
      exact get_put_self _ (get_create found)
    · exact .inr (append_ne_nil_of_right_ne_nil _ (cons_ne_nil _ _))
    · have unsettled : ¬ (record.register onFulfilled onRejected runtime.store.nextHandle
          label).state.isSettled = true := by
        show ¬ record.state.isSettled = true
        rw [state]
        exact Bool.false_ne_true
      rw [Runtime.step_enqueued, performed, append_nil, fresh, if_neg unsettled]
  | true =>
    obtain ⟨after, handler, argument, replied, performed⟩ :=
      perform_then_settled onFulfilled onRejected label found state
    obtain ⟨next, held, sameState⟩ := replied.get_state found
    have settled : next.state.isSettled = true := by rw [sameState, state]
    refine ⟨next, ?_, ?_, .inl settled, ?_⟩
    · rw [Runtime.step_store, performed, index, replied.length_eq]
      exact Nat.lt_succ_self _
    · rw [Runtime.step_store, performed]
      exact held
    · rw [Runtime.step_enqueued, performed, countP_append, fresh, if_pos settled]
      simp [Microtask.reactsFor]

theorem oneReactionPerThen_of_throughout (through : Throughout SettlesUnregistered ops)
    (room : (Runtime.run ops).store.promises.length ≤ 2 ^ 32) : OneReactionPerThen ops := by
  intro before handle onFulfilled onRejected label mid after split record found
  have whole : Throughout SettlesUnregistered
      (before ++ .registerThen handle onFulfilled onRejected label :: mid) := by
    intro first op rest position
    refine through first op (rest ++ after) ?_
    rw [split, ← cons_append, ← append_assoc, position, append_assoc, cons_append]
  have bound : (Runtime.run (before ++
      .registerThen handle onFulfilled onRejected label :: mid)).store.promises.length ≤ 2 ^ 32 := by
    refine le_trans ?_ room
    rw [split, ← cons_append, ← append_assoc]
    exact length_run_le _ after
  clear split through room
  suffices engaged : ∃ next, Engaged (Runtime.run (before ++
      .registerThen handle onFulfilled onRejected label :: mid)) handle
        (Runtime.run before).store.nextHandle next by
    obtain ⟨next, engaged⟩ := engaged
    exact engaged.answeredOnce
  induction mid using reverseRecOn with
  | nil =>
    obtain ⟨earlier, -⟩ := forall_places_snoc.mp whole
    rw [Runtime.run_snoc] at bound ⊢
    rw [Runtime.step_store, length_perform_then onFulfilled onRejected label found] at bound
    have small : (Runtime.run before).store.promises.length < 2 ^ 32 := bound
    refine engaged_then found onFulfilled onRejected label small ?_
    exact countP_enqueued_fresh earlier small.le (nextHandle_index small).ge
  | append_singleton mid op ih =>
    rw [← cons_append, ← append_assoc] at whole bound ⊢
    obtain ⟨earlier, unregistered⟩ := forall_places_snoc.mp whole
    obtain ⟨next, engaged⟩ := ih earlier ((length_run_le _ [op]).trans bound)
    rw [Runtime.run_snoc] at bound ⊢
    exact engaged.step unregistered bound

/-- Settling and registering commute for no pending promise. Along a run each
`then` call leads to its one job exactly if no promise is settled that holds
reactions. -/
theorem reactions_once_iff (store : PromiseStore) (handle : PromiseHandle)
    (onFulfilled onRejected : Option ClosureHandle) (thenLabel : Label) (kind : ReactionKind)
    (value : JsValue) (label : Label) (ops : List PromiseOp)
    (room : (Runtime.run ops).store.promises.length ≤ 2 ^ 32) :
    (ReactionsAgree store handle onFulfilled onRejected thenLabel kind value label ↔
        ∀ record, store.get handle = .ok record → record.state ≠ .pending) ∧
      (OneReactionPerThen ops ↔ Throughout PromiseOp.SettlesUnregistered ops) := by
  refine ⟨reactionsAgree_iff onFulfilled onRejected thenLabel kind value label,
    throughout_unregistered, fun through => ?_⟩
  exact oneReactionPerThen_of_throughout through room

theorem reactions_once_resolved :
    let ops : List PromiseOp :=
      [.resolve (.int 99) .publicData, .registerThen ⟨0⟩ (some ⟨5⟩) none .publicData]
    (Runtime.run ops).store.promises.length ≤ 2 ^ 32 ∧ OneReactionPerThen ops := by
  intro ops
  have room : (Runtime.run ops).store.promises.length ≤ 2 ^ 32 := by decide
  have runs := (reactions_once_iff .new ⟨0⟩ none none .publicData .fulfill .undefined .publicData
    ops room).2
  refine ⟨room, runs.mpr ?_⟩
  intro before op after split
  have listed : op ∈ ops := by
    rw [split]
    simp
  simp only [ops, List.mem_cons, List.not_mem_nil, or_false] at listed
  rcases listed with rfl | rfl <;> trivial

/-- A call on a pending promise is answered twice, by its handler and by a job
that passes the value through. -/
theorem then_answered_twice :
    let ops : List PromiseOp :=
      [.create, .registerThen ⟨0⟩ (some ⟨5⟩) none .publicData, .fulfill ⟨0⟩ (.int 99) .publicData]
    (Runtime.run ops).enqueued =
        [.promiseReaction (some ⟨5⟩) (.int 99) ⟨1⟩ .publicData,
          .promiseReaction none (.int 99) ⟨1⟩ .publicData] ∧
      ¬ OneReactionPerThen ops := by
  refine ⟨by decide, fun once => ?_⟩
  have count := once [.create] ⟨0⟩ (some ⟨5⟩) none .publicData [.fulfill ⟨0⟩ (.int 99) .publicData] []
    rfl (.new ⟨0⟩ 0) (by decide)
  exact absurd count (by unfold AnsweredOnce; decide)

theorem Effect.settled_kept (effect : Effect store op after tasks)
    (found : store.get handle = .ok record) (settled : record.state.isSettled = true) :
    ∃ rejectionHandled, after.get handle = .ok { record with rejectionHandled } := by
  have created := get_create found
  have beside {base : PromiseStore} {target : PromiseHandle} {held written : PromiseRecord}
      (isHeld : base.get target = .ok held) (pending : held.state = .pending)
      (kept : base.get handle = .ok record) : (base.put target written).get handle = .ok record := by
    refine (get_put_of_ne ?_).trans kept
    rintro rfl
    rw [Except.ok.inj (kept.symm.trans isHeld), pending] at settled
    cases settled
  cases effect with
  | idle => exact ⟨_, found⟩
  | create => exact ⟨_, created⟩
  | settle _ isHeld pending => exact ⟨_, beside isHeld pending found⟩
  | settleNew _ isHeld pending => exact ⟨_, beside isHeld pending created⟩
  | register _ isHeld pending => exact ⟨_, beside (get_create isHeld) pending created⟩
  | @reply target _ _ _ _ _ _ _ _ isHeld _ replied =>
    cases replied with
    | created => exact ⟨_, created⟩
    | marked =>
      by_cases same : target = handle
      · subst same
        obtain rfl := Except.ok.inj (isHeld.symm.trans found)
        exact ⟨true, get_put_self _ created⟩
      · exact ⟨_, (get_put_of_ne same).trans created⟩

/-- A settled promise keeps its value and its label, whatever is called on the store. -/
theorem settlement_final (runtime : Runtime) (ops : List PromiseOp)
    (found : runtime.store.get handle = .ok record) (settled : record.state.isSettled = true) :
    ∃ rejectionHandled,
      (runtime.runFrom ops).store.get handle = .ok { record with rejectionHandled } := by
  induction ops generalizing runtime record with
  | nil => exact ⟨_, found⟩
  | cons op rest ih =>
    obtain ⟨_, kept⟩ := (runtime.store.effect_perform op).settled_kept found settled
    obtain ⟨rejectionHandled, later⟩ := ih (runtime.step op) kept settled
    exact ⟨rejectionHandled, later⟩

theorem settlement_final_resolved : ∃ rejectionHandled,
    ((Runtime.run [.resolve (.int 99) .secret]).runFrom
      [.reject ⟨0⟩ .undefined .publicData, .registerThen ⟨0⟩ none none .publicData]).store.get ⟨0⟩ =
        .ok ⟨⟨0⟩, .fulfilled (.int 99), [], .secret, 0, rejectionHandled⟩ :=
  @settlement_final _ ⟨⟨0⟩, .fulfilled (.int 99), [], .secret, 0, false⟩ _ _ rfl rfl

end FrankenEngine.Promise
