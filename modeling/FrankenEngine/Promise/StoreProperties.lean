import FrankenEngine.Library.Result
import FrankenEngine.Promise.Store
import Mathlib.Data.List.Induction

/-!
# What promise operations do

Inversions of the store operations, the runs of the runtime, and the labels
that microtasks carry along a run.
-/

set_option autoImplicit false

namespace FrankenEngine.Promise

open Library PromiseStore List
open Object (JsValue)

def PromiseRecord.register (record : PromiseRecord) (onFulfilled onRejected : Option ClosureHandle)
    (resultPromise : PromiseHandle) (label : Label) : PromiseRecord :=
  { record with
    reactions := record.reactions ++
      [⟨.fulfill, onFulfilled, resultPromise, label⟩, ⟨.reject, onRejected, resultPromise, label⟩] }

theorem PromiseRecord.reactions_register (record : PromiseRecord)
    (onFulfilled onRejected : Option ClosureHandle) (resultPromise : PromiseHandle)
    (label : Label) : (record.register onFulfilled onRejected resultPromise label).reactions =
      record.reactions ++ [⟨.fulfill, onFulfilled, resultPromise, label⟩,
        ⟨.reject, onRejected, resultPromise, label⟩] := rfl

namespace PromiseStore

variable {store : PromiseStore} {handle : PromiseHandle}

theorem index_ne {other : PromiseHandle} (apart : handle ≠ other) :
    handle.index.toNat ≠ other.index.toNat := by
  intro indices
  apply apart
  obtain ⟨index⟩ := handle
  obtain ⟨otherIndex⟩ := other
  exact congrArg PromiseHandle.mk (UInt32.toNat_inj.mp indices)

variable {record : PromiseRecord}

theorem get_eq_ok_iff :
    store.get handle = .ok record ↔ store.promises[handle.index.toNat]? = some record := by
  unfold get
  cases store.promises[handle.index.toNat]? <;> simp

def settled (store : PromiseStore) (kind : ReactionKind) (handle : PromiseHandle)
    (record : PromiseRecord) (value : JsValue) (label : Label) : PromiseStore :=
  { store.put handle (record.settle kind value label) with
    witness := store.witness ++ [kind.event handle value label] }

theorem settle_pending {kind : ReactionKind} {value : JsValue} {label : Label}
    (found : store.get handle = .ok record) (pending : record.state = .pending) :
    store.settle kind handle value label =
      .ok (store.settled kind handle record value label,
        record.reactions.map (·.job kind value label)) := by
  rw [settle, found, ok_bind, pending]
  rfl

theorem settle_settled {kind : ReactionKind} {value : JsValue} {label : Label}
    (found : store.get handle = .ok record) (settled : record.state.isSettled = true) :
    store.settle kind handle value label = .error (.alreadySettled handle) := by
  rw [settle, found, ok_bind, if_pos settled]

theorem eq_pending {state : PromiseState} (unsettled : state.isSettled = false) :
    state = .pending := by
  cases state with
  | pending => rfl
  | fulfilled | rejected => cases unsettled

theorem settle_cases (kind : ReactionKind) (handle : PromiseHandle) (value : JsValue)
    (label : Label) : (∃ failure, store.settle kind handle value label = .error failure) ∨
      ∃ record, store.get handle = .ok record ∧ record.state = .pending := by
  cases found : store.get handle with
  | error failure =>
    refine .inl ⟨failure, ?_⟩
    rw [settle, found, error_bind]
  | ok record =>
    cases state : record.state.isSettled with
    | true => exact .inl ⟨_, settle_settled found state⟩
    | false => exact .inr ⟨record, rfl, eq_pending state⟩

def registered (store : PromiseStore) (handle : PromiseHandle) (record : PromiseRecord)
    (onFulfilled onRejected : Option ClosureHandle) (label : Label) : PromiseStore :=
  store.create.2.put handle (record.register onFulfilled onRejected store.nextHandle label)

inductive Replied (store : PromiseStore) (handle : PromiseHandle) (record : PromiseRecord) :
    PromiseStore → Prop where
  | created : Replied store handle record store.create.2
  | marked : Replied store handle record
      (store.create.2.put handle { record with rejectionHandled := true })

end PromiseStore

def ReactionKind.settleOp (handle : PromiseHandle) (value : JsValue) (label : Label) :
    ReactionKind → PromiseOp
  | .fulfill => .fulfill handle value label
  | .reject => .reject handle value label

def ReactionKind.settleNewOp (value : JsValue) (label : Label) : ReactionKind → PromiseOp
  | .fulfill => .resolve value label
  | .reject => .rejectWith value label

inductive Effect (store : PromiseStore) (op : PromiseOp) : PromiseStore → List Microtask → Prop where
  | idle : Effect store op store []
  | create : op = .create → Effect store op store.create.2 []
  | settle {kind : ReactionKind} {handle : PromiseHandle} {value : JsValue} {label : Label}
      {record : PromiseRecord} : op = kind.settleOp handle value label →
      store.get handle = .ok record → record.state = .pending →
      Effect store op (store.settled kind handle record value label)
        (record.reactions.map (·.job kind value label))
  | settleNew {kind : ReactionKind} {value : JsValue} {label : Label} {record : PromiseRecord} :
      op = kind.settleNewOp value label → store.create.2.get store.nextHandle = .ok record →
      record.state = .pending →
      Effect store op (store.create.2.settled kind store.nextHandle record value label)
        (record.reactions.map (·.job kind value label))
  | register {handle : PromiseHandle} {onFulfilled onRejected : Option ClosureHandle}
      {label : Label} {record : PromiseRecord} :
      op = .registerThen handle onFulfilled onRejected label →
      store.get handle = .ok record → record.state = .pending →
      Effect store op (store.registered handle record onFulfilled onRejected label) []
  | reply {handle : PromiseHandle} {onFulfilled onRejected handler : Option ClosureHandle}
      {argument : JsValue} {label : Label} {record : PromiseRecord} {after : PromiseStore} :
      op = .registerThen handle onFulfilled onRejected label →
      store.get handle = .ok record → record.state.isSettled = true →
      PromiseStore.Replied store handle record after →
      Effect store op after [.promiseReaction handler argument store.nextHandle label]

namespace PromiseStore

variable {store : PromiseStore} (kind : ReactionKind) (handle : PromiseHandle) (value : JsValue)

variable (label : Label)

theorem perform_settleOp : store.perform (kind.settleOp handle value label) =
      (store.settle kind handle value label).toOption.getD (store, []) := by
  cases kind <;> rfl

theorem perform_settleNewOp : store.perform (kind.settleNewOp value label) =
      (store.create.2.settle kind store.nextHandle value label).toOption.getD (store, []) := by
  have outcome (result : Except PromiseError (PromiseStore × List Microtask)) :
      ((result >>= fun settled => .ok (store.nextHandle, settled)).toOption.map (·.2)).getD
        (store, []) = result.toOption.getD (store, []) := by
    cases result <;> rfl
  cases kind with
  | fulfill => exact outcome (store.create.2.settle .fulfill store.nextHandle value label)
  | reject => exact outcome (store.create.2.settle .reject store.nextHandle value label)

theorem perform_settleOp_pending {handle : PromiseHandle} {record : PromiseRecord}
    (found : store.get handle = .ok record) (pending : record.state = .pending) :
    store.perform (kind.settleOp handle value label) =
      (store.settled kind handle record value label,
        record.reactions.map (·.job kind value label)) := by
  rw [perform_settleOp, settle_pending found pending]
  rfl

section Then

variable (onFulfilled onRejected : Option ClosureHandle) (label : Label)
  {handle : PromiseHandle} {record : PromiseRecord}

theorem perform_then_unknown {failure : PromiseError} (unknown : store.get handle = .error failure) :
    store.perform (.registerThen handle onFulfilled onRejected label) = (store, []) := by
  rw [perform, registerThen, unknown, error_bind]
  rfl

theorem perform_then_pending (found : store.get handle = .ok record)
    (pending : record.state = .pending) :
    store.perform (.registerThen handle onFulfilled onRejected label) =
      (store.registered handle record onFulfilled onRejected label, []) := by
  rw [perform, registerThen, found, ok_bind]
  obtain ⟨owner, state, reactions, settlement, creationSeq, handled⟩ := record
  obtain rfl : state = .pending := pending
  rfl

theorem perform_then_settled (found : store.get handle = .ok record)
    (settled : record.state.isSettled = true) :
    ∃ after handler argument, Replied store handle record after ∧
      store.perform (.registerThen handle onFulfilled onRejected label) =
        (after, [.promiseReaction handler argument store.nextHandle label]) := by
  rw [perform, registerThen, found, ok_bind]
  obtain ⟨owner, state, reactions, settlement, creationSeq, handled⟩ := record
  cases state with
  | pending => cases settled
  | fulfilled value => exact ⟨store.create.2, onFulfilled, value, .created, rfl⟩
  | rejected reason =>
    cases onRejected with
    | none => exact ⟨store.create.2, none, reason, .created, rfl⟩
    | some handler => exact ⟨_, some handler, reason, .marked, rfl⟩

end Then

theorem effect_settleOp : Effect store (kind.settleOp handle value label)
      (store.perform (kind.settleOp handle value label)).1
      (store.perform (kind.settleOp handle value label)).2 := by
  rcases store.settle_cases kind handle value label with ⟨failure, failed⟩ | ⟨record, found, pending⟩
  · rw [perform_settleOp, failed]
    exact .idle
  · rw [perform_settleOp_pending kind value label found pending]
    exact .settle rfl found pending

theorem effect_settleNewOp : Effect store (kind.settleNewOp value label)
      (store.perform (kind.settleNewOp value label)).1
      (store.perform (kind.settleNewOp value label)).2 := by
  rw [perform_settleNewOp]
  rcases store.create.2.settle_cases kind store.nextHandle value label with
    ⟨failure, failed⟩ | ⟨record, found, pending⟩
  · rw [failed]
    exact .idle
  · rw [settle_pending found pending]
    exact .settleNew rfl found pending

theorem effect_registerThen (onFulfilled onRejected : Option ClosureHandle) (label : Label) :
    Effect store (.registerThen handle onFulfilled onRejected label)
      (store.perform (.registerThen handle onFulfilled onRejected label)).1
      (store.perform (.registerThen handle onFulfilled onRejected label)).2 := by
  cases found : store.get handle with
  | error failure =>
    rw [perform_then_unknown onFulfilled onRejected label found]
    exact .idle
  | ok record =>
    cases state : record.state.isSettled with
    | false =>
      rw [perform_then_pending onFulfilled onRejected label found (eq_pending state)]
      exact .register rfl found (eq_pending state)
    | true =>
      obtain ⟨after, handler, argument, replied, performed⟩ :=
        perform_then_settled onFulfilled onRejected label found state
      rw [performed]
      exact .reply rfl found state replied

theorem effect_perform (store : PromiseStore) (op : PromiseOp) :
    Effect store op (store.perform op).1 (store.perform op).2 := by
  cases op with
  | create => exact .create rfl
  | fulfill handle value label => exact effect_settleOp .fulfill handle value label
  | reject handle reason label => exact effect_settleOp .reject handle reason label
  | registerThen handle onFulfilled onRejected label =>
    exact effect_registerThen handle onFulfilled onRejected label
  | resolve value label => exact effect_settleNewOp .fulfill value label
  | rejectWith reason label => exact effect_settleNewOp .reject reason label
  | dequeue | compact => exact .idle

end PromiseStore

def WitnessEvent.settles (handle : PromiseHandle) : WitnessEvent → Option Label
  | .promiseFulfilled settled _ label => if settled = handle then some label else none
  | .promiseRejected settled _ label => if settled = handle then some label else none
  | _ => none

/-- The label with which a promise was settled, as the witness log has it. -/
def PromiseStore.settlementLabel? (store : PromiseStore) (handle : PromiseHandle) : Option Label :=
  store.witness.findSome? (·.settles handle)

def PromiseRecord.settlementLabel? (record : PromiseRecord) : Option Label :=
  if record.state.isSettled then some record.label else none

/-- The witness log and the records agree about every settlement. -/
def PromiseStore.Recorded (store : PromiseStore) : Prop :=
  ∀ handle : PromiseHandle, store.settlementLabel? handle =
    store.promises[handle.index.toNat]?.bind PromiseRecord.settlementLabel?

namespace PromiseStore

variable {store : PromiseStore}

theorem recorded_new : Recorded .new := fun _ => rfl

variable {handle : PromiseHandle} {record : PromiseRecord}

theorem Recorded.of_get (recorded : store.Recorded) (found : store.get handle = .ok record) :
    store.settlementLabel? handle = record.settlementLabel? := by
  rw [recorded handle, get_eq_ok_iff.mp found]
  rfl

theorem settlementLabel?_create (handle : PromiseHandle) :
    store.create.2.settlementLabel? handle = store.settlementLabel? handle := by
  rw [settlementLabel?, create, findSome?_append]
  exact Option.or_none

theorem Recorded.create (recorded : store.Recorded) : store.create.2.Recorded := by
  intro handle
  rw [settlementLabel?_create, recorded handle, PromiseStore.create]
  rw [getElem?_append]
  split
  next => rfl
  next outside =>
    rw [getElem?_eq_none (not_lt.mp outside), getElem?_singleton]
    split <;> rfl

theorem Recorded.put (recorded : store.Recorded) {record written : PromiseRecord}
    (found : store.get handle = .ok record)
    (same : written.settlementLabel? = record.settlementLabel?) :
    (store.put handle written).Recorded := by
  intro other
  have quiet : (store.put handle written).settlementLabel? other = store.settlementLabel? other :=
    rfl
  rw [quiet, recorded other, PromiseStore.put]
  rw [getElem?_set]
  split
  next here =>
    have inside := get_eq_ok_iff.mp found
    rw [← here, inside, if_pos (List.getElem?_eq_some_iff.mp inside).1]
    exact same.symm
  next => rfl

theorem settles_event (kind : ReactionKind) (settled handle : PromiseHandle) (value : JsValue)
    (label : Label) : (kind.event settled value label).settles handle =
      if settled = handle then some label else none := by
  cases kind <;> rfl

theorem settlementLabel?_settled (kind : ReactionKind) (settled handle : PromiseHandle)
    (record : PromiseRecord) (value : JsValue) (label : Label) :
    (store.settled kind settled record value label).settlementLabel? handle =
      (store.settlementLabel? handle).or (if settled = handle then some label else none) := by
  rw [settlementLabel?, PromiseStore.settled, findSome?_append, findSome?_singleton, settles_event]
  rfl

theorem settlementLabel?_settle (record : PromiseRecord) (kind : ReactionKind) (value : JsValue)
    (label : Label) : (record.settle kind value label).settlementLabel? = some label := by
  cases kind <;> rfl

theorem Recorded.settled (recorded : store.Recorded) {kind : ReactionKind} {value : JsValue}
    {label : Label} (found : store.get handle = .ok record) (pending : record.state = .pending) :
    (store.settled kind handle record value label).Recorded := by
  intro other
  have unsettled : record.settlementLabel? = none := by
    rw [PromiseRecord.settlementLabel?, pending]
    rfl
  have inside := get_eq_ok_iff.mp found
  rw [settlementLabel?_settled, PromiseStore.settled, PromiseStore.put]
  rw [getElem?_set]
  by_cases same : handle = other
  · subst same
    rw [recorded.of_get found, unsettled, if_pos rfl, if_pos rfl,
      if_pos (List.getElem?_eq_some_iff.mp inside).1]
    exact (settlementLabel?_settle record kind value label).symm
  · rw [if_neg same, if_neg (index_ne same), Option.or_none, recorded other]

theorem get_create (found : store.get handle = .ok record) :
    store.create.2.get handle = .ok record := by
  have inside := get_eq_ok_iff.mp found
  rw [get_eq_ok_iff, create]
  exact (List.getElem?_append_left (List.getElem?_eq_some_iff.mp inside).1).trans inside

end PromiseStore

variable {store after : PromiseStore}

theorem Effect.recorded {op : PromiseOp} {tasks : List Microtask}
    (effect : Effect store op after tasks) (recorded : store.Recorded) : after.Recorded := by
  cases effect with
  | idle => exact recorded
  | create => exact recorded.create
  | settle _ found pending => exact recorded.settled found pending
  | settleNew _ found pending => exact recorded.create.settled found pending
  | register _ found _ => exact recorded.create.put (get_create found) rfl
  | reply _ found _ replied =>
    cases replied with
    | created => exact recorded.create
    | marked => exact recorded.create.put (get_create found) rfl

namespace Runtime

theorem step_store (runtime : Runtime) (op : PromiseOp) :
    (runtime.step op).store = (runtime.store.perform op).1 := rfl

theorem step_enqueued (runtime : Runtime) (op : PromiseOp) :
    (runtime.step op).enqueued = runtime.enqueued ++ (runtime.store.perform op).2 := rfl

theorem run_snoc (ops : List PromiseOp) (op : PromiseOp) :
    run (ops ++ [op]) = (run ops).step op := by
  rw [run, runFrom, foldl_append]
  rfl

theorem recorded_run (ops : List PromiseOp) : (run ops).store.Recorded := by
  induction ops using reverseRecOn with
  | nil => exact recorded_new
  | append_singleton ops op ih =>
    rw [run_snoc]
    exact ((run ops).store.effect_perform op).recorded ih

end Runtime

def Throughout (condition : PromiseStore → PromiseOp → Prop) (ops : List PromiseOp) : Prop :=
  ∀ before op after, ops = before ++ op :: after → condition (Runtime.run before).store op

def PromiseOp.source (store : PromiseStore) : PromiseOp → Option PromiseHandle
  | .fulfill handle _ _ => some handle
  | .reject handle _ _ => some handle
  | .registerThen handle _ _ _ => some handle
  | .resolve _ _ => some store.nextHandle
  | .rejectWith _ _ => some store.nextHandle
  | .create => none
  | .dequeue => none
  | .compact => none

/-- What the operation enqueues is labelled at least as high as the settlement
of the promise whose value it carries. -/
def PromiseOp.KeepsLabels (store : PromiseStore) (op : PromiseOp) : Prop :=
  ∀ task ∈ (store.perform op).2, ∀ source, op.source store = some source →
    ∀ label, (store.perform op).1.settlementLabel? source = some label →
      label.canFlowTo task.label = true

/-- A promise that is settled already is only given reactions under a label at
least as high as that of its settlement. -/
def PromiseOp.ReactsHigh (store : PromiseStore) : PromiseOp → Prop
  | .registerThen handle _ _ label =>
    ∀ settlement, store.settlementLabel? handle = some settlement →
      settlement.canFlowTo label = true
  | _ => True

variable {store : PromiseStore}

theorem keepsLabels_of_quiet {op : PromiseOp} (quiet : (store.perform op).2 = []) :
    op.KeepsLabels store := by
  intro task member
  rw [quiet] at member
  cases member

variable {handle : PromiseHandle} {record : PromiseRecord}

theorem keepsLabels_jobs {kind : ReactionKind} {value : JsValue} {label : Label}
    (unsettled : store.settlementLabel? handle = none)
    (settled : after = store.settled kind handle record value label) :
    ∀ task ∈ record.reactions.map (·.job kind value label), ∀ settlement,
      after.settlementLabel? handle = some settlement → settlement.canFlowTo task.label = true := by
  intro task member settlement recorded
  obtain ⟨reaction, -, rfl⟩ := mem_map.mp member
  rw [settled, settlementLabel?_settled, unsettled, if_pos rfl] at recorded
  obtain rfl := Option.some.inj recorded
  exact label.canFlowTo_self

theorem unsettled_of_pending (recorded : store.Recorded) (found : store.get handle = .ok record)
    (pending : record.state = .pending) : store.settlementLabel? handle = none := by
  rw [recorded.of_get found, PromiseRecord.settlementLabel?, pending]
  rfl

theorem keepsLabels_of_settle {store before : PromiseStore} (recorded : before.Recorded)
    {op : PromiseOp} {kind : ReactionKind} {value : JsValue} {label : Label}
    (target : op.source store = some handle)
    (performed : store.perform op =
      (before.settle kind handle value label).toOption.getD (store, [])) :
    op.KeepsLabels store := by
  intro task member source isSource
  obtain rfl := Option.some.inj (target.symm.trans isSource)
  rw [performed] at member ⊢
  rcases before.settle_cases kind handle value label with
    ⟨failure, failed⟩ | ⟨record, found, pending⟩
  · rw [failed] at member
    cases member
  · rw [settle_pending found pending] at member ⊢
    exact keepsLabels_jobs (unsettled_of_pending recorded found pending) rfl task member

theorem PromiseStore.Replied.settlementLabel?_eq (replied : Replied store handle record after) :
    after.settlementLabel? handle = store.settlementLabel? handle := by
  cases replied with
  | created | marked => exact settlementLabel?_create handle

theorem keepsLabels_registerThen_iff (recorded : store.Recorded) (handle : PromiseHandle)
    (onFulfilled onRejected : Option ClosureHandle) (label : Label) :
    (PromiseOp.registerThen handle onFulfilled onRejected label).KeepsLabels store ↔
      (PromiseOp.registerThen handle onFulfilled onRejected label).ReactsHigh store := by
  cases found : store.get handle with
  | error failure =>
    have unsettled : store.settlementLabel? handle = none := by
      rw [recorded handle]
      cases inside : store.promises[handle.index.toNat]? with
      | none => rfl
      | some record => cases found.symm.trans (get_eq_ok_iff.mpr inside)
    refine iff_of_true (keepsLabels_of_quiet ?_) fun settlement isSettled => ?_
    · rw [perform_then_unknown onFulfilled onRejected label found]
    · cases unsettled.symm.trans isSettled
  | ok record =>
    cases state : record.state.isSettled with
    | false =>
      have pending := eq_pending state
      refine iff_of_true (keepsLabels_of_quiet ?_) fun settlement isSettled => ?_
      · rw [perform_then_pending onFulfilled onRejected label found pending]
      · cases (unsettled_of_pending recorded found pending).symm.trans isSettled
    | true =>
      obtain ⟨after, handler, argument, replied, performed⟩ :=
        perform_then_settled onFulfilled onRejected label found state
      constructor
      · intro keeps settlement isSettled
        refine keeps (.promiseReaction handler argument store.nextHandle label) ?_ handle rfl
          settlement ?_
        · rw [performed]
          exact mem_singleton_self _
        · rw [performed]
          exact replied.settlementLabel?_eq.trans isSettled
      · intro high task member source isSource settlement isSettled
        obtain rfl := Option.some.inj isSource
        rw [performed] at member isSettled
        obtain rfl := mem_singleton.mp member
        exact high settlement (replied.settlementLabel?_eq.symm.trans isSettled)

theorem keepsLabels_iff (recorded : store.Recorded) (op : PromiseOp) :
    op.KeepsLabels store ↔ op.ReactsHigh store := by
  cases op with
  | registerThen handle onFulfilled onRejected label =>
    exact keepsLabels_registerThen_iff recorded handle onFulfilled onRejected label
  | fulfill handle value label =>
    exact iff_of_true (keepsLabels_of_settle recorded rfl
      (perform_settleOp .fulfill handle value label)) trivial
  | reject handle reason label =>
    exact iff_of_true (keepsLabels_of_settle recorded rfl
      (perform_settleOp .reject handle reason label)) trivial
  | resolve value label =>
    exact iff_of_true (keepsLabels_of_settle recorded.create rfl
      (perform_settleNewOp .fulfill value label)) trivial
  | rejectWith reason label =>
    exact iff_of_true (keepsLabels_of_settle recorded.create rfl
      (perform_settleNewOp .reject reason label)) trivial
  | create | dequeue | compact => exact iff_of_true (keepsLabels_of_quiet rfl) trivial

/-- Along a run no value is relabelled downwards, exactly if no settled promise
is given a reaction under a lower label. -/
theorem labels_propagate_iff (ops : List PromiseOp) :
    Throughout PromiseOp.KeepsLabels ops ↔ Throughout PromiseOp.ReactsHigh ops := by
  constructor
  · intro keeps before op after split
    exact (keepsLabels_iff (Runtime.recorded_run before) op).mp (keeps before op after split)
  · intro high before op after split
    exact (keepsLabels_iff (Runtime.recorded_run before) op).mpr (high before op after split)

/-- A secret becomes public once a reaction is registered after its settlement. -/
theorem then_relabels_secret :
    let ops : List PromiseOp :=
      [.create, .fulfill ⟨0⟩ (.int 7) .secret, .registerThen ⟨0⟩ none none .publicData]
    (Runtime.run ops).store.settlementLabel? ⟨0⟩ = some .secret ∧
      (Runtime.run ops).enqueued = [.promiseReaction none (.int 7) ⟨1⟩ .publicData] ∧
      ¬ Throughout PromiseOp.KeepsLabels ops := by
  refine ⟨by decide, by decide, fun keeps => ?_⟩
  have lowered := keeps [.create, .fulfill ⟨0⟩ (.int 7) .secret]
    (.registerThen ⟨0⟩ none none .publicData) [] rfl
    (.promiseReaction none (.int 7) ⟨1⟩ .publicData) (by decide) ⟨0⟩ rfl .secret (by decide)
  exact absurd lowered (by decide)

end FrankenEngine.Promise
