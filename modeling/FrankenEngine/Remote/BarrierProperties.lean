import FrankenEngine.Library.History
import FrankenEngine.Remote.Barrier
import Mathlib.Data.List.Perm.Subperm

/-!
# Guards across epochs

The barrier next to the guards that callers hold. Its count stands for the
guards that are neither released nor cancelled exactly as long as every release
that it accepts is of such a guard. It cannot tell: a guard may be copied, and a
guard released twice lets another one out of sight.
-/

set_option autoImplicit false

namespace FrankenEngine.Remote

open Library List

namespace EpochBarrier

variable (barrier : EpochBarrier)

theorem canComplete_iff :
    barrier.canComplete = true ↔ ∃ evidence, barrier.completeTransition.2 = .ok evidence := by
  unfold canComplete completeTransition
  by_cases draining : barrier.state = .draining
  · by_cases none : barrier.inFlightCount = 0
    · simp [draining, none]
    · have some : 0 < barrier.inFlightCount := UInt64.pos_iff_ne_zero.mpr none
      simp [draining, none, some]
  · simp [draining]

structure Reopens (after : EpochBarrier) (newEpoch nextGuardId : UInt64) : Prop where
  epoch : after.currentEpoch = newEpoch
  inFlight : after.inFlightCount = 0
  nextGuardId : after.nextGuardId = nextGuardId
  pending : after.pendingNewEpoch = none

theorem completeTransition_cases : (∃ error, barrier.completeTransition = (barrier, .error error)) ∨
      barrier.inFlightCount = 0 ∧ ∃ newEpoch evidence,
        barrier.pendingNewEpoch = some newEpoch ∧ barrier.completeTransition.2 = .ok evidence ∧
          Reopens barrier.completeTransition.1 newEpoch barrier.nextGuardId := by
  unfold completeTransition
  split
  next draining =>
    split
    next => exact .inl ⟨_, rfl⟩
    next none =>
      have zero : barrier.inFlightCount = 0 := by
        by_contra some
        exact none (UInt64.pos_iff_ne_zero.mpr some)
      refine .inr ⟨zero, (barrier.transitionEvidence draining).newEpoch, _, ?_, rfl, ?_⟩
      · exact (Option.some_get _).symm
      · exact ⟨rfl, zero, rfl, rfl⟩
  next => exact .inl ⟨_, rfl⟩

theorem completeTransition_of_drained {newEpoch : UInt64} (draining : barrier.state = .draining)
    (none : barrier.inFlightCount = 0) (pending : barrier.pendingNewEpoch = some newEpoch) :
    ∃ evidence, barrier.completeTransition.2 = .ok evidence ∧
      Reopens barrier.completeTransition.1 newEpoch barrier.nextGuardId := by
  have ready : barrier.canComplete = true := by simp [canComplete, draining, none]
  obtain ⟨evidence, completed⟩ := barrier.canComplete_iff.mp ready
  rcases barrier.completeTransition_cases with ⟨error, refused⟩ | ⟨-, found, other, same, done⟩
  · rw [refused] at completed
    cases completed
  · cases pending.symm.trans same
    exact ⟨other, done⟩

theorem transitionNow_cases (newEpoch : UInt64) (reason : TransitionReason) (traceId : String) :
    (∃ error, barrier.transitionNow newEpoch reason traceId = (barrier, .error error)) ∨
      barrier.currentEpoch < newEpoch ∧ ∃ evidence,
        (barrier.transitionNow newEpoch reason traceId).2 = .ok evidence ∧
          Reopens (barrier.transitionNow newEpoch reason traceId).1 newEpoch
            barrier.nextGuardId := by
  by_cases opened : barrier.state = .opened
  · by_cases later : newEpoch ≤ barrier.currentEpoch
    · refine .inl ⟨.nonMonotonicTransition barrier.currentEpoch newEpoch, ?_⟩
      simp [transitionNow, beginTransition, opened, later]
    · refine .inr ⟨not_le.mp later, ?_⟩
      by_cases none : barrier.inFlightCount = 0
      · simp only [transitionNow, beginTransition, opened, later, none, ne_eq, not_true_eq_false,
          if_false, lt_irrefl]
        exact completeTransition_of_drained _ rfl rfl rfl
      · have some : 0 < barrier.inFlightCount := UInt64.pos_iff_ne_zero.mpr none
        simp only [transitionNow, beginTransition, forceCancelRemaining, opened, later, some,
          ne_eq, not_true_eq_false, if_false, if_true]
        exact completeTransition_of_drained _ rfl rfl rfl
  · refine .inl ⟨.transitionAlreadyInProgress barrier.currentEpoch, ?_⟩
    simp [transitionNow, beginTransition, opened]

end EpochBarrier

/-- A barrier, all guards it has issued, and those neither released nor cancelled. -/
structure GuardedBarrier where
  barrier : EpochBarrier
  issued : List EpochGuard
  outstanding : List EpochGuard

namespace GuardedBarrier

open EpochBarrier (Call Outcome)

def new (epoch : UInt64) (config : BarrierConfig) : GuardedBarrier where
  barrier := .new epoch config
  issued := []
  outstanding := []

def issuedBy : Outcome → List EpochGuard
  | .entered (.ok guard) => [guard]
  | _ => []

/-- What a call leaves outstanding. `transition_now` cancels only if something is in flight. -/
def outstandingAfter (before : GuardedBarrier) : Call → Outcome → List EpochGuard
  | .enterCritical _ _, .entered (.ok guard) => before.outstanding ++ [guard]
  | .releaseGuard guard, .released true => before.outstanding.filter (· ≠ guard)
  | .forceCancelRemaining, .cancelled (.ok _) => []
  | .transitionNow _ _ _, .completed (.ok _) =>
    if 0 < before.barrier.inFlightCount then [] else before.outstanding
  | _, _ => before.outstanding

def perform (guarded : GuardedBarrier) (call : Call) : GuardedBarrier × Outcome :=
  let done := guarded.barrier.perform call
  ({ barrier := done.1
     issued := guarded.issued ++ issuedBy done.2
     outstanding := guarded.outstandingAfter call done.2 },
    done.2)

abbrev Entry := Record GuardedBarrier Call Outcome

def live (guarded : GuardedBarrier) : List EpochGuard :=
  guarded.outstanding.filter (·.epoch = guarded.barrier.currentEpoch)

/-- Nothing is released that was not issued, and no counter is exhausted. -/
def Allowed (entry : Entry) : Prop :=
  (∀ guard, entry.call = .releaseGuard guard → guard ∈ entry.before.issued) ∧
    entry.after.issued.length < 2 ^ 64

/-- No operation straddles the epochs, epochs rise, and the count is that of the live guards. -/
structure Exact (entry : Entry) : Prop where
  settled : entry.after.barrier.currentEpoch ≠ entry.before.barrier.currentEpoch →
    ∀ guard ∈ entry.after.issued, guard.epoch = entry.before.barrier.currentEpoch →
      guard ∉ entry.after.outstanding
  rises : ∀ evidence, entry.outcome = .completed (.ok evidence) →
    entry.before.barrier.currentEpoch < entry.after.barrier.currentEpoch
  counted : entry.after.barrier.inFlightCount.toNat = entry.after.live.length

/-- The call does not release a guard of the current epoch that was released or cancelled before,
while others are counted in flight. -/
def ReleasesOnce (entry : Entry) : Prop :=
  ∀ guard, entry.call = .releaseGuard guard → guard.epoch = entry.before.barrier.currentEpoch →
    entry.before.barrier.inFlightCount ≠ 0 → guard ∈ entry.before.outstanding

/-- What links the barrier to the guards as long as it counts them right. -/
structure Balanced (guarded : GuardedBarrier) : Prop where
  counted : guarded.barrier.inFlightCount.toNat = guarded.outstanding.length
  current : ∀ guard ∈ guarded.outstanding, guard.epoch = guarded.barrier.currentEpoch
  issued : guarded.outstanding ⊆ guarded.issued
  distinct : guarded.outstanding.Nodup
  numbered : ∀ guard ∈ guarded.issued, guard.guardId.toNat ≤ guarded.issued.length
  next : guarded.barrier.nextGuardId.toNat = min (guarded.issued.length + 1) (2 ^ 64 - 1)
  rising : ∀ newEpoch, guarded.barrier.pendingNewEpoch = some newEpoch →
    guarded.barrier.currentEpoch < newEpoch

theorem balanced_new (epoch : UInt64) (config : BarrierConfig) : Balanced (new epoch config) where
  counted := rfl
  current := nofun
  issued := nofun
  distinct := .nil
  numbered := nofun
  next := rfl
  rising := nofun

variable {guarded : GuardedBarrier}

theorem Balanced.live_eq (balanced : Balanced guarded) : guarded.live = guarded.outstanding := by
  refine filter_eq_self.mpr fun guard member => ?_
  exact decide_eq_true (balanced.current guard member)

theorem Balanced.outstanding_eq_nil (balanced : Balanced guarded)
    (none : guarded.barrier.inFlightCount = 0) : guarded.outstanding = [] := by
  rw [← length_eq_zero_iff, ← balanced.counted, none]
  rfl

theorem Balanced.length_le (balanced : Balanced guarded) :
    guarded.outstanding.length ≤ guarded.issued.length :=
  (balanced.distinct.subperm balanced.issued).length_le

theorem Balanced.exact {entry : Entry} (balanced : Balanced entry.after)
    (same : entry.after.barrier.currentEpoch = entry.before.barrier.currentEpoch)
    (incomplete : ∀ evidence, entry.outcome ≠ .completed (.ok evidence)) : Exact entry where
  settled advanced := absurd same advanced
  rises evidence completed := absurd completed (incomplete evidence)
  counted := by rw [balanced.live_eq, balanced.counted]

theorem Balanced.exact_of_settled {entry : Entry} (balanced : Balanced entry.after)
    (none : entry.after.outstanding = [])
    (rises : entry.before.barrier.currentEpoch < entry.after.barrier.currentEpoch) :
    Exact entry where
  settled _ guard _ _ member := by
    rw [none] at member
    cases member
  rises _ _ := rises
  counted := by rw [balanced.live_eq, balanced.counted]

/-- A step that keeps the barrier counts right, and is exact. -/
def Keeps (guarded : GuardedBarrier) (call : Call) : Prop :=
  Balanced (guarded.perform call).1 ∧ Exact (record perform guarded call)

theorem keeps_of_perform {call : Call} {after : GuardedBarrier} {outcome : Outcome}
    (done : guarded.perform call = (after, outcome)) (balanced : Balanced after)
    (same : after.barrier.currentEpoch = guarded.barrier.currentEpoch)
    (incomplete : ∀ evidence, outcome ≠ .completed (.ok evidence)) : Keeps guarded call := by
  unfold Keeps record
  rw [done]
  exact ⟨balanced, balanced.exact same incomplete⟩

variable (balanced : Balanced guarded)

include balanced

theorem Balanced.keeps_of_refused {call : Call} (outcome : Outcome)
    (refused : guarded.barrier.perform call = (guarded.barrier, outcome))
    (unissued : issuedBy outcome = [])
    (untouched : guarded.outstandingAfter call outcome = guarded.outstanding)
    (incomplete : ∀ evidence, outcome ≠ .completed (.ok evidence)) : Keeps guarded call := by
  have same : guarded.perform call = (guarded, outcome) := by
    simp only [perform, refused, unissued, untouched, append_nil]
  exact keeps_of_perform same balanced rfl incomplete

theorem Balanced.keeps_enterCritical (opKind : CriticalOpKind) (traceId : String)
    (room : (guarded.perform (.enterCritical opKind traceId)).1.issued.length < 2 ^ 64) :
    Keeps guarded (.enterCritical opKind traceId) := by
  by_cases opened : guarded.barrier.state = .opened
  · let guard : EpochGuard :=
      { guardId := guarded.barrier.nextGuardId, epoch := guarded.barrier.currentEpoch, opKind
        traceId }
    have done : guarded.perform (.enterCritical opKind traceId) =
        ({ barrier := { guarded.barrier with
            nextGuardId := saturatingAdd guarded.barrier.nextGuardId 1
            inFlightCount := saturatingAdd guarded.barrier.inFlightCount 1 }
           issued := guarded.issued ++ [guard]
           outstanding := guarded.outstanding ++ [guard] }, .entered (.ok guard)) := by
      simp [perform, EpochBarrier.perform, EpochBarrier.enterCritical, opened, issuedBy,
        outstandingAfter, guard]
    rw [done, length_append, length_singleton] at room
    have number : guard.guardId.toNat = guarded.issued.length + 1 :=
      balanced.next.trans (min_eq_left (by omega))
    have fresh : guard ∉ guarded.issued := by
      intro member
      have small := balanced.numbered guard member
      omega
    refine keeps_of_perform done ?_ rfl nofun
    constructor
    case counted =>
      have few := balanced.length_le
      rw [toNat_saturatingAdd, balanced.counted, length_append, length_singleton,
        UInt64.toNat_one]
      omega
    case current =>
      simp only [mem_append, mem_singleton]
      rintro other (member | rfl)
      · exact balanced.current other member
      · rfl
    case issued =>
      intro other member
      cases mem_append.mp member with
      | inl old => exact mem_append_left _ (balanced.issued old)
      | inr new => exact mem_append_right _ new
    case distinct =>
      refine nodup_append.mpr ⟨balanced.distinct, pairwise_singleton _ _, ?_⟩
      rintro other member _ new rfl
      cases mem_singleton.mp new
      exact fresh (balanced.issued member)
    case numbered =>
      simp only [mem_append, mem_singleton, length_append, length_singleton]
      rintro other (member | rfl)
      · have small := balanced.numbered other member
        omega
      · omega
    case next =>
      rw [toNat_saturatingAdd, balanced.next, length_append, length_singleton,
        UInt64.toNat_one]
      omega
    case rising => exact balanced.rising
  · refine balanced.keeps_of_refused (.entered (.error
      (.epochTransitioning guarded.barrier.currentEpoch guarded.barrier.state))) ?_ rfl rfl nofun
    simp only [EpochBarrier.perform, EpochBarrier.enterCritical, if_pos opened]

theorem Balanced.keeps_beginTransition (newEpoch : UInt64) (reason : TransitionReason)
    (traceId : String) : Keeps guarded (.beginTransition newEpoch reason traceId) := by
  by_cases opened : guarded.barrier.state = .opened
  · by_cases later : newEpoch ≤ guarded.barrier.currentEpoch
    · refine balanced.keeps_of_refused (.begun (.error
        (.nonMonotonicTransition guarded.barrier.currentEpoch newEpoch))) ?_ rfl rfl nofun
      simp only [EpochBarrier.perform, EpochBarrier.beginTransition, opened, ne_eq,
        not_true_eq_false, if_false, if_pos later]
    · have after : Balanced (guarded.perform (.beginTransition newEpoch reason traceId)).1 := by
        simp only [perform, EpochBarrier.perform, EpochBarrier.beginTransition, opened, later,
          ne_eq, not_true_eq_false, if_false, issuedBy, append_nil, outstandingAfter]
        refine ⟨balanced.counted, balanced.current, balanced.issued, balanced.distinct,
          balanced.numbered, balanced.next, ?_⟩
        rintro _ ⟨⟩
        exact not_le.mp later
      refine ⟨after, after.exact ?_ nofun⟩
      simp [record, perform, EpochBarrier.perform, EpochBarrier.beginTransition, opened, later]
  · refine balanced.keeps_of_refused (.begun (.error
      (.transitionAlreadyInProgress guarded.barrier.currentEpoch))) ?_ rfl rfl nofun
    simp only [EpochBarrier.perform, EpochBarrier.beginTransition, if_pos opened]

theorem Balanced.keeps_forceCancelRemaining : Keeps guarded .forceCancelRemaining := by
  by_cases draining : guarded.barrier.state = .draining
  · have after : Balanced (guarded.perform .forceCancelRemaining).1 := by
      simp only [perform, EpochBarrier.perform, EpochBarrier.forceCancelRemaining, draining,
        ne_eq, not_true_eq_false, if_false, issuedBy, append_nil, outstandingAfter]
      exact ⟨rfl, nofun, nofun, .nil, balanced.numbered, balanced.next, balanced.rising⟩
    refine ⟨after, after.exact ?_ nofun⟩
    simp [record, perform, EpochBarrier.perform, EpochBarrier.forceCancelRemaining, draining]
  · refine balanced.keeps_of_refused (.cancelled (.error .noTransitionInProgress)) ?_ rfl rfl
      nofun
    simp only [EpochBarrier.perform, EpochBarrier.forceCancelRemaining, if_pos draining]

theorem Balanced.keeps_of_reopens {call : Call} {newEpoch : UInt64}
    {evidence : TransitionEvidence}
    (completed : (guarded.barrier.perform call).2 = .completed (.ok evidence))
    (reopens : (guarded.barrier.perform call).1.Reopens newEpoch guarded.barrier.nextGuardId)
    (settled : guarded.outstandingAfter call (.completed (.ok evidence)) = [])
    (later : guarded.barrier.currentEpoch < newEpoch) : Keeps guarded call := by
  have issued : (guarded.perform call).1.issued = guarded.issued := by
    simp [perform, completed, issuedBy]
  have none : (guarded.perform call).1.outstanding = [] := by
    simp only [perform, completed, settled]
  have after : Balanced (guarded.perform call).1 := by
    constructor
    case counted =>
      rw [none]
      exact congrArg UInt64.toNat reopens.inFlight
    case current => rw [none]; exact nofun
    case issued => rw [none]; exact nofun
    case distinct => rw [none]; exact .nil
    case numbered => rw [issued]; exact balanced.numbered
    case next =>
      rw [issued, ← balanced.next]
      exact congrArg UInt64.toNat reopens.nextGuardId
    case rising =>
      intro other pending
      cases reopens.pending.symm.trans pending
  refine ⟨after, after.exact_of_settled none ?_⟩
  exact lt_of_lt_of_eq later reopens.epoch.symm

theorem Balanced.keeps_completeTransition : Keeps guarded .completeTransition := by
  rcases guarded.barrier.completeTransition_cases with
    ⟨error, refused⟩ | ⟨none, newEpoch, evidence, pending, completed, reopens⟩
  · refine balanced.keeps_of_refused (.completed (.error error)) ?_ rfl rfl nofun
    simp only [EpochBarrier.perform, refused]
  · refine balanced.keeps_of_reopens (congrArg _ completed) reopens ?_
      (balanced.rising newEpoch pending)
    exact balanced.outstanding_eq_nil none

theorem Balanced.keeps_transitionNow (newEpoch : UInt64) (reason : TransitionReason)
    (traceId : String) : Keeps guarded (.transitionNow newEpoch reason traceId) := by
  rcases guarded.barrier.transitionNow_cases newEpoch reason traceId with
    ⟨error, refused⟩ | ⟨later, evidence, completed, reopens⟩
  · refine balanced.keeps_of_refused (.completed (.error error)) ?_ rfl rfl nofun
    simp only [EpochBarrier.perform, refused]
  · refine balanced.keeps_of_reopens (congrArg _ completed) reopens ?_ later
    by_cases none : guarded.barrier.inFlightCount = 0
    · simp [outstandingAfter, none, balanced.outstanding_eq_nil none]
    · exact if_pos (UInt64.pos_iff_ne_zero.mpr none)

omit balanced

variable {guard : EpochGuard}

theorem releaseGuard_accepted (own : guard.epoch = guarded.barrier.currentEpoch)
    (some : guarded.barrier.inFlightCount ≠ 0) : guarded.perform (.releaseGuard guard) =
      ({ guarded with
          barrier := { guarded.barrier with inFlightCount := guarded.barrier.inFlightCount - 1 }
          outstanding := guarded.outstanding.filter (· ≠ guard) }, .released true) := by
  simp [perform, EpochBarrier.perform, EpochBarrier.releaseGuard, own, some, issuedBy,
    outstandingAfter]

variable (balanced : Balanced guarded)

include balanced

theorem Balanced.toNat_sub_one (some : guarded.barrier.inFlightCount ≠ 0) :
    (guarded.barrier.inFlightCount - 1).toNat + 1 = guarded.outstanding.length := by
  have positive : 0 < guarded.barrier.inFlightCount.toNat :=
    UInt64.lt_iff_toNat_lt.mp (UInt64.pos_iff_ne_zero.mpr some)
  have least : (1 : UInt64) ≤ guarded.barrier.inFlightCount := UInt64.le_iff_toNat_le.mpr positive
  rw [UInt64.toNat_sub_of_le _ _ least, ← balanced.counted]
  exact Nat.sub_add_cancel positive

theorem Balanced.keeps_releaseGuard (held : guard ∈ guarded.outstanding) :
    Keeps guarded (.releaseGuard guard) := by
  have own := balanced.current guard held
  have some : guarded.barrier.inFlightCount ≠ 0 := by
    intro none
    rw [balanced.outstanding_eq_nil none] at held
    cases held
  have done := releaseGuard_accepted own some
  have fewer : (guarded.outstanding.filter (· ≠ guard)).length + 1 =
      guarded.outstanding.length := by
    have removed : guarded.outstanding.filter (· ≠ guard) = guarded.outstanding.erase guard := by
      rw [balanced.distinct.erase_eq_filter]
      refine filter_congr fun other _ => ?_
      by_cases same : other = guard <;> simp [same]
    rw [removed, length_erase_of_mem held]
    exact Nat.sub_add_cancel (length_pos_of_mem held)
  refine keeps_of_perform done ⟨?_, ?_, ?_, balanced.distinct.filter _, balanced.numbered,
    balanced.next, balanced.rising⟩ rfl nofun
  · exact Nat.add_right_cancel ((balanced.toNat_sub_one some).trans fewer.symm)
  · exact fun other member => balanced.current other (mem_of_mem_filter member)
  · exact fun other member => balanced.issued (mem_of_mem_filter member)

/-- Releasing a guard that is not outstanding is refused, or makes the count wrong. -/
theorem Balanced.releaseGuard_stale (stale : guard ∉ guarded.outstanding) :
    ¬ (guard.epoch = guarded.barrier.currentEpoch ∧ guarded.barrier.inFlightCount ≠ 0) ∧
        Keeps guarded (.releaseGuard guard) ∨
      (guard.epoch = guarded.barrier.currentEpoch ∧ guarded.barrier.inFlightCount ≠ 0) ∧
        ¬ Exact (record perform guarded (.releaseGuard guard)) := by
  by_cases accepted : guard.epoch = guarded.barrier.currentEpoch ∧
      guarded.barrier.inFlightCount ≠ 0
  · have done := releaseGuard_accepted accepted.1 accepted.2
    refine .inr ⟨accepted, fun exact => ?_⟩
    have unchanged : guarded.outstanding.filter (· ≠ guard) = guarded.outstanding := by
      refine filter_eq_self.mpr fun other member => decide_eq_true ?_
      rintro rfl
      exact stale member
    have counted := exact.counted
    simp only [record, done, unchanged, live] at counted
    have all : guarded.outstanding.filter (·.epoch = guarded.barrier.currentEpoch) =
        guarded.outstanding := balanced.live_eq
    rw [all, ← balanced.toNat_sub_one accepted.2] at counted
    omega
  · have refused : guarded.barrier.perform (.releaseGuard guard) =
        (guarded.barrier, .released false) := by
      by_cases own : guard.epoch = guarded.barrier.currentEpoch
      · have none := not_not.mp fun some => accepted ⟨own, some⟩
        simp [EpochBarrier.perform, EpochBarrier.releaseGuard, own, none]
      · simp [EpochBarrier.perform, EpochBarrier.releaseGuard, own]
    exact .inl ⟨accepted, balanced.keeps_of_refused _ refused rfl rfl nofun⟩

theorem Balanced.exact_iff (call : Call) (room : (guarded.perform call).1.issued.length < 2 ^ 64) :
    (Exact (record perform guarded call) ↔ ReleasesOnce (record perform guarded call)) ∧
      (Exact (record perform guarded call) → Balanced (guarded.perform call).1) := by
  have kept (keeps : Keeps guarded call) (once : ReleasesOnce (record perform guarded call)) :
      (Exact (record perform guarded call) ↔ ReleasesOnce (record perform guarded call)) ∧
        (Exact (record perform guarded call) → Balanced (guarded.perform call).1) :=
    ⟨iff_of_true keeps.2 once, fun _ => keeps.1⟩
  cases call with
  | enterCritical opKind traceId => exact kept (balanced.keeps_enterCritical _ _ room) nofun
  | beginTransition newEpoch reason traceId => exact kept (balanced.keeps_beginTransition _ _ _) nofun
  | forceCancelRemaining => exact kept balanced.keeps_forceCancelRemaining nofun
  | completeTransition => exact kept balanced.keeps_completeTransition nofun
  | transitionNow newEpoch reason traceId => exact kept (balanced.keeps_transitionNow _ _ _) nofun
  | releaseGuard guard =>
    by_cases held : guard ∈ guarded.outstanding
    · refine kept (balanced.keeps_releaseGuard held) ?_
      rintro _ ⟨⟩ _ _
      exact held
    · rcases balanced.releaseGuard_stale held with ⟨refused, keeps⟩ | ⟨accepted, inexact⟩
      · refine kept keeps ?_
        rintro _ ⟨⟩ own some
        exact absurd ⟨own, some⟩ refused
      · refine ⟨iff_of_false inexact fun once => ?_, fun exact => absurd exact inexact⟩
        exact held (once guard rfl accepted.1 accepted.2)

omit balanced

/-- No critical operation straddles an epoch boundary, and the barrier counts its guards, exactly
in the runs in which no guard is released again after it was released or cancelled. -/
theorem run_exact_iff (epoch : UInt64) (config : BarrierConfig) (calls : List Call)
    (allowed : ∀ entry ∈ history perform (new epoch config) calls, Allowed entry) :
    (∀ entry ∈ history perform (new epoch config) calls, Exact entry) ↔
      ∀ entry ∈ history perform (new epoch config) calls, ReleasesOnce entry := by
  refine history_forall_iff Balanced Allowed ?_ ?_ (balanced_new epoch config) calls allowed
  · intro guarded call balanced permitted
    exact (balanced.exact_iff call permitted.2).1
  · intro guarded call balanced permitted exact
    exact (balanced.exact_iff call permitted.2).2 exact

def firstGuard : EpochGuard where
  guardId := 1
  epoch := 1
  opKind := .decisionEval
  traceId := "t"

theorem run_exact_released :
    let calls : List Call := [.enterCritical .decisionEval "t",
      .beginTransition 2 .operatorManualBump "t", .releaseGuard firstGuard, .completeTransition]
    ∀ entry ∈ history perform (new 1 {}) calls, Exact entry := by
  intro calls
  refine (run_exact_iff 1 {} calls ?_).mpr ?_
  · intro entry member
    simp only [calls, history, List.mem_cons, List.not_mem_nil, or_false] at member
    rcases member with rfl | rfl | rfl | rfl <;>
      refine ⟨?_, by decide⟩ <;> rintro guard ⟨⟩
    decide
  · intro entry member
    simp only [calls, history, List.mem_cons, List.not_mem_nil, or_false] at member
    rcases member with rfl | rfl | rfl | rfl <;> rintro guard ⟨⟩ _ _
    decide

/-- Two guards are issued, the first is released twice, and the epoch advances with the second
still held. -/
theorem run_straddles :
    let calls : List Call := [.enterCritical .decisionEval "t", .enterCritical .keyDerivation "u",
      .releaseGuard firstGuard, .releaseGuard firstGuard,
      .beginTransition 2 .operatorManualBump "t", .completeTransition]
    (∀ entry ∈ history perform (new 1 {}) calls, Allowed entry) ∧
      ∃ entry ∈ history perform (new 1 {}) calls,
        entry.before.barrier.currentEpoch = 1 ∧ entry.after.barrier.currentEpoch = 2 ∧
          ∃ guard ∈ entry.after.outstanding, guard.epoch = 1 := by
  intro calls
  constructor
  · intro entry member
    simp only [calls, history, List.mem_cons, List.not_mem_nil, or_false] at member
    rcases member with rfl | rfl | rfl | rfl | rfl | rfl <;>
      refine ⟨?_, by decide⟩ <;> rintro guard ⟨⟩ <;> decide
  · refine ⟨_, .tail _ (.tail _ (.tail _ (.tail _ (.tail _ (.head _))))), ?_⟩
    decide

end GuardedBarrier

end FrankenEngine.Remote
