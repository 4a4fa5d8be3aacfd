import FrankenEngine.Checkpoint.Frontier
import FrankenEngine.Library.History

/-!
# The frontier never rolls back

A history of calls on frontier managers over one backend. A restart drops the
manager, at any point, and makes a new one that recovers from the backend. A
crash inside a call is covered too: before the backend has stored the state it
leaves no trace, and after that the call counts as made.
-/

set_option autoImplicit false

namespace FrankenEngine.Checkpoint

open Library Authority PersistenceBackend

variable {B : Type} [PersistenceBackend B]

/-- The backend behaves as a store with the given contents: a failed write changes nothing, and
loading returns what was stored. -/
structure Atomic (contents : B → OrderedMap String FrontierState) : Prop where
  persist_ok : ∀ {backend after state},
    PersistenceBackend.persist backend state = (after, .ok ()) →
      contents after = (contents backend).insert state.zone state
  persist_error : ∀ {backend after state detail},
    PersistenceBackend.persist backend state = (after, .error detail) →
      contents after = contents backend
  loadAll : ∀ backend, ∃ states, PersistenceBackend.loadAll backend = .ok states ∧
    ∀ state, state ∈ states ↔ state ∈ (contents backend).values

theorem InMemoryBackend.atomic : Atomic InMemoryBackend.zones where
  persist_ok := by
    intro backend after state stored
    simp only [persist] at stored
    split at stored
    · cases stored
    · cases stored
      rfl
  persist_error := by
    intro backend after state detail refused
    simp only [persist] at refused
    split at refused
    · cases refused
      rfl
    · cases refused
  loadAll backend := ⟨backend.zones.values, rfl, fun _ => Iff.rfl⟩

namespace CheckpointFrontierManager

variable {manager after : CheckpointFrontierManager B}

theorem install_ok {zone : String} {state : FrontierState} {eventType : FrontierEventType}
    {traceId : String} (accepted : manager.install zone state eventType traceId = (after, .ok ())) :
    persist manager.backend state = (after.backend, .ok ()) ∧
      after.zones = manager.zones.insert zone state := by
  unfold install at accepted
  split at accepted
  next => cases accepted
  next backend stored =>
    cases accepted
    exact ⟨stored, rfl⟩

/-- A refusal leaves the memory alone, and the backend unless it refuses itself. -/
def Refuses (manager after : CheckpointFrontierManager B) : Prop :=
  after.zones = manager.zones ∧
    (after.backend = manager.backend ∨ ∃ state detail,
      PersistenceBackend.persist manager.backend state = (after.backend, .error detail))

theorem install_error {zone : String} {state : FrontierState} {eventType : FrontierEventType}
    {traceId : String} {error : FrontierError}
    (refused : manager.install zone state eventType traceId = (after, .error error)) :
    manager.Refuses after := by
  unfold install at refused
  split at refused
  next backend detail failed =>
    cases refused
    exact ⟨rfl, .inr ⟨state, detail, failed⟩⟩
  next => cases refused

variable {hashes : Hashes} {zone : String} {checkpoint : PolicyCheckpoint} {quorumThreshold : Nat}
  {authorizedSigners : List VerificationKey} {traceId : String}

def nextState (manager : CheckpointFrontierManager B) (zone : String)
    (checkpoint : PolicyCheckpoint) : FrontierState :=
  match manager.zones.get? zone with
  | none => .fromGenesis zone checkpoint
  | some frontier => frontier.advance checkpoint

section NextState

omit [PersistenceBackend B]

theorem frontierSeq_nextState :
    (manager.nextState zone checkpoint).frontierSeq = checkpoint.checkpointSeq := by
  unfold nextState
  split <;> rfl

theorem frontierEpoch_nextState :
    (manager.nextState zone checkpoint).frontierEpoch = checkpoint.epochId := by
  unfold nextState
  split <;> rfl

theorem frontierCheckpointId_nextState :
    (manager.nextState zone checkpoint).frontierCheckpointId = checkpoint.checkpointId := by
  unfold nextState
  split <;> rfl

theorem zone_nextState (keyed : manager.zones.Keyed FrontierState.zone) :
    (manager.nextState zone checkpoint).zone = zone := by
  unfold nextState
  split
  next => rfl
  next frontier found =>
    have own : frontier.zone = zone := keyed found
    exact own

end NextState

/-- What an accepted checkpoint has passed and what it changes. -/
structure Accepts (manager after : CheckpointFrontierManager B) (hashes : Hashes) (zone : String)
    (checkpoint : PolicyCheckpoint) (quorumThreshold : Nat)
    (authorizedSigners : List VerificationKey) : Prop where
  forward : ∀ frontier, manager.zones.get? zone = some frontier →
    frontier.frontierSeq < checkpoint.checkpointSeq ∧ frontier.frontierEpoch ≤ checkpoint.epochId
  quorum : verifyCheckpointQuorum hashes checkpoint quorumThreshold authorizedSigners = .ok ()
  stored : PersistenceBackend.persist manager.backend (manager.nextState zone checkpoint) =
    (after.backend, .ok ())
  zones : after.zones = manager.zones.insert zone (manager.nextState zone checkpoint)

theorem acceptCheckpoint_cases (manager : CheckpointFrontierManager B) (hashes : Hashes)
    (zone : String) (checkpoint : PolicyCheckpoint) (quorumThreshold : Nat)
    (authorizedSigners : List VerificationKey) (traceId : String) :
    (∃ events error,
      manager.acceptCheckpoint hashes zone checkpoint quorumThreshold authorizedSigners traceId =
        ({ manager with events }, .error error)) ∨
    (∀ frontier, manager.zones.get? zone = some frontier →
      frontier.frontierSeq < checkpoint.checkpointSeq ∧
        frontier.frontierEpoch ≤ checkpoint.epochId) ∧
    verifyCheckpointQuorum hashes checkpoint quorumThreshold authorizedSigners = .ok () ∧
    ∃ eventType,
      manager.acceptCheckpoint hashes zone checkpoint quorumThreshold authorizedSigners traceId =
        manager.install zone (manager.nextState zone checkpoint) eventType traceId := by
  unfold acceptCheckpoint acceptGenesis nextState
  cases found : manager.zones.get? zone with
  | none =>
    cases verifyCheckpointQuorum hashes checkpoint quorumThreshold authorizedSigners with
    | error error => exact .inl ⟨_, _, rfl⟩
    | ok => exact .inr ⟨nofun, rfl, _, rfl⟩
  | some frontier =>
    dsimp only
    split
    next => split <;> exact .inl ⟨_, _, rfl⟩
    next forward =>
      split
      next => exact .inl ⟨_, _, rfl⟩
      next level =>
        cases verifyCheckpointQuorum hashes checkpoint quorumThreshold authorizedSigners with
        | error error => exact .inl ⟨_, _, rfl⟩
        | ok =>
          refine .inr ⟨fun other same => ?_, rfl, _, rfl⟩
          cases same
          exact ⟨UInt64.not_le.mp forward, UInt64.not_lt.mp level⟩

theorem acceptCheckpoint_ok
    (accepted : manager.acceptCheckpoint hashes zone checkpoint quorumThreshold authorizedSigners
      traceId = (after, .ok ())) :
    manager.Accepts after hashes zone checkpoint quorumThreshold authorizedSigners := by
  rcases manager.acceptCheckpoint_cases hashes zone checkpoint quorumThreshold authorizedSigners
    traceId with ⟨_, _, failed⟩ | ⟨forward, verified, _, installed⟩
  · cases failed.symm.trans accepted
  · obtain ⟨stored, zones⟩ := install_ok (installed.symm.trans accepted)
    exact ⟨forward, verified, stored, zones⟩

theorem acceptCheckpoint_error {error : FrontierError}
    (refused : manager.acceptCheckpoint hashes zone checkpoint quorumThreshold authorizedSigners
      traceId = (after, .error error)) : manager.Refuses after := by
  rcases manager.acceptCheckpoint_cases hashes zone checkpoint quorumThreshold authorizedSigners
    traceId with ⟨_, _, failed⟩ | ⟨-, -, _, installed⟩
  · cases failed.symm.trans refused
    exact ⟨rfl, .inl rfl⟩
  · exact install_error (installed.symm.trans refused)

section Mirror

variable {contents : B → OrderedMap String FrontierState}

structure Mirrors (manager : CheckpointFrontierManager B)
    (contents : B → OrderedMap String FrontierState) : Prop where
  zones : manager.zones = contents manager.backend
  keyed : manager.zones.Keyed FrontierState.zone

theorem Refuses.contents_eq (refuses : manager.Refuses after) (atomic : Atomic contents) :
    contents after.backend = contents manager.backend := by
  cases refuses.2 with
  | inl untouched => rw [untouched]
  | inr failed =>
    obtain ⟨state, detail, failed⟩ := failed
    exact atomic.persist_error failed

theorem Mirrors.of_refuses (mirrors : manager.Mirrors contents) (atomic : Atomic contents)
    (refuses : manager.Refuses after) : after.Mirrors contents where
  zones := by rw [refuses.1, refuses.contents_eq atomic, mirrors.zones]
  keyed := by
    rw [refuses.1]
    exact mirrors.keyed

theorem Mirrors.of_accepts (mirrors : manager.Mirrors contents) (atomic : Atomic contents)
    (accepts : manager.Accepts after hashes zone checkpoint quorumThreshold authorizedSigners) :
    after.Mirrors contents where
  zones := by
    rw [accepts.zones, atomic.persist_ok accepts.stored, zone_nextState mirrors.keyed,
      mirrors.zones]
  keyed := by
    rw [accepts.zones]
    exact mirrors.keyed.insert (zone_nextState mirrors.keyed)

omit [PersistenceBackend B] in
theorem zones_foldl_loadState (traceId : String) (states : List FrontierState)
    (manager : CheckpointFrontierManager B) : (states.foldl (loadState traceId) manager).zones =
        states.foldl (fun held next => held.insert next.zone next) manager.zones ∧
      (states.foldl (loadState traceId) manager).backend = manager.backend := by
  induction states generalizing manager with
  | nil => exact ⟨rfl, rfl⟩
  | cons state rest ih => exact ih (loadState traceId manager state)

/-- A manager that recovers holds what the backend has stored, in whatever order it comes. -/
theorem recover_new (atomic : Atomic contents) {backend : B}
    (keyed : (contents backend).Keyed FrontierState.zone) (traceId : String) :
    (recover (new backend) traceId).1.zones = contents backend ∧
      (recover (new backend) traceId).1.backend = backend ∧
      ∃ count, (recover (new backend) traceId).2 = .ok count := by
  obtain ⟨states, loaded, stored⟩ := atomic.loadAll backend
  have recovered : recover (new backend) traceId =
      (states.foldl (loadState traceId) (new backend), .ok states.length) := by
    unfold recover
    rw [show (new backend).backend = backend from rfl, loaded]
  obtain ⟨zones, unmoved⟩ := zones_foldl_loadState traceId states (new backend)
  rw [recovered]
  refine ⟨zones.trans ?_, unmoved, _, rfl⟩
  exact keyed.foldl_insert_values stored

theorem mirrors_recover (atomic : Atomic contents) {backend : B}
    (keyed : (contents backend).Keyed FrontierState.zone) (traceId : String) :
    (recover (new backend) traceId).1.Mirrors contents := by
  obtain ⟨zones, unmoved, _⟩ := recover_new atomic keyed traceId
  constructor
  · rw [zones, unmoved]
  · rw [zones]
    exact keyed

end Mirror

end CheckpointFrontierManager

structure AcceptCall where
  zone : String
  checkpoint : PolicyCheckpoint
  quorumThreshold : Nat
  authorizedSigners : List VerificationKey
  traceId : String

inductive FrontierCall where
  | accept (call : AcceptCall)
  | restart (traceId : String)

namespace CheckpointFrontierManager

variable (hashes : Hashes)

def perform (manager : CheckpointFrontierManager B) :
    FrontierCall → CheckpointFrontierManager B × Except FrontierError Unit
  | .accept call =>
    manager.acceptCheckpoint hashes call.zone call.checkpoint call.quorumThreshold
      call.authorizedSigners call.traceId
  | .restart traceId =>
    ((recover (new manager.backend) traceId).1,
      (recover (new manager.backend) traceId).2.map fun _ => ())

/-- The first manager works on an empty backend or has recovered. -/
inductive Started (contents : B → OrderedMap String FrontierState) :
    CheckpointFrontierManager B → Prop
  | fresh {backend : B} (empty : contents backend = .empty) : Started contents (new backend)
  | recovered {backend : B} (keyed : (contents backend).Keyed FrontierState.zone)
      (traceId : String) : Started contents (recover (new backend) traceId).1

def acceptedIn (zone : String) (entry : Record (CheckpointFrontierManager B) FrontierCall
    (Except FrontierError Unit)) : Option PolicyCheckpoint :=
  match entry.call, entry.outcome with
  | .accept call, .ok () => if call.zone = zone then some call.checkpoint else none
  | _, _ => none

def Covers (zone : String) (manager : CheckpointFrontierManager B)
    (checkpoint : PolicyCheckpoint) : Prop :=
  ∃ frontier, manager.zones.get? zone = some frontier ∧
    checkpoint.checkpointSeq ≤ frontier.frontierSeq ∧ checkpoint.epochId ≤ frontier.frontierEpoch

def Follows (earlier later : PolicyCheckpoint) : Prop :=
  earlier.checkpointSeq < later.checkpointSeq ∧ earlier.epochId ≤ later.epochId

variable {hashes} {contents : B → OrderedMap String FrontierState}
  {manager : CheckpointFrontierManager B}

theorem Started.mirrors (atomic : Atomic contents) (started : Started contents manager) :
    manager.Mirrors contents := by
  cases started with
  | fresh empty => exact ⟨empty.symm, OrderedMap.keyed_empty⟩
  | recovered keyed traceId => exact mirrors_recover atomic keyed traceId

theorem perform_cases (hashes : Hashes) (atomic : Atomic contents) (mirrors : manager.Mirrors contents)
    (call : FrontierCall) :
    (∃ accepted, call = .accept accepted ∧ (manager.perform hashes call).2 = .ok () ∧
      manager.Accepts (manager.perform hashes call).1 hashes accepted.zone accepted.checkpoint
        accepted.quorumThreshold accepted.authorizedSigners) ∨
    ((∃ error, (manager.perform hashes call).2 = .error error) ∧
      manager.Refuses (manager.perform hashes call).1) ∨
    ((∃ traceId, call = .restart traceId) ∧ (manager.perform hashes call).2 = .ok () ∧
      manager.Refuses (manager.perform hashes call).1) := by
  cases call with
  | accept call =>
    rcases performed : manager.perform hashes (.accept call) with ⟨after, outcome⟩
    cases outcome with
    | ok => exact .inl ⟨call, rfl, rfl, acceptCheckpoint_ok performed⟩
    | error error => exact .inr (.inl ⟨⟨error, rfl⟩, acceptCheckpoint_error performed⟩)
  | restart traceId =>
    have keyed : (contents manager.backend).Keyed FrontierState.zone := by
      rw [← mirrors.zones]
      exact mirrors.keyed
    obtain ⟨zones, unmoved, count, counted⟩ := recover_new atomic keyed traceId
    refine .inr (.inr ⟨⟨traceId, rfl⟩, ?_, ?_⟩)
    · simp [perform, counted, Except.map]
    · exact ⟨zones.trans mirrors.zones.symm, .inl unmoved⟩

theorem mirrors_perform (atomic : Atomic contents) (call : FrontierCall)
    (mirrors : manager.Mirrors contents) : (manager.perform hashes call).1.Mirrors contents := by
  obtain ⟨_, _, _, accepts⟩ | ⟨_, refuses⟩ | ⟨_, _, refuses⟩ :=
    perform_cases hashes atomic mirrors call
  · exact mirrors.of_accepts atomic accepts
  · exact mirrors.of_refuses atomic refuses
  · exact mirrors.of_refuses atomic refuses

variable {checkpoint : PolicyCheckpoint}

theorem Covers.of_refuses {after : CheckpointFrontierManager B} {zone : String}
    (covers : manager.Covers zone checkpoint) (refuses : manager.Refuses after) :
    after.Covers zone checkpoint := by
  unfold Covers
  rw [refuses.1]
  exact covers

theorem Covers.perform (atomic : Atomic contents) (mirrors : manager.Mirrors contents)
    (call : FrontierCall) {zone : String} (covers : manager.Covers zone checkpoint) :
    (manager.perform hashes call).1.Covers zone checkpoint := by
  obtain ⟨accepted, _, _, accepts⟩ | ⟨_, refuses⟩ | ⟨_, _, refuses⟩ :=
    perform_cases hashes atomic mirrors call
  · obtain ⟨frontier, found, seq, epoch⟩ := covers
    unfold Covers
    rw [accepts.zones, OrderedMap.get?_insert]
    split
    next same =>
      obtain ⟨forward, level⟩ := accepts.forward frontier (same ▸ found)
      refine ⟨_, rfl, ?_, ?_⟩
      · rw [frontierSeq_nextState]
        exact UInt64.le_of_lt (UInt64.lt_of_le_of_lt seq forward)
      · rw [frontierEpoch_nextState]
        exact UInt64.le_trans epoch level
    next => exact ⟨frontier, found, seq, epoch⟩
  · exact covers.of_refuses refuses
  · exact covers.of_refuses refuses

theorem covers_of_acceptedIn (atomic : Atomic contents) (mirrors : manager.Mirrors contents)
    (call : FrontierCall) {zone : String}
    (accepted : acceptedIn zone (record (perform hashes) manager call) = some checkpoint) :
    (manager.perform hashes call).1.Covers zone checkpoint ∧
      ∀ earlier, manager.Covers zone earlier → Follows earlier checkpoint := by
  obtain ⟨made, rfl, succeeded, accepts⟩ | ⟨⟨error, failed⟩, _⟩ | ⟨⟨traceId, rfl⟩, _, _⟩ :=
    perform_cases hashes atomic mirrors call
  · simp only [acceptedIn, record, succeeded] at accepted
    split at accepted
    · next here =>
      cases accepted
      subst here
      constructor
      · unfold Covers
        rw [accepts.zones, OrderedMap.get?_insert, if_pos rfl]
        refine ⟨_, rfl, ?_, ?_⟩
        · exact UInt64.le_of_eq frontierSeq_nextState.symm
        · exact UInt64.le_of_eq frontierEpoch_nextState.symm
      · rintro earlier ⟨frontier, found, seq, epoch⟩
        obtain ⟨forward, level⟩ := accepts.forward frontier found
        exact ⟨UInt64.lt_of_le_of_lt seq forward, UInt64.le_trans epoch level⟩
    · cases accepted
  · simp [acceptedIn, record, failed] at accepted
  · cases accepted

/-- Over every history the accepted checkpoints of a zone go forward, the memory is what the
backend has stored after every call, and a call that fails changes neither. -/
theorem history_never_rolls_back (hashes : Hashes) (atomic : Atomic contents)
    (started : Started contents manager) (calls : List FrontierCall) :
    (∀ zone, ((history (perform hashes) manager calls).filterMap (acceptedIn zone)).Pairwise
      Follows) ∧
    ∀ entry ∈ history (perform hashes) manager calls,
      entry.after.zones = contents entry.after.backend ∧
        ∀ error, entry.outcome = .error error →
          entry.after.zones = entry.before.zones ∧
            contents entry.after.backend = contents entry.before.backend := by
  have mirrors := started.mirrors atomic
  have preserved : ∀ manager call, Mirrors manager contents →
      ((perform hashes manager call).1).Mirrors contents :=
    fun _ call => mirrors_perform atomic call
  constructor
  · intro zone
    refine (history_pairwise (Covers zone) preserved ?_ ?_ mirrors calls).1
    · exact fun _ call _ holds covers => covers.perform atomic holds call
    · exact fun _ call _ holds accepted => covers_of_acceptedIn atomic holds call accepted
  · intro entry member
    have holds := history_invariant preserved mirrors calls entry member
    rw [(mem_history member).2]
    refine ⟨(preserved _ _ holds).zones, fun error failed => ?_⟩
    obtain ⟨_, _, succeeded, _⟩ | ⟨_, refuses⟩ | ⟨_, _, refuses⟩ :=
      perform_cases hashes atomic holds entry.call
    · cases failed.symm.trans succeeded
    · exact ⟨refuses.1, refuses.contents_eq atomic⟩
    · exact ⟨refuses.1, refuses.contents_eq atomic⟩

def sampleCheckpoint (hashes : Hashes) (zone : String) (key : VerificationKey)
    (prevCheckpoint : Option EngineObjectId) (checkpointSeq : UInt64) : PolicyCheckpoint :=
  let content : CheckpointContent :=
    { prevCheckpoint, checkpointSeq, epochId := 0, createdAt := 100
      policyHeads := [⟨.runtimeExecution, .zero, 1⟩] }
  { content with
    checkpointId := hashes.deterministicHash (content.zonePreimage hashes zone)
    quorumSignatures :=
      ⟨[⟨key, hashes.computeVerificationHash key (content.preimageBytes hashes)⟩]⟩ }

theorem history_never_rolls_back_restart :
    let key : VerificationKey := ⟨Hashes.ipad⟩
    let genesis := sampleCheckpoint Hashes.polynomial "zone-a" key none 0
    let second := sampleCheckpoint Hashes.polynomial "zone-a" key (some genesis.checkpointId) 1
    let offer := fun checkpoint => FrontierCall.accept ⟨"zone-a", checkpoint, 1, [key], "t-offer"⟩
    let entries := history (perform Hashes.polynomial) (new ({} : InMemoryBackend))
      [offer genesis, .restart "t-recover", offer second, offer genesis]
    entries.filterMap (acceptedIn "zone-a") = [genesis, second] ∧
      (entries.filterMap (acceptedIn "zone-a")).Pairwise Follows := by
  exact ⟨by decide +kernel,
    (history_never_rolls_back Hashes.polynomial InMemoryBackend.atomic (.fresh rfl) _).1 "zone-a"⟩

end CheckpointFrontierManager

end FrankenEngine.Checkpoint
