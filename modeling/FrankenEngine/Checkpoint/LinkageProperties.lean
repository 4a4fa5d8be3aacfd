import FrankenEngine.Checkpoint.FrontierProperties

/-!
# Chains of checkpoints

Accepting a checkpoint checks neither its link to the frontier nor its id, and
the signatures do not cover the zone. Accepted checkpoints still form a chain of
their zone where each of them was built for the zone alone, after the checkpoint
accepted there last.
-/

set_option autoImplicit false

namespace FrankenEngine.Checkpoint

open Library Authority

variable {B : Type} [PersistenceBackend B] {hashes : Hashes}

/-- A checkpoint with the build that made and signed it. -/
structure Built (hashes : Hashes) where
  builder : CheckpointBuilder
  signingKeys : List SigningKey
  checkpoint : PolicyCheckpoint
  built : builder.build hashes signingKeys = .ok checkpoint

namespace Built

def signers (build : Built hashes) : List VerificationKey :=
  build.signingKeys.map hashes.verificationKey

def content (build : Built hashes) : CheckpointContent := build.checkpoint.toCheckpointContent

theorem content_eq (build : Built hashes) : build.content = build.builder.content ∧
    build.content.deriveId hashes build.builder.zone = .ok build.checkpoint.checkpointId := by
  obtain ⟨builder, signingKeys, checkpoint, built⟩ := build
  obtain ⟨-, built⟩ := seq_ok_iff.mp built
  obtain ⟨-, built⟩ := seq_ok_iff.mp built
  split at built
  next => cases built
  next derived =>
    obtain ⟨entries, -, assembled⟩ := bind_ok built
    unfold CheckpointBuilder.assemble at assembled
    split at assembled
    next => cases assembled
    next =>
      cases assembled
      exact ⟨rfl, derived⟩

end Built

namespace AcceptCall

def content (call : AcceptCall) : CheckpointContent := call.checkpoint.toCheckpointContent

def counted (hashes : Hashes) (call : AcceptCall) : List VerificationKey :=
  (SortedSignatureArray.validEntries call.authorizedSigners
    (fun key signature => hashes.verifySignature key (call.content.preimageBytes hashes) signature)
    call.checkpoint.quorumSignatures.entries).map (·.signer)

end AcceptCall

/-- The signer has signed the content for the zone. -/
def SignedFor (builds : List (Built hashes)) (zone : String) (signer : VerificationKey)
    (content : CheckpointContent) : Prop :=
  ∃ build ∈ builds, build.builder.zone = zone ∧ signer ∈ build.signers ∧ build.content = content

namespace CheckpointFrontierManager

/-- The accepted checkpoint goes on where its zone stands, has the id of its content and zone, and
no signature that it counts was made for another zone. -/
structure Chained (builds : List (Built hashes)) (manager : CheckpointFrontierManager B)
    (call : AcceptCall) : Prop where
  linked : ∀ frontier, manager.zones.get? call.zone = some frontier →
    call.checkpoint.prevCheckpoint = some frontier.frontierCheckpointId
  ownId : call.content.deriveId hashes call.zone = .ok call.checkpoint.checkpointId
  ownZone : ∀ signer ∈ call.counted hashes, SignedFor builds call.zone signer call.content ∧
    ∀ zone, SignedFor builds zone signer call.content → zone = call.zone

def performAccept (hashes : Hashes) (manager : CheckpointFrontierManager B) (call : AcceptCall) :
    CheckpointFrontierManager B × Except FrontierError Unit :=
  manager.perform hashes (.accept call)

abbrev AcceptRecord (B : Type) :=
  Record (CheckpointFrontierManager B) AcceptCall (Except FrontierError Unit)

def lastAccepted (past : List (AcceptRecord B)) (zone : String) : Option PolicyCheckpoint :=
  ((past.filter fun entry => entry.outcome.isOk && entry.call.zone = zone).getLast?).map
    (·.call.checkpoint)

/-- The offered checkpoint was built for the zone, after the checkpoint accepted there last, and
its content was built for no other zone. -/
structure Delivered (builds : List (Built hashes)) (past : List (AcceptRecord B))
    (call : AcceptCall) : Prop where
  source : ∃ build ∈ builds, build.content = call.content ∧
    build.checkpoint.checkpointId = call.checkpoint.checkpointId ∧
    ∀ last, lastAccepted past call.zone = some last → ∃ seq epoch createdAt policyHeads,
      build.builder = { CheckpointBuilder.after last seq epoch createdAt call.zone with policyHeads }
  oneZone : ∀ build ∈ builds, build.content = call.content → build.builder.zone = call.zone

variable {manager : CheckpointFrontierManager B} {call : AcceptCall}

theorem accepts_performAccept (accepted : (manager.performAccept hashes call).2 = .ok ()) :
    manager.Accepts (manager.performAccept hashes call).1 hashes call.zone call.checkpoint
      call.quorumThreshold call.authorizedSigners := by
  rcases performed : manager.performAccept hashes call with ⟨after, outcome⟩
  rw [performed] at accepted
  cases accepted
  exact acceptCheckpoint_ok performed

theorem refuses_performAccept {error : FrontierError}
    (refused : (manager.performAccept hashes call).2 = .error error) :
    manager.Refuses (manager.performAccept hashes call).1 := by
  rcases performed : manager.performAccept hashes call with ⟨after, outcome⟩
  rw [performed] at refused
  cases refused
  exact acceptCheckpoint_error performed

/-- The frontier of a zone stands at the checkpoint accepted there last. -/
theorem frontierCheckpointId_eq (hashes : Hashes) (backend : B) (calls : List AcceptCall) (zone : String) :
    ((final (performAccept hashes) (new backend) calls).zones.get? zone).map
        (·.frontierCheckpointId) =
      (lastAccepted (history (performAccept hashes) (new backend) calls) zone).map
        (·.checkpointId) := by
  refine history_induction (fun manager past => (manager.zones.get? zone).map
    (·.frontierCheckpointId) = (lastAccepted past zone).map (·.checkpointId)) rfl ?_ calls
  intro manager past call stands
  unfold lastAccepted at stands ⊢
  rw [List.filter_append]
  cases outcome : (manager.performAccept hashes call).2 with
  | error error =>
    rw [(refuses_performAccept outcome).1, stands]
    simp [record, outcome, Except.isOk, Except.toBool]
  | ok =>
    rw [(accepts_performAccept outcome).zones, OrderedMap.get?_insert]
    by_cases same : zone = call.zone
    · simp [record, outcome, Except.isOk, Except.toBool, same, frontierCheckpointId_nextState]
    · simp [record, outcome, Except.isOk, Except.toBool, same, Ne.symm same, stands]

end CheckpointFrontierManager

end FrankenEngine.Checkpoint
