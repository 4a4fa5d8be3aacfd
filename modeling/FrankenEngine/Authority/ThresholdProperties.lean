import FrankenEngine.Authority.Threshold

/-!
# Who stands behind a threshold result

A ceremony keeps one signature per share holder, made with the holder's own
key. Verification of a result sees only its list: it counts entries, so it
speaks for as many share holders as the list names with their own keys.
-/

set_option autoImplicit false

namespace FrankenEngine.Authority

open Library List OrderedMap

variable (hashes : Hashes)

theorem verifyPartials_ok_iff {preimage : Bytes} {entries : List (ShareHolderId × PartialSignature)} :
    verifyPartials hashes preimage entries = .ok () ↔
      ∀ entry ∈ entries, hashes.verifySignature entry.2.verificationKey preimage
        entry.2.signature = .ok () := by
  induction entries with
  | nil => simp [verifyPartials]
  | cons entry rest ih =>
    obtain ⟨holder, held⟩ := entry
    rw [forall_mem_cons, verifyPartials]
    cases verified : hashes.verifySignature held.verificationKey preimage held.signature with
    | error error => simp
    | ok token => simpa using ih

namespace PartialSignature

def OwnKey (held : PartialSignature) : Prop :=
  held.signer = ShareHolderId.fromVerificationKey held.verificationKey

instance (held : PartialSignature) : Decidable held.OwnKey :=
  inferInstanceAs (Decidable (held.signer = _))

/-- A valid signature over the preimage by the share holder it names. -/
structure Backs (held : PartialSignature) (preimage : Bytes) : Prop where
  ownKey : held.OwnKey
  valid : hashes.verifySignature held.verificationKey preimage held.signature = .ok ()

end PartialSignature

namespace ThresholdResult

/-- At least `thresholdK` different share holders signed the preimage. -/
def HasQuorum (result : ThresholdResult) (preimage : Bytes) : Prop :=
  ∃ chosen : List PartialSignature, chosen ⊆ result.signatures ∧
    (∀ held ∈ chosen, held.Backs hashes preimage) ∧ (chosen.map (·.signer)).Nodup ∧
    result.thresholdK.toNat ≤ chosen.length

def distinctHolders (result : ThresholdResult) : List ShareHolderId :=
  ((result.signatures.filter fun held => decide held.OwnKey).map (·.signer)).dedup

variable {hashes} {result : ThresholdResult}

theorem verify_ok {preimage : Bytes} (accepted : result.verify hashes preimage = .ok ()) :
    result.thresholdK.toNat ≤ result.signatures.length ∧
      ∀ held ∈ result.signatures,
        hashes.verifySignature held.verificationKey preimage held.signature = .ok () := by
  simp only [verify, else_ok_iff] at accepted
  obtain ⟨-, enough, accepted⟩ := accepted
  constructor
  · have bound := UInt32.le_iff_toNat_le.mp (UInt32.not_lt.mp enough)
    exact bound.trans (Nat.mod_le _ _)
  · intro held member
    exact (verifyPartials_ok_iff hashes).mp accepted (held.signer, held) (mem_map_of_mem member)

theorem mem_distinctHolders {holder : ShareHolderId} : holder ∈ result.distinctHolders ↔
      ∃ held ∈ result.signatures, held.OwnKey ∧ held.signer = holder := by
  simp [distinctHolders, and_assoc]

theorem exists_entries {holders : List ShareHolderId}
    (named : ∀ holder ∈ holders, holder ∈ result.distinctHolders) :
    ∃ chosen : List PartialSignature, chosen ⊆ result.signatures ∧
      (∀ held ∈ chosen, held.OwnKey) ∧ chosen.map (·.signer) = holders := by
  induction holders with
  | nil => exact ⟨[], by simp, by simp, rfl⟩
  | cons holder rest ih =>
    obtain ⟨first, others⟩ := forall_mem_cons.mp named
    obtain ⟨held, member, own, signer⟩ := mem_distinctHolders.mp first
    obtain ⟨chosen, within, allOwn, signers⟩ := ih others
    refine ⟨held :: chosen, cons_subset.mpr ⟨member, within⟩, forall_mem_cons.mpr ⟨own, allOwn⟩, ?_⟩
    rw [map_cons, signer, signers]

theorem HasQuorum.le_distinctHolders {preimage : Bytes}
    (quorum : result.HasQuorum hashes preimage) :
    result.thresholdK.toNat ≤ result.distinctHolders.length := by
  obtain ⟨chosen, within, backed, different, enough⟩ := quorum
  have named : chosen.map (·.signer) ⊆ result.distinctHolders := by
    intro holder member
    obtain ⟨held, chosenMember, rfl⟩ := mem_map.mp member
    exact mem_distinctHolders.mpr
      ⟨held, within chosenMember, (backed held chosenMember).ownKey, rfl⟩
  have count := (different.subperm named).length_le
  rw [length_map] at count
  exact enough.trans count

/-- An accepted result speaks for `thresholdK` share holders exactly when its
entries name that many, not counting repetitions and foreign keys. -/
theorem verify_hasQuorum_iff (hashes : Hashes) (result : ThresholdResult) (preimage : Bytes)
    (accepted : result.verify hashes preimage = .ok ()) :
    result.HasQuorum hashes preimage ↔ result.thresholdK.toNat ≤ result.distinctHolders.length := by
  refine ⟨HasQuorum.le_distinctHolders, ?_⟩
  intro enough
  obtain ⟨-, valid⟩ := verify_ok accepted
  obtain ⟨chosen, within, own, signers⟩ := exists_entries (fun holder => id)
  refine ⟨chosen, within, ?_, ?_, ?_⟩
  · intro held member
    exact ⟨own held member, valid held (within member)⟩
  · rw [signers]
    exact List.nodup_dedup _
  · rwa [← signers, List.length_map] at enough

def signedBy (hashes : Hashes) (keys : List VerificationKey) (preimage : Bytes) :
    ThresholdResult where
  ceremonyId := .zero
  policyId := .zero
  scope := .keyRotation
  preimageHash := hashes.contentHash preimage
  signatures := keys.map fun key =>
    ⟨.fromVerificationKey key, key, hashes.computeVerificationHash key preimage, 0⟩
  participatingShares := keys.map .fromVerificationKey
  thresholdK := 2

theorem verify_hasQuorum_two_keys :
    let result := signedBy .polynomial [⟨Hashes.ipad⟩, ⟨Hashes.opad⟩] [1]
    result.verify .polynomial [1] = .ok () ∧ result.HasQuorum .polynomial [1] := by
  intro result
  have accepted : result.verify .polynomial [1] = .ok () := by decide +kernel
  exact ⟨accepted, (verify_hasQuorum_iff _ result _ accepted).mpr (by decide +kernel)⟩

/-- Whatever the hashes are, two copies of one signature pass for a threshold of two. -/
theorem verify_repeated_signer (hashes : Hashes) : let key : VerificationKey := ⟨Hashes.ipad⟩
    let preimage := utf8 "emergency-revocation-preimage-v1"
    let result := signedBy hashes [key, key] preimage
    result.verify hashes preimage = .ok () ∧ ¬ result.HasQuorum hashes preimage := by
  intro key preimage result
  have present : key.raw ≠ .zero := by decide
  have signed : hashes.verifySignature key preimage
      (hashes.computeVerificationHash key preimage) = .ok () :=
    hashes.verifySignature_ok_iff.mpr ⟨present, rfl⟩
  have accepted : result.verify hashes preimage = .ok () := by
    simp [verify, result, signedBy, verifyPartials, signed]
  refine ⟨accepted, fun quorum => ?_⟩
  have one : result.distinctHolders.length = 1 := by
    simp [distinctHolders, result, signedBy, PartialSignature.OwnKey]
  have two : (2 : UInt32).toNat ≤ result.distinctHolders.length := quorum.le_distinctHolders
  rw [one] at two
  exact absurd two (by decide)

theorem verify_accepts_repeated_signer :
    let key : VerificationKey := ⟨Hashes.ipad⟩
    let preimage := utf8 "emergency-revocation-preimage-v1"
    let result := signedBy Hashes.polynomial [key, key] preimage
    result.verify Hashes.polynomial preimage = .ok () ∧
      ¬ result.HasQuorum Hashes.polynomial preimage :=
  verify_repeated_signer Hashes.polynomial

end ThresholdResult

namespace ThresholdCeremony

inductive CeremonyCall where
  | submitPartial (signerKey : SigningKey) (preimage : Bytes) (signedAt : UInt64)
  | finalize (preimage : Bytes)

def apply (ceremony : ThresholdCeremony) : CeremonyCall → ThresholdCeremony
  | .submitPartial signerKey preimage signedAt =>
    (ceremony.submitPartial hashes signerKey preimage signedAt).1
  | .finalize preimage => (ceremony.finalize hashes preimage).1

def run (ceremony : ThresholdCeremony) (calls : List CeremonyCall) : ThresholdCeremony :=
  calls.foldl (apply hashes) ceremony

/-- Every collected signature stands under the authorised holder of its key. -/
structure Sound (policy : ThresholdSigningPolicy) (ceremony : ThresholdCeremony) : Prop where
  threshold : ceremony.thresholdK = policy.thresholdK
  authorized : ceremony.authorizedShares = policy.authorizedShares
  keyed : ∀ entry ∈ ceremony.partialSignatures.entries,
    entry.2.signer = entry.1 ∧ entry.2.OwnKey ∧ (policy.authorizedShares.get? entry.1).isSome

variable {hashes} {policy : ThresholdSigningPolicy} {ceremony : ThresholdCeremony}

theorem Sound.emitEvent (sound : Sound policy ceremony) (eventType : ThresholdEventType) :
    Sound policy (ceremony.emitEvent eventType) :=
  ⟨sound.threshold, sound.authorized, sound.keyed⟩

theorem Sound.collect (sound : Sound policy ceremony) {held : PartialSignature}
    (own : held.OwnKey) (known : (ceremony.authorizedShares.get? held.signer).isSome) :
    Sound policy (ceremony.collect held) := by
  apply Sound.emitEvent
  refine ⟨sound.threshold, sound.authorized, ?_⟩
  intro entry member
  rcases mem_insertEntry member with rfl | old
  · exact ⟨rfl, own, sound.authorized ▸ known⟩
  · exact sound.keyed entry old

theorem sound_new {scope : ThresholdScope} {preimage : Bytes} {initiatedAt : UInt64}
    (started : new hashes policy scope preimage initiatedAt = .ok ceremony) :
    Sound policy ceremony := by
  simp only [new] at started
  split at started
  · split at started
    · cases started
    · cases started
      exact Sound.emitEvent ⟨rfl, rfl, by simp [empty]⟩ _
  · cases started

theorem Sound.submitPartial (sound : Sound policy ceremony) (signerKey : SigningKey)
    (preimage : Bytes) (signedAt : UInt64) :
    Sound policy (ceremony.submitPartial hashes signerKey preimage signedAt).1 := by
  simp only [ThresholdCeremony.submitPartial]
  split
  · exact sound
  · split
    · exact sound
    · split
      · exact sound.emitEvent _
      · next authorized =>
        split
        · exact sound
        · split
          · exact sound
          · refine sound.collect rfl ?_
            simpa [Option.isSome_iff_ne_none] using authorized

theorem Sound.finalize (sound : Sound policy ceremony) (preimage : Bytes) :
    Sound policy (ceremony.finalize hashes preimage).1 := by
  simp only [ThresholdCeremony.finalize]
  split
  · exact sound
  · split
    · split
      · exact sound
      · have closed : Sound policy { ceremony with finalized := true } :=
          ⟨sound.threshold, sound.authorized, sound.keyed⟩
        exact closed.emitEvent _
    · exact sound

theorem Sound.run (sound : Sound policy ceremony) (calls : List CeremonyCall) :
    Sound policy (ceremony.run hashes calls) := by
  induction calls generalizing ceremony with
  | nil => exact sound
  | cons call rest ih =>
    apply ih
    cases call with
    | submitPartial signerKey preimage signedAt =>
      exact sound.submitPartial signerKey preimage signedAt
    | finalize preimage => exact sound.finalize preimage

theorem finalize_ok {closed : ThresholdCeremony} {preimage : Bytes} {result : ThresholdResult}
    (finished : ceremony.finalize hashes preimage = (closed, .ok result)) :
    result = ceremony.toResult ∧
      ceremony.thresholdK.toNat ≤ ceremony.partialSignatures.values.length ∧
      verifyPartials hashes preimage ceremony.partialSignatures.entries = .ok () := by
  simp only [ThresholdCeremony.finalize] at finished
  split at finished
  · cases finished
  · split at finished
    · next met =>
      split at finished
      · cases finished
      · next verified =>
        refine ⟨(Except.ok.inj (Prod.mk.inj finished).2).symm, ?_, verified⟩
        have bound := UInt32.le_iff_toNat_le.mp (of_decide_eq_true met)
        have count := bound.trans (Nat.mod_le _ _)
        rwa [OrderedMap.keys, length_map, ← length_map (f := Prod.snd)] at count
    · cases finished

/-- A ceremony that ends speaks for `thresholdK` different authorised holders,
whatever calls were made on it before. -/
theorem finalize_hasQuorum {scope : ThresholdScope} {opening preimage : Bytes}
    {initiatedAt : UInt64} {calls : List CeremonyCall} {closed : ThresholdCeremony}
    {result : ThresholdResult}
    (started : new hashes policy scope opening initiatedAt = .ok ceremony)
    (finished : (ceremony.run hashes calls).finalize hashes preimage = (closed, .ok result)) :
    result.HasQuorum hashes preimage ∧ result.thresholdK = policy.thresholdK ∧
      ∀ held ∈ result.signatures, (policy.authorizedShares.get? held.signer).isSome := by
  have sound : Sound policy (ceremony.run hashes calls) := (sound_new started).run calls
  obtain ⟨rfl, enough, verified⟩ := finalize_ok finished
  have valid := (verifyPartials_ok_iff hashes).mp verified
  have entry {held : PartialSignature}
      (member : held ∈ (ceremony.run hashes calls).partialSignatures.values) :
      (held.signer, held) ∈ (ceremony.run hashes calls).partialSignatures.entries := by
    obtain ⟨⟨holder, stored⟩, listed, rfl⟩ := mem_map.mp member
    rwa [(sound.keyed _ listed).1]
  refine ⟨⟨_, fun _ member => member, ?_, ?_, enough⟩, sound.threshold, ?_⟩
  · intro held member
    exact ⟨(sound.keyed _ (entry member)).2.1, valid _ (entry member)⟩
  · have signers : (ceremony.run hashes calls).toResult.signatures.map (·.signer) =
        (ceremony.run hashes calls).partialSignatures.keys := by
      simp only [toResult, values, OrderedMap.keys, map_map]
      exact map_congr_left fun listed member => (sound.keyed listed member).1
    rw [signers]
    exact (pairwise_map.mpr (ceremony.run hashes calls).partialSignatures.ascending).imp
      fun below => below.ne
  · intro held member
    exact (sound.keyed _ (entry member)).2.2

def bothKeys : CreateThresholdPolicyInput where
  principalId := .zero
  thresholdK := 2
  authorizedShares := [⟨Hashes.ipad⟩, ⟨Hashes.opad⟩].foldl (fun shares key =>
    shares.insert (.fromVerificationKey (Hashes.polynomial.verificationKey key)) ()) empty
  scopedOperations := empty.insert .keyRotation ()
  epoch := 0
  zone := "zone"

theorem finalize_hasQuorum_both_keys :
    ∃ policy ceremony closed result,
      ThresholdSigningPolicy.create .polynomial bothKeys = .ok policy ∧
      new .polynomial policy .keyRotation [1] 0 = .ok ceremony ∧
      (ceremony.run .polynomial [.submitPartial ⟨Hashes.ipad⟩ [1] 0,
        .submitPartial ⟨Hashes.opad⟩ [1] 0]).finalize .polynomial [1] = (closed, .ok result) ∧
      result.HasQuorum .polynomial [1] ∧ result.thresholdK = policy.thresholdK := by
  have accepted : (ThresholdSigningPolicy.create .polynomial bothKeys >>= fun policy =>
      new .polynomial policy .keyRotation [1] 0 >>= fun ceremony =>
        ((ceremony.run .polynomial [.submitPartial ⟨Hashes.ipad⟩ [1] 0,
          .submitPartial ⟨Hashes.opad⟩ [1] 0]).finalize .polynomial [1]).2).isOk = true := by
    decide +kernel
  obtain ⟨result, returned⟩ := exists_of_isOk accepted
  obtain ⟨policy, created, returned⟩ := bind_ok returned
  obtain ⟨ceremony, started, finished⟩ := bind_ok returned
  have quorum := finalize_hasQuorum started (Prod.ext rfl finished)
  exact ⟨policy, ceremony, _, result, created, started, Prod.ext rfl finished, quorum.1, quorum.2.1⟩

end ThresholdCeremony

end FrankenEngine.Authority
