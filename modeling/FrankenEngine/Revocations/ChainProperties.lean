import FrankenEngine.Library.History
import FrankenEngine.Revocations.Chain
import FrankenEngine.Serde.CodecProperties

/-!
# Integrity of the revocation chain

The events of a chain are numbered and linked, its rolling hash is folded over
them, and the head carries both. Every append keeps that unless it fails while
signing, where the rolling hash has already moved on. The rolling hash commits
to every field of every event.
-/

set_option autoImplicit false

namespace FrankenEngine.Revocations

open Library Serde Authority RevocationChain Digest List OrderedMap

/-!
## The encoding of an event
-/

theorem RevocationReason.display_injective : Function.Injective RevocationReason.display := by
  intro left right same
  cases left <;> cases right <;> first | rfl | exact absurd same (by decide)

theorem RevocationTargetType.display_injective :
    Function.Injective RevocationTargetType.display := by
  intro left right same
  cases left <;> cases right <;> first | rfl | exact absurd same (by decide)

namespace RevocationEvent

def leading (event : RevocationEvent) : List (String × ValueTree) := [
  ("event_id", .bytes event.eventId.bytes),
  ("event_seq", .u64 event.eventSeq),
  ("issued_at", .u64 event.revocation.issuedAt),
  ("issued_by", .bytes event.revocation.issuedBy.bytes),
  ("prev_event", (prevEventValue event.prevEvent).tree),
  ("reason", .string event.revocation.reason.display),
  ("revocation_id", .bytes event.revocation.revocationId.bytes),
  ("signature",
    .bytes (event.revocation.signature.lower.bytes ++ event.revocation.signature.upper.bytes)),
  ("target_id", .bytes event.revocation.targetId.bytes),
  ("target_type", .string event.revocation.targetType.display)]

theorem canonicalValue_tree (event : RevocationEvent) : event.canonicalValue.tree =
      .map (event.leading ++ [("zone", .string event.revocation.zone)]) := by
  have keys : ["event_id", "event_seq", "issued_at", "issued_by", "prev_event", "reason",
      "revocation_id", "signature", "target_id", "target_type", "zone"].Pairwise (· < ·) := by
    decide
  exact CanonicalValue.map_tree_of_ascending (pairwise_map.mp keys)

theorem readable_prevEventValue (previous : Option EngineObjectId) :
    (prevEventValue previous).tree.Readable := by
  cases previous with
  | none => exact readable_null
  | some id => exact readable_digest id

theorem readable_leading (event : RevocationEvent) : ∀ entry ∈ event.leading, entry.2.Readable := by
  have signature : (event.revocation.signature.lower.bytes ++
      event.revocation.signature.upper.bytes).length < 2 ^ 32 := by
    rw [length_append, width, width]
    decide
  have reason : (utf8 event.revocation.reason.display).length < 2 ^ 32 := by
    cases event.revocation.reason <;> decide
  have targetType : (utf8 event.revocation.targetType.display).length < 2 ^ 32 := by
    cases event.revocation.targetType <;> decide
  simp only [leading, forall_mem_cons]
  exact ⟨readable_digest _, readable_u64 _, readable_u64 _, readable_digest _,
    readable_prevEventValue _, readable_string reason, readable_digest _,
    readable_bytes signature, readable_digest _, readable_string targetType, by simp⟩

theorem prevEventValue_injective {left right : Option EngineObjectId}
    (same : (prevEventValue left).tree = (prevEventValue right).tree) : left = right := by
  cases left with
  | none =>
    cases right with
    | none => rfl
    | some right => cases same
  | some left =>
    cases right with
    | none => cases same
    | some right => exact congrArg some (ext_bytes (ValueTree.bytes.inj same))

/-- No two events have the same canonical bytes. -/
theorem canonicalBytes_injective : Function.Injective canonicalBytes := by
  intro left right same
  have trees : encoding left.canonicalValue.tree = encoding right.canonicalValue.tree := same
  rw [canonicalValue_tree, canonicalValue_tree] at trees
  have keys : left.leading.map Prod.fst = right.leading.map Prod.fst := rfl
  obtain ⟨entries, zone⟩ :=
    encoding_record_injective keys left.readable_leading right.readable_leading trees
  obtain ⟨leftId, leftRevocation, leftPrevious, leftSeq⟩ := left
  obtain ⟨rightId, rightRevocation, rightPrevious, rightSeq⟩ := right
  obtain ⟨_, _, _, _, _, _, _, leftSignature⟩ := leftRevocation
  obtain ⟨_, _, _, _, _, _, _, rightSignature⟩ := rightRevocation
  simp only [leading, cons.injEq, Prod.mk.injEq, true_and, and_true, ValueTree.bytes.injEq,
    ValueTree.u64.injEq, ValueTree.string.injEq] at entries
  obtain ⟨eventId, eventSeq, issuedAt, issuedBy, previous, reason, revocationId, signature,
    targetId, targetType⟩ := entries
  have halves := append_inj signature (by rw [width, width])
  have signatures : leftSignature = rightSignature := by
    cases leftSignature
    cases rightSignature
    rw [Signature.mk.injEq]
    exact ⟨ext_bytes halves.1, ext_bytes halves.2⟩
  simp only [mk.injEq, Revocation.mk.injEq]
  exact ⟨ext_bytes eventId,
    ⟨ext_bytes revocationId, RevocationTargetType.display_injective targetType,
      ext_bytes targetId, RevocationReason.display_injective reason,
      ext_bytes issuedBy, issuedAt, zone, signatures⟩, prevEventValue_injective previous, eventSeq⟩

end RevocationEvent

/-!
## Linked events
-/

variable {hashes : Hashes}

def LinkedFrom : Nat → Option EngineObjectId → List RevocationEvent → Prop
  | _, _, [] => True
  | index, previous, event :: rest =>
    event.eventSeq = UInt64.ofNat index ∧ event.prevEvent = previous ∧
      LinkedFrom (index + 1) (some event.eventId) rest

def foldedHash (hashes : Hashes) (events : List RevocationEvent) : ContentHash :=
  events.foldl (extendHash hashes) (hashes.contentHash genesisBytes)

theorem foldedHash_snoc (hashes : Hashes) (events : List RevocationEvent)
    (event : RevocationEvent) :
    foldedHash hashes (events ++ [event]) = extendHash hashes (foldedHash hashes events) event :=
  foldl_concat ..

theorem linkedFrom_append_cons_iff {index : Nat} {previous : Option EngineObjectId}
    {before after : List RevocationEvent} {event : RevocationEvent} :
    LinkedFrom index previous (before ++ event :: after) ↔ LinkedFrom index previous before ∧
      event.eventSeq = UInt64.ofNat (index + before.length) ∧
      event.prevEvent = (before.getLast?.map (·.eventId)).or previous ∧
      LinkedFrom (index + before.length + 1) (some event.eventId) after := by
  induction before generalizing index previous with
  | nil => simp [LinkedFrom]
  | cons first rest ih =>
    have last : ((first :: rest).getLast?.map (·.eventId)).or previous =
        (rest.getLast?.map (·.eventId)).or (some first.eventId) := by
      cases rest with
      | nil => rfl
      | cons second rest => simp [getLast?_cons]
    rw [cons_append, LinkedFrom, ih, LinkedFrom, last, length_cons, Nat.add_right_comm,
      Nat.add_assoc index, and_assoc, and_assoc]

namespace RevocationChain

variable {events : List RevocationEvent}

theorem walkEvents_ok_iff {index : Nat} {previous : Option EngineObjectId}
    {rolling result : ContentHash} : walkEvents hashes index previous rolling events = .ok result ↔
      LinkedFrom index previous events ∧ events.foldl (extendHash hashes) rolling = result := by
  induction events generalizing index previous rolling with
  | nil => simp [walkEvents, LinkedFrom]
  | cons event rest ih =>
    simp only [walkEvents, LinkedFrom, foldl_cons]
    split
    · next unnumbered => simp [unnumbered]
    · next numbered =>
      split
      · next unlinked => simp [unlinked]
      · next link => simp [ih, not_not.mp numbered, not_not.mp link]

/-- A chain whose hash, head and index all stand for its linked events. -/
structure Sealed (hashes : Hashes) (chain : RevocationChain) : Prop where
  linked : LinkedFrom 0 none chain.events
  rolling : chain.chainHash = foldedHash hashes chain.events
  headPresent : chain.head.isSome ↔ chain.events ≠ []
  headHash : ∀ head ∈ chain.head, head.chainHash = foldedHash hashes chain.events
  headSeq : ∀ head ∈ chain.head, head.headSeq = UInt64.ofNat (chain.events.length - 1)
  index : ∀ targetId, chain.isRevoked targetId = true ↔
    ∃ event ∈ chain.events, event.revocation.targetId = targetId

theorem sealed_new (hashes : Hashes) (zone : String) : Sealed hashes (new hashes zone) where
  linked := trivial
  rolling := rfl
  headPresent := by simp [new]
  headHash := by simp [new]
  headSeq := by simp [new]
  index targetId := by simp [new, isRevoked, get?, empty]

variable {chain : RevocationChain}

theorem Sealed.checkHead_ok (intact : Sealed hashes chain) :
    checkHead chain.events (foldedHash hashes chain.events) chain.head = .ok () := by
  cases held : chain.head with
  | none => rfl
  | some head =>
    simp [checkHead, intact.headHash head held, intact.headSeq head held]

theorem Sealed.verifyChain_ok (intact : Sealed hashes chain) :
    verifyChain hashes chain = .ok () := by
  have walked : walkEvents hashes 0 none (hashes.contentHash genesisBytes) chain.events =
      .ok (foldedHash hashes chain.events) := walkEvents_ok_iff.mpr ⟨intact.linked, rfl⟩
  have headOk := intact.checkHead_ok
  cases stored : chain.events with
  | nil =>
    have absent : chain.head.isSome = false := by
      rw [Bool.eq_false_iff]
      exact fun present => intact.headPresent.mp present stored
    simp [verifyChain, stored, absent]
  | cons genesis rest =>
    have linked := intact.linked
    rw [stored] at walked headOk linked
    have numbered : genesis.eventSeq = 0 := linked.1
    have first : genesis.prevEvent = none := linked.2.1
    simp only [verifyChain, stored, numbered, first, ne_eq, not_true_eq_false, if_false,
      Option.isSome_none, Bool.false_eq_true]
    rw [walked]
    exact headOk

/-!
## Appending
-/

/-- The call passes the checks in front of the signing step. -/
def Admitted (chain : RevocationChain) (revocation : Revocation) : Prop :=
  revocation.zone = chain.zone ∧ (chain.revocationIndex.get? revocation.targetId).isNone

theorem Sealed.audit (intact : Sealed hashes chain) (traceId : String)
    (eventType : ChainEventType) : Sealed hashes (chain.audit traceId eventType) :=
  ⟨intact.linked, intact.rolling, intact.headPresent, intact.headHash, intact.headSeq, intact.index⟩

/-- The three ways an append can end: refused before anything but the audit
trail changes, failed while signing, or stored. -/
theorem append_cases (hashes : Hashes) (chain : RevocationChain) (revocation : Revocation)
    (key : SigningKey) (traceId : String) : let event := nextEvent hashes chain revocation
    let rolled := { chain with chainHash := extendHash hashes chain.chainHash event }
    (¬ Admitted chain revocation ∧ ∃ eventType error,
      append hashes chain revocation key traceId = (chain.audit traceId eventType, .error error)) ∨
    (Admitted chain revocation ∧ key.raw = .zero ∧ ∃ error,
      append hashes chain revocation key traceId = (rolled, .error error)) ∨
    (Admitted chain revocation ∧ key.raw ≠ .zero ∧ ∃ signature,
      append hashes chain revocation key traceId =
        (rolled.store event { unsignedHead hashes rolled event with signature } traceId,
          .ok event.eventSeq)) := by
  intro event rolled
  simp only [append]
  split
  · next otherZone => exact .inl ⟨fun admitted => otherZone admitted.1, _, _, rfl⟩
  · next sameZone =>
    split
    · next revoked =>
      refine .inl ⟨fun admitted => ?_, _, _, rfl⟩
      rw [Option.isNone_iff_eq_none.mp admitted.2] at revoked
      cases revoked
    · next fresh =>
      have admitted : Admitted chain revocation :=
        ⟨not_not.mp sameZone, by simpa using fresh⟩
      cases signed : hashes.signPreimage key
          ((unsignedHead hashes rolled event).preimageBytes hashes) with
      | error error =>
        refine .inr (.inl ⟨admitted, ?_, _, rfl⟩)
        by_contra present
        rw [hashes.signPreimage_ok_iff.mpr ⟨present, rfl⟩] at signed
        cases signed
      | ok signature =>
        exact .inr (.inr ⟨admitted, (hashes.signPreimage_ok_iff.mp signed).1, signature, rfl⟩)

theorem Sealed.store (intact : Sealed hashes chain) (revocation : Revocation)
    (signature : Signature) (traceId : String) : let event := nextEvent hashes chain revocation
    let rolled := { chain with chainHash := extendHash hashes chain.chainHash event }
    Sealed hashes
      (rolled.store event { unsignedHead hashes rolled event with signature } traceId) := by
  intro event rolled
  have rolling : extendHash hashes chain.chainHash event =
      foldedHash hashes (chain.events ++ [event]) := by
    rw [foldedHash_snoc, intact.rolling]
  have stored : Sealed hashes { rolled with
      revocationIndex := rolled.revocationIndex.insert event.revocation.targetId event.eventSeq
      events := rolled.events ++ [event]
      head := some { unsignedHead hashes rolled event with signature } } := by
    refine ⟨?_, rolling, by simp, ?_, ?_, fun targetId => ?_⟩
    · refine linkedFrom_append_cons_iff.mpr ⟨intact.linked, ?_, ?_, trivial⟩
      · rw [Nat.zero_add]
        rfl
      · rw [Option.or_none]
        rfl
    · rintro head ⟨⟩
      exact rolling
    · rintro head ⟨⟩
      rw [length_append, length_singleton, Nat.add_sub_cancel]
      rfl
    · have before : (rolled.revocationIndex.get? targetId).isSome = true ↔
          ∃ held ∈ rolled.events, held.revocation.targetId = targetId := intact.index targetId
      rw [isRevoked, get?_insert]
      by_cases same : targetId = event.revocation.targetId
      · simp [same]
      · simp [same, Ne.symm same, before]
  unfold RevocationChain.store
  split
  · exact (stored.audit _ _).audit _ _
  · exact stored.audit _ _

/-!
## Runs of appends
-/

structure AppendCall where
  revocation : Revocation
  headSigningKey : SigningKey
  traceId : String

def apply (hashes : Hashes) (chain : RevocationChain) (call : AppendCall) :
    RevocationChain × Except ChainError UInt64 :=
  append hashes chain call.revocation call.headSigningKey call.traceId

def run (hashes : Hashes) (chain : RevocationChain) (calls : List AppendCall) : RevocationChain :=
  calls.foldl (fun chain call => (apply hashes chain call).1) chain

/-- The same events, head, rolling hash and index; the audit trail may differ. -/
def SameLedger (left right : RevocationChain) : Prop :=
  left.events = right.events ∧ left.head = right.head ∧ left.chainHash = right.chainHash ∧
    left.revocationIndex = right.revocationIndex

/-- Verification passes and the head carries the hash of the stored events. -/
def Intact (hashes : Hashes) (chain : RevocationChain) : Prop :=
  verifyChain hashes chain = .ok () ∧
    ∀ head ∈ chain.head, head.chainHash = foldedHash hashes chain.events

/-- A call that reaches the signing step with the all-zero key finds a rolling
hash that the event does not move. -/
def Harmless (hashes : Hashes) (chain : RevocationChain) (call : AppendCall) : Prop :=
  Admitted chain call.revocation → call.headSigningKey.raw = .zero →
    extendHash hashes chain.chainHash (nextEvent hashes chain call.revocation) = chain.chainHash

theorem Sealed.intact (intact : Sealed hashes chain) : Intact hashes chain :=
  ⟨intact.verifyChain_ok, intact.headHash⟩

variable {call : AppendCall}

theorem Sealed.apply (intact : Sealed hashes chain) (harmless : Harmless hashes chain call) :
    Sealed hashes (apply hashes chain call).1 := by
  rcases append_cases hashes chain call.revocation call.headSigningKey call.traceId with
    ⟨-, eventType, error, refused⟩ | ⟨admitted, blank, error, unsigned⟩ |
    ⟨-, -, signature, stored⟩
  · rw [RevocationChain.apply, refused]
    exact intact.audit _ _
  · rw [RevocationChain.apply, unsigned, harmless admitted blank]
    exact intact
  · rw [RevocationChain.apply, stored]
    exact intact.store call.revocation signature call.traceId

theorem harmless_iff : Harmless hashes chain call ↔ ∀ error,
      (apply hashes chain call).2 = .error error → SameLedger (apply hashes chain call).1 chain := by
  rcases append_cases hashes chain call.revocation call.headSigningKey call.traceId with
    ⟨excluded, eventType, reason, refused⟩ | ⟨admitted, blank, reason, unsigned⟩ |
    ⟨-, present, signature, stored⟩
  · rw [apply, refused]
    exact ⟨fun _ _ _ => ⟨rfl, rfl, rfl, rfl⟩, fun _ admitted => absurd admitted excluded⟩
  · rw [apply, unsigned]
    exact ⟨fun harmless _ _ => ⟨rfl, rfl, harmless admitted blank, rfl⟩,
      fun kept _ _ => (kept reason rfl).2.2.1⟩
  · rw [apply, stored]
    exact ⟨fun _ _ => nofun, fun _ _ blank => absurd blank present⟩

/-- Every call of the run satisfies `good` on the chain that it finds. -/
def EachCall (hashes : Hashes) (zone : String) (calls : List AppendCall)
    (good : RevocationChain → AppendCall → Prop) : Prop :=
  ∀ before call after, calls = before ++ call :: after →
    good (run hashes (new hashes zone) before) call

theorem sealed_run {zone : String} {calls : List AppendCall}
    (harmless : EachCall hashes zone calls (Harmless hashes)) :
    Sealed hashes (run hashes (new hashes zone) calls) := by
  induction calls using reverseRecOn with
  | nil => exact sealed_new hashes zone
  | append_singleton calls call ih =>
    rw [run, foldl_concat]
    obtain ⟨earlier, last⟩ := forall_places_snoc.mp harmless
    exact (ih earlier).apply last

/-- A chain stays verifiable through a run of appends, and failed appends leave
it alone, exactly when no call with the all-zero key moves the rolling hash. -/
theorem run_intact_iff (hashes : Hashes) (zone : String) (calls : List AppendCall) :
    ((∀ before after, calls = before ++ after → Intact hashes (run hashes (new hashes zone) before)) ∧
      EachCall hashes zone calls fun chain call => ∀ error,
        (apply hashes chain call).2 = .error error → SameLedger (apply hashes chain call).1 chain) ↔
      EachCall hashes zone calls (Harmless hashes) := by
  constructor
  · rintro ⟨-, kept⟩ before call after split
    exact harmless_iff.mpr (kept before call after split)
  · intro harmless
    constructor
    · intro before after split
      apply Sealed.intact
      apply sealed_run
      intro earlier call later splitBefore
      exact harmless earlier call (later ++ after) (by rw [split, splitBefore]; simp)
    · intro before call after split
      exact harmless_iff.mp (harmless before call after split)

def sampleRevocation (target : Digest) : Revocation where
  revocationId := .zero
  targetType := .token
  targetId := target
  reason := .compromised
  issuedBy := .zero
  issuedAt := 7
  zone := "zone-a"
  signature := .sentinel

/-- A call with the all-zero key fails and moves the rolling hash; the next call
succeeds and leaves a head that verification refuses. -/
theorem run_broken_by_blank_key :
    let hashes := Hashes.polynomial
    let fresh := new hashes "zone-a"
    let blank : AppendCall := ⟨sampleRevocation Hashes.ipad, ⟨.zero⟩, "t-1"⟩
    let signed : AppendCall := ⟨sampleRevocation Hashes.opad, ⟨Hashes.ipad⟩, "t-2"⟩
    (apply hashes fresh blank).2 = .error (.signatureInvalid "signing key is all zeros") ∧
      (apply hashes fresh blank).1.chainHash ≠ fresh.chainHash ∧
      (apply hashes (run hashes fresh [blank]) signed).2 = .ok 0 ∧
      verifyChain hashes (run hashes fresh [blank, signed]) =
        .error (.chainIntegrity "rolling chain hash does not match head") := by
  decide +kernel

/-!
## Rebuilding
-/

theorem rebuildEvents_ok {index : Nat} {previous : Option EngineObjectId}
    {chain result : RevocationChain}
    (accepted : rebuildEvents hashes index previous chain events = .ok result) :
    LinkedFrom index previous events ∧
      result.chainHash = events.foldl (extendHash hashes) chain.chainHash ∧
      ∀ targetId, result.isRevoked targetId = true ↔ chain.isRevoked targetId = true ∨
        ∃ event ∈ events, event.revocation.targetId = targetId := by
  induction events generalizing index previous chain with
  | nil =>
    cases accepted
    simp [LinkedFrom]
  | cons event rest ih =>
    simp only [rebuildEvents, checkRebuiltLink] at accepted
    split at accepted
    · cases accepted
    · next numbered =>
      split at accepted
      · cases accepted
      · next linked =>
        split at accepted
        · cases accepted
        · obtain ⟨others, rolling, index⟩ := ih accepted
          have link : event.prevEvent = previous := by
            by_contra other
            rw [if_neg other] at linked
            split at linked <;> cases linked
          refine ⟨⟨not_not.mp numbered, link, others⟩, rolling, fun targetId => ?_⟩
          rw [index, isRevoked, get?_insert, exists_mem_cons_iff]
          by_cases same : targetId = event.revocation.targetId
          · simp [same]
          · simp [same, Ne.symm same, isRevoked]

theorem rebuildFromEvents_ok {zone : String} {head : Option RevocationHead}
    {result : RevocationChain} (accepted : rebuildFromEvents hashes zone events head = .ok result) :
    LinkedFrom 0 none events ∧
      (∀ held ∈ head, events ≠ [] ∧ held.chainHash = foldedHash hashes events) ∧
      ∀ targetId, result.isRevoked targetId = true ↔
        ∃ event ∈ events, event.revocation.targetId = targetId := by
  obtain ⟨chain, walked, rest⟩ := bind_ok accepted
  obtain ⟨_, matched, built⟩ := bind_ok rest
  obtain ⟨linked, rolling, index⟩ := rebuildEvents_ok walked
  refine ⟨linked, ?_, fun targetId => ?_⟩
  · rintro held rfl
    simp only [checkRebuiltHead, else_ok_iff] at matched
    obtain ⟨present, -, same, -⟩ := matched
    exact ⟨mt isEmpty_iff.mpr present, (not_not.mp same).trans rolling⟩
  · obtain rfl := Except.ok.inj built
    refine (index targetId).trans ?_
    simp [new, isRevoked, get?, empty]

def hashedInputs (hashes : Hashes) (events : List RevocationEvent) : Set Bytes :=
  hashedFor hashes.contentHash RevocationEvent.canonicalBytes genesisBytes events

/-- A head commits to the events of its chain: nothing else can be rebuilt under
it, and the rebuilt chain revokes the same targets. -/
theorem rebuild_tamper_evident (hashes : Hashes) (zone : String) (calls : List AppendCall)
    (succeeded : EachCall hashes zone calls fun chain call =>
      ∃ eventSeq, (apply hashes chain call).2 = .ok eventSeq)
    (head : RevocationHead) (current : (run hashes (new hashes zone) calls).head = some head)
    (altered : List RevocationEvent)
    (apart : hashes.CollisionFree (hashedInputs hashes (run hashes (new hashes zone) calls).events ∪
        hashedInputs hashes altered))
    (rebuilt : RevocationChain)
    (accepted : rebuildFromEvents hashes zone altered (some head) = .ok rebuilt) :
    altered = (run hashes (new hashes zone) calls).events ∧
      ∀ targetId, rebuilt.isRevoked targetId =
        (run hashes (new hashes zone) calls).isRevoked targetId := by
  have harmless : EachCall hashes zone calls (Harmless hashes) := by
    intro before call after split
    obtain ⟨eventSeq, ended⟩ := succeeded before call after split
    apply harmless_iff.mpr
    intro error failed
    rw [failed] at ended
    cases ended
  have intact := sealed_run harmless
  obtain ⟨-, matched, index⟩ := rebuildFromEvents_ok accepted
  have same : altered = (run hashes (new hashes zone) calls).events := by
    apply rollAll_injective apart (by decide) RevocationEvent.canonicalBytes_injective
      Set.subset_union_right Set.subset_union_left
    exact (matched head rfl).2.symm.trans (intact.headHash head current)
  refine ⟨same, fun targetId => ?_⟩
  rw [Bool.eq_iff_iff, index, intact.index, same]

def sampleCalls : List AppendCall :=
  [⟨sampleRevocation Hashes.ipad, ⟨Hashes.ipad⟩, "t-1"⟩,
    ⟨sampleRevocation Hashes.opad, ⟨Hashes.ipad⟩, "t-2"⟩]

theorem rebuild_tamper_evident_pair :
    let hashes := Hashes.polynomial
    let chain := run hashes (new hashes "zone-a") sampleCalls
    chain.events.length = 2 ∧ ∃ head rebuilt, chain.head = some head ∧
      rebuildFromEvents hashes "zone-a" chain.events (some head) = .ok rebuilt ∧
      ∀ targetId, rebuilt.isRevoked targetId = chain.isRevoked targetId := by
  intro hashes chain
  have present : chain.head.isSome = true := by decide +kernel
  obtain ⟨head, current⟩ := Option.isSome_iff_exists.mp present
  have accepted : (rebuildFromEvents hashes "zone-a" chain.events chain.head).isOk = true := by
    decide +kernel
  obtain ⟨rebuilt, built⟩ := exists_of_isOk accepted
  rw [current] at built
  refine ⟨by decide +kernel, head, rebuilt, current, built,
    (rebuild_tamper_evident hashes "zone-a" sampleCalls ?_ head current chain.events ?_ rebuilt
      built).2⟩
  · refine forall_places_iff.mpr fun place member => exists_of_isOk ?_
    revert place
    decide +kernel
  · rw [Set.union_self]
    refine Set.InjOn.mono (hashedFor_subset_listed _ _ _ _) ?_
    intro left leftMember right rightMember
    exact List.inj_on_of_nodup_map (by decide +kernel) leftMember rightMember

/-- What the events and the head of a chain are after any appends. -/
structure Guaranteed (hashes : Hashes) (zone : String) (events : List RevocationEvent)
    (head : Option RevocationHead) : Prop where
  zones : ∀ event ∈ events, event.revocation.zone = zone
  ids : ∀ before event after, events = before ++ event :: after → event.eventId =
    (nextEvent hashes { new hashes zone with events := before } event.revocation).eventId
  present : head.isSome ↔ events ≠ []
  names : ∀ held ∈ head, events.getLast?.map (·.eventId) = some held.latestEvent ∧
    held.zone = zone ∧ held.chainHash = foldedHash hashes events

/-- Rebuilding checks the numbers, the links and the rolling hash, and leaves the rest to the
store: the zones, the ids and what else the head says, or that there is one. -/
theorem rebuild_guarantees_iff (hashes : Hashes) (zone : String) (events : List RevocationEvent)
    (head : Option RevocationHead) (rebuilt : RevocationChain)
    (accepted : rebuildFromEvents hashes zone events head = .ok rebuilt) :
    Guaranteed hashes zone events head ↔
      (∀ event ∈ events, event.revocation.zone = zone ∧ event.eventId = deriveEventId hashes
        (new hashes zone) event.revocation event.eventSeq event.prevEvent) ∧
      (events ≠ [] → head.isSome) ∧
      ∀ held ∈ head, events.getLast?.map (·.eventId) = some held.latestEvent ∧
        held.zone = zone := by
  obtain ⟨linked, checked, -⟩ := rebuildFromEvents_ok accepted
  have derived : ∀ before event after, events = before ++ event :: after →
      deriveEventId hashes (new hashes zone) event.revocation event.eventSeq event.prevEvent =
        (nextEvent hashes { new hashes zone with events := before } event.revocation).eventId := by
    rintro before event after rfl
    obtain ⟨-, numbered, link, -⟩ := linkedFrom_append_cons_iff.mp linked
    rw [numbered, link, Nat.zero_add, Option.or_none]
    rfl
  constructor
  · intro guaranteed
    refine ⟨fun event member => ⟨guaranteed.zones event member, ?_⟩, guaranteed.present.mpr,
      fun held current => ?_⟩
    · obtain ⟨before, after, split⟩ := append_of_mem member
      rw [derived before event after split]
      exact guaranteed.ids before event after split
    · obtain ⟨latest, zone, -⟩ := guaranteed.names held current
      exact ⟨latest, zone⟩
  · rintro ⟨each, present, names⟩
    refine ⟨fun event member => (each event member).1, ?_, ⟨?_, present⟩, fun held current => ?_⟩
    · intro before event after split
      rw [← derived before event after split]
      exact (each event (split ▸ mem_append_right _ (.head _))).2
    · intro some
      obtain ⟨held, current⟩ := Option.isSome_iff_exists.mp some
      exact (checked held current).1
    · obtain ⟨latest, zone⟩ := names held current
      exact ⟨latest, zone, (checked held current).2⟩

theorem rebuild_guarantees_pair :
    let chain := run .polynomial (new .polynomial "zone-a") sampleCalls
    chain.events.length = 2 ∧ Guaranteed .polynomial "zone-a" chain.events chain.head := by
  intro chain
  refine ⟨by decide +kernel, ?_⟩
  have isOk : (rebuildFromEvents .polynomial "zone-a" chain.events chain.head).isOk = true := by
    decide +kernel
  obtain ⟨rebuilt, accepted⟩ := exists_of_isOk isOk
  exact (rebuild_guarantees_iff _ _ _ _ rebuilt accepted).mpr (by decide +kernel)

/-- An event of another zone, under an id of its own choice and without a head, is loaded. -/
theorem rebuild_loads_foreign :
    let foreign : RevocationEvent :=
      ⟨.zero, { sampleRevocation Hashes.ipad with zone := "zone-b" }, none, 0⟩
    (rebuildFromEvents .polynomial "zone-a" [foreign] none).isOk = true ∧
      foreign.eventId ≠ deriveEventId .polynomial (new .polynomial "zone-a") foreign.revocation
        foreign.eventSeq foreign.prevEvent ∧
      ¬ Guaranteed .polynomial "zone-a" [foreign] none := by
  refine ⟨by decide +kernel, by decide +kernel, fun guaranteed => ?_⟩
  cases guaranteed.present.mpr (cons_ne_nil _ _)

end RevocationChain

end FrankenEngine.Revocations
