import FrankenEngine.Library.History
import FrankenEngine.Remote.Idempotency

/-!
# At most once

An entry that is neither too old nor of a past epoch stays in the store, and its
status is what was reported last. So a key is claimed at most once while its
entry lives, and a cached result is repeated exactly as long as no later report
replaces it: the store takes reports about entries that are already completed.
-/

set_option autoImplicit false

namespace FrankenEngine.Remote

open Library OrderedMap List

/-- Different inputs are hashed as different bytes. -/
theorem KeyDerivationInput.preimage_injective {left right : KeyDerivationInput}
    {leftEpoch rightEpoch : UInt64}
    (leftName : (utf8 left.computationName).length < 2 ^ 32)
    (rightName : (utf8 right.computationName).length < 2 ^ 32)
    (leftTrace : (utf8 left.traceId).length < 2 ^ 32)
    (rightTrace : (utf8 right.traceId).length < 2 ^ 32)
    (same : left.preimage leftEpoch = right.preimage rightEpoch) :
    left = right ∧ leftEpoch = rightEpoch := by
  simp only [preimage, append_assoc] at same
  obtain ⟨names, same⟩ := framed_textFrame leftName rightName same
  obtain ⟨inputs, same⟩ := framed_bytes trivial trivial same
  obtain ⟨traces, same⟩ := framed_textFrame leftTrace rightTrace same
  obtain ⟨attempts, same⟩ :=
    framed_beBytes 4 left.attemptNumber.toNat_lt right.attemptNumber.toNat_lt same
  obtain ⟨epochs, -⟩ := framed_wordFrame trivial trivial same
  cases left
  cases right
  cases names
  cases inputs
  cases traces
  cases UInt32.toNat.inj attempts
  exact ⟨rfl, epochs⟩

theorem KeyDerivationInput.preimage_injective_ping :
    let left : KeyDerivationInput := ⟨"ping", .zero, "trace", 0⟩
    let right : KeyDerivationInput := ⟨"pi" ++ "ng", .zero, "trace", 4294967295 + 1⟩
    (utf8 left.computationName).length = 4 ∧ (utf8 left.traceId).length = 5 ∧
      left.preimage 1 = right.preimage 1 ∧ left = right := by
  intro left right
  have same : left.preimage 1 = right.preimage 1 := by decide
  exact ⟨rfl, rfl, same,
    (preimage_injective (by decide) (by decide) (by decide) (by decide) same).1⟩

theorem DedupStatus.answer_injective : Function.Injective DedupStatus.answer := by
  intro left right same
  cases left <;> cases right <;> cases same <;> rfl

theorem DedupStatus.answer_ne_new (status : DedupStatus) : status.answer ≠ .new := by
  cases status <;> nofun

namespace IdempotencyStore

def Lives (store : IdempotencyStore) (entry : DedupEntry) (currentTicks : UInt64) : Prop :=
  saturatingSub currentTicks entry.createdAtTicks <
    (store.retryConfig entry.computationName).entryTtlTicks

variable {currentTicks now : UInt64} {input : KeyDerivationInput} {key : IdempotencyKey}
  {result : DedupResult}

variable {entry : DedupEntry}

theorem lives_iff {store : IdempotencyStore} :
    store.Lives entry currentTicks ↔ currentTicks.toNat - entry.createdAtTicks.toNat <
      (store.retryConfig entry.computationName).entryTtlTicks.toNat := by
  rw [Lives, UInt64.lt_iff_toNat_lt, toNat_saturatingSub]

theorem Lives.before {store : IdempotencyStore} {earlier later : UInt64}
    (lives : store.Lives entry later) (ordered : earlier ≤ later) : store.Lives entry earlier := by
  rw [lives_iff] at lives ⊢
  have := UInt64.le_iff_toNat_le.mp ordered
  omega

def SameConfigs (left right : IdempotencyStore) : Prop :=
  left.retryConfigs = right.retryConfigs ∧ left.defaultRetryConfig = right.defaultRetryConfig

theorem SameConfigs.lives_iff {left right : IdempotencyStore} (same : SameConfigs left right) :
    left.Lives entry currentTicks ↔ right.Lives entry currentTicks := by
  rw [Lives, Lives, retryConfig, retryConfig, same.1, same.2]

variable {store : IdempotencyStore} {keyHex : String} {entry : DedupEntry}

theorem get?_evictExpired_of_lives (found : store.entries.get? keyHex = some entry)
    (lives : store.Lives entry currentTicks) (computationName : String) :
    (store.evictExpired currentTicks computationName).entries.get? keyHex = some entry := by
  rw [evictExpired, get?_retain, found, Option.filter_eq_some_iff]
  refine ⟨rfl, ?_⟩
  split
  next own => exact decide_eq_true (own ▸ lives)
  next => rfl

theorem get?_evictAllExpired_of_lives (found : store.entries.get? keyHex = some entry)
    (lives : store.Lives entry currentTicks) :
    (store.evictAllExpired currentTicks).entries.get? keyHex = some entry := by
  rw [evictAllExpired, get?_retain, found, Option.filter_eq_some_iff]
  refine ⟨rfl, decide_eq_true ?_⟩
  have ttl : ((store.retryConfigs.get? entry.computationName).map (·.entryTtlTicks)).getD
      store.defaultRetryConfig.entryTtlTicks =
        (store.retryConfig entry.computationName).entryTtlTicks := by
    rw [retryConfig]
    cases store.retryConfigs.get? entry.computationName <;> rfl
  rw [ttl]
  exact lives

theorem checkAndClaim_cases (store : IdempotencyStore) (key : IdempotencyKey)
    (input : KeyDerivationInput) (currentTicks : UInt64) :
    (∃ error, store.checkAndClaim key input currentTicks = (store, .error error)) ∨
      key.epoch = store.currentEpoch ∧
        let evicted := store.evictExpired currentTicks input.computationName
        let checked := store.checkAndClaim key input currentTicks
        ((∃ entry, evicted.entries.get? key.toHex = some entry ∧
            checked.2 = .ok entry.status.answer ∧ checked.1.entries = evicted.entries) ∨
          evicted.entries.get? key.toHex = none ∧ checked.2 = .ok .new ∧
            checked.1.entries = evicted.entries.insert key.toHex
              ⟨.inProgress, input.computationName, currentTicks, store.currentEpoch⟩) := by
  unfold checkAndClaim
  split
  next => exact .inl ⟨_, rfl⟩
  next bound =>
    dsimp only
    split
    next => exact .inl ⟨_, rfl⟩
    next =>
      refine .inr ⟨not_not.mp bound, ?_⟩
      split
      next entry found => exact .inl ⟨entry, found, rfl, rfl⟩
      next absent => exact .inr ⟨absent, rfl, rfl⟩

def Call.report (keyHex : String) : Call → Option DedupStatus
  | .markCompleted key resultHash => if key.toHex = keyHex then some (.completed resultHash) else none
  | .markFailed key errorCode => if key.toHex = keyHex then some (.failed errorCode) else none
  | _ => none

def Call.ticks : Call → Option UInt64
  | .checkAndClaim _ _ currentTicks => some currentTicks
  | .evictAllExpired currentTicks => some currentTicks
  | _ => none

def Rises (record : Record IdempotencyStore Call Outcome) : Prop :=
  ∀ newEpoch newSessionKey, record.call = .advanceEpoch newEpoch newSessionKey →
    record.before.currentEpoch < newEpoch

theorem checkAndClaim_frame (store : IdempotencyStore) (key : IdempotencyKey)
    (input : KeyDerivationInput) (currentTicks : UInt64) :
    SameConfigs (store.checkAndClaim key input currentTicks).1 store ∧
      (store.checkAndClaim key input currentTicks).1.currentEpoch = store.currentEpoch := by
  unfold checkAndClaim
  split
  next => exact ⟨⟨rfl, rfl⟩, rfl⟩
  next =>
    dsimp only
    split
    next => exact ⟨⟨rfl, rfl⟩, rfl⟩
    next => split <;> exact ⟨⟨rfl, rfl⟩, rfl⟩

theorem mark_frame (store : IdempotencyStore) (key : IdempotencyKey) (status : DedupStatus) :
    SameConfigs (store.mark key status).1 store ∧
      (store.mark key status).1.currentEpoch = store.currentEpoch := by
  unfold mark
  dsimp only
  split <;> exact ⟨⟨rfl, rfl⟩, rfl⟩

theorem get?_mark (found : store.entries.get? keyHex = some entry) (key : IdempotencyKey)
    (status : DedupStatus) : (store.mark key status).1.entries.get? keyHex =
      some { entry with
        status := (if key.toHex = keyHex then some status else none).getD entry.status } := by
  unfold mark
  dsimp only
  by_cases own : key.toHex = keyHex
  · subst own
    rw [found]
    simp [get?_insert]
  · split
    next => simp [found, own]
    next => simp [get?_insert, found, own, Ne.symm own]

/-- What a store has kept of an entry of an earlier one: everything but the status, unless the
epoch has moved on. -/
structure Keeps (store after : IdempotencyStore) (keyHex : String) (entry : DedupEntry)
    (status : DedupStatus) : Prop where
  configs : SameConfigs after store
  epoch : after.currentEpoch = store.currentEpoch
  found : after.entries.get? keyHex = some { entry with status }

theorem Keeps.checkAndClaim (found : store.entries.get? keyHex = some entry)
    (lives : store.Lives entry currentTicks) (key : IdempotencyKey) (input : KeyDerivationInput) :
    Keeps store (store.checkAndClaim key input currentTicks).1 keyHex entry entry.status := by
  obtain ⟨configs, epoch⟩ := store.checkAndClaim_frame key input currentTicks
  refine ⟨configs, epoch, ?_⟩
  have kept := get?_evictExpired_of_lives found lives input.computationName
  rcases store.checkAndClaim_cases key input currentTicks with
    ⟨error, refused⟩ | ⟨-, ⟨-, -, -, entries⟩ | ⟨absent, -, entries⟩⟩
  · rw [refused]
    exact found
  · rw [entries]
    exact kept
  · rw [entries, get?_insert]
    split
    next own =>
      rw [own, absent] at kept
      cases kept
    next => exact kept

theorem perform_keeps (found : store.entries.get? keyHex = some entry) (call : Call)
    (lives : ∀ ticks ∈ call.ticks, store.Lives entry ticks)
    (rises : Rises (record perform store call)) :
    store.currentEpoch < (store.perform call).1.currentEpoch ∨
      Keeps store (store.perform call).1 keyHex entry ((call.report keyHex).getD entry.status) := by
  cases call with
  | checkAndClaim key input currentTicks =>
    exact .inr (Keeps.checkAndClaim found (lives _ rfl) key input)
  | markCompleted key resultHash =>
    obtain ⟨configs, epoch⟩ := store.mark_frame key (.completed resultHash)
    exact .inr ⟨configs, epoch, get?_mark found key _⟩
  | markFailed key errorCode =>
    obtain ⟨configs, epoch⟩ := store.mark_frame key (.failed errorCode)
    exact .inr ⟨configs, epoch, get?_mark found key _⟩
  | evictAllExpired currentTicks =>
    exact .inr ⟨⟨rfl, rfl⟩, rfl, get?_evictAllExpired_of_lives found (lives _ rfl)⟩
  | advanceEpoch newEpoch newSessionKey => exact .inl (rises newEpoch newSessionKey rfl)

theorem sameConfigs_perform (store : IdempotencyStore) (call : Call) :
    SameConfigs (store.perform call).1 store := by
  cases call with
  | checkAndClaim key input currentTicks =>
    exact (store.checkAndClaim_frame key input currentTicks).1
  | markCompleted key resultHash => exact (store.mark_frame key _).1
  | markFailed key errorCode => exact (store.mark_frame key _).1
  | evictAllExpired | advanceEpoch => exact ⟨rfl, rfl⟩

theorem currentEpoch_le_perform (call : Call) (rises : Rises (record perform store call)) :
    store.currentEpoch ≤ (store.perform call).1.currentEpoch := by
  cases call with
  | checkAndClaim key input currentTicks =>
    exact (store.checkAndClaim_frame key input currentTicks).2.ge
  | markCompleted key resultHash => exact (store.mark_frame key _).2.ge
  | markFailed key errorCode => exact (store.mark_frame key _).2.ge
  | evictAllExpired currentTicks => exact le_rfl
  | advanceEpoch newEpoch newSessionKey => exact (rises newEpoch newSessionKey rfl).le

def lastReport (keyHex : String) (calls : List Call) : Option DedupStatus :=
  (calls.filterMap (Call.report keyHex)).getLast?

theorem getD_lastReport_cons (keyHex : String) (call : Call) (rest : List Call)
    (status : DedupStatus) : (lastReport keyHex (call :: rest)).getD status =
      (lastReport keyHex rest).getD ((call.report keyHex).getD status) := by
  rw [lastReport, lastReport, filterMap_cons]
  cases call.report keyHex with
  | none => rfl
  | some report => rw [getLast?_cons]; rfl

theorem sameConfigs_final (calls : List Call) : SameConfigs (final perform store calls) store := by
  induction calls generalizing store with
  | nil => exact ⟨rfl, rfl⟩
  | cons call rest ih =>
    have later : SameConfigs (final perform (store.perform call).1 rest) _ := ih
    have own := sameConfigs_perform store call
    exact ⟨later.1.trans own.1, later.2.trans own.2⟩

theorem currentEpoch_le_final (calls : List Call)
    (rising : ∀ entry ∈ history perform store calls, Rises entry) :
    store.currentEpoch ≤ (final perform store calls).currentEpoch := by
  induction calls generalizing store with
  | nil => exact le_rfl
  | cons call rest ih =>
    obtain ⟨rises, rising⟩ := forall_mem_cons.mp rising
    exact (currentEpoch_le_perform call rises).trans (ih rising)

theorem final_keeps (found : store.entries.get? keyHex = some entry) (lives : store.Lives entry now)
    (calls : List Call) (past : ∀ call ∈ calls, ∀ ticks ∈ call.ticks, ticks ≤ now)
    (rising : ∀ entry ∈ history perform store calls, Rises entry) :
    store.currentEpoch < (final perform store calls).currentEpoch ∨
      Keeps store (final perform store calls) keyHex entry
        ((lastReport keyHex calls).getD entry.status) := by
  induction calls generalizing store entry with
  | nil => exact .inr ⟨⟨rfl, rfl⟩, rfl, found⟩
  | cons call rest ih =>
    obtain ⟨rises, rising⟩ := forall_mem_cons.mp rising
    obtain ⟨now_le, past⟩ := forall_mem_cons.mp past
    rw [getD_lastReport_cons]
    rcases perform_keeps found call (fun ticks own => lives.before (now_le ticks own)) rises with
      moved | kept
    · exact .inl (moved.trans_le (currentEpoch_le_final rest rising))
    · have still : (store.perform call).1.Lives
          { entry with status := (call.report keyHex).getD entry.status } now :=
        kept.configs.lives_iff.mpr lives
      rcases ih kept.found still past rising with moved | later
      · exact .inl (kept.epoch ▸ moved)
      · exact .inr ⟨⟨later.configs.1.trans kept.configs.1, later.configs.2.trans kept.configs.2⟩,
          later.epoch.trans kept.epoch, later.found⟩

theorem Keeps.answer {after : IdempotencyStore} {status : DedupStatus}
    (kept : Keeps store after key.toHex entry status) (lives : store.Lives entry now)
    (answered : (after.checkAndClaim key input now).2 = .ok result) : result = status.answer := by
  have still : after.Lives { entry with status } now := kept.configs.lives_iff.mpr lives
  have present := get?_evictExpired_of_lives kept.found still input.computationName
  rcases after.checkAndClaim_cases key input now with
    ⟨error, refused⟩ | ⟨-, ⟨other, found, answer, -⟩ | ⟨absent, -⟩⟩
  · rw [refused] at answered
    cases answered
  · cases present.symm.trans found
    exact Except.ok.inj (answered.symm.trans answer)
  · cases present.symm.trans absent

theorem epoch_of_answered (answered : (store.checkAndClaim key input now).2 = .ok result) :
    key.epoch = store.currentEpoch := by
  rcases store.checkAndClaim_cases key input now with ⟨error, refused⟩ | ⟨bound, -⟩
  · rw [refused] at answered
    cases answered
  · exact bound

theorem left_of_new (answered : (store.checkAndClaim key input now).2 = .ok .new) :
    (store.checkAndClaim key input now).1.entries.get? key.toHex =
      some ⟨.inProgress, input.computationName, now, store.currentEpoch⟩ := by
  rcases store.checkAndClaim_cases key input now with
    ⟨error, refused⟩ | ⟨-, ⟨entry, -, answer, -⟩ | ⟨-, -, entries⟩⟩
  · rw [refused] at answered
    cases answered
  · exact absurd (Except.ok.inj (answer.symm.trans answered)) entry.status.answer_ne_new
  · rw [entries, get?_insert, if_pos rfl]

theorem status_of_cached {result : ContentHash}
    (answered : (store.checkAndClaim key input now).2 = .ok (.cachedResult result))
    (left : (store.checkAndClaim key input now).1.entries.get? key.toHex = some entry) :
    entry.status = .completed result := by
  rcases store.checkAndClaim_cases key input now with
    ⟨error, refused⟩ | ⟨-, ⟨other, found, answer, entries⟩ | ⟨-, new, -⟩⟩
  · rw [refused] at answered
    cases answered
  · rw [entries] at left
    cases found.symm.trans left
    exact DedupStatus.answer_injective (Except.ok.inj (answer.symm.trans answered))
  · cases new.symm.trans answered

theorem answer_of_left {again : KeyDerivationInput} {since : UInt64} {first : DedupResult}
    (before : (store.checkAndClaim key input since).2 = .ok first)
    (left : (store.checkAndClaim key input since).1.entries.get? key.toHex = some entry)
    (lives : store.Lives entry now) (between : List Call)
    (past : ∀ call ∈ between, ∀ ticks ∈ call.ticks, ticks ≤ now)
    (rising : ∀ entry ∈ history perform (store.checkAndClaim key input since).1 between,
      Rises entry)
    (answered : ((final perform (store.checkAndClaim key input since).1 between).checkAndClaim key
      again now).2 = .ok result) :
    result = ((lastReport key.toHex between).getD entry.status).answer := by
  obtain ⟨configs, epoch⟩ := store.checkAndClaim_frame key input since
  have still : (store.checkAndClaim key input since).1.Lives entry now :=
    configs.lives_iff.mpr lives
  rcases final_keeps left still between past rising with moved | kept
  · -- Both answers are for the epoch of the key.
    rw [epoch, ← epoch_of_answered before, epoch_of_answered answered] at moved
    exact absurd moved (lt_irrefl _)
  · exact kept.answer still answered

/-- In a run with ticks that do not fall and epochs that rise, two claims of a key are the ttl of
its computation apart; and within the ttl of its entry, a cached result is repeated exactly if the
last report in between, if there is one, is that result. -/
theorem run_answers (store : IdempotencyStore) (calls : List Call)
    (ordered : (calls.filterMap Call.ticks).Pairwise (· ≤ ·))
    (rising : ∀ entry ∈ history perform store calls, Rises entry) :
    ∀ earlier key input since between again now later,
      calls = earlier ++ .checkAndClaim key input since ::
        (between ++ .checkAndClaim key again now :: later) →
      let first := final perform store earlier
      let claimed := (first.checkAndClaim key input since).1
      let second := final perform claimed between
      ((first.checkAndClaim key input since).2 = .ok .new →
        (second.checkAndClaim key again now).2 = .ok .new →
        since.toNat + (store.retryConfig input.computationName).entryTtlTicks.toNat ≤ now.toNat) ∧
      ∀ result entry answer,
        (first.checkAndClaim key input since).2 = .ok (.cachedResult result) →
        claimed.entries.get? key.toHex = some entry → store.Lives entry now →
        (second.checkAndClaim key again now).2 = .ok answer →
        (answer = .cachedResult result ↔
          ∀ status ∈ lastReport key.toHex between, status = .completed result) := by
  rintro earlier key input since between again now later rfl first claimed second
  have configs : SameConfigs first store := sameConfigs_final earlier
  rw [history_append] at rising
  have calm : ∀ entry ∈ history perform claimed between, Rises entry := by
    intro entry member
    refine rising entry (List.mem_append_right _ (.tail _ ?_))
    rw [history_append]
    exact List.mem_append_left _ member
  simp only [List.filterMap_append, List.filterMap_cons, Call.ticks, List.pairwise_append,
    List.pairwise_cons] at ordered
  obtain ⟨-, ⟨fromSince, -, -, toNow⟩, -⟩ := ordered
  have past : ∀ call ∈ between, ∀ ticks ∈ call.ticks, ticks ≤ now := fun call member ticks own =>
    toNow ticks (List.mem_filterMap.mpr ⟨call, member, own⟩) now (.head _)
  constructor
  · intro before answered
    by_contra close
    have since_le := UInt64.le_iff_toNat_le.mp
      (fromSince now (List.mem_append_right _ (.head _)))
    have lives :
        first.Lives ⟨.inProgress, input.computationName, since, first.currentEpoch⟩ now := by
      rw [configs.lives_iff, lives_iff]
      dsimp only
      omega
    have known := answer_of_left before (left_of_new before) lives between past calm answered
    exact DedupStatus.answer_ne_new _ known.symm
  · intro result entry answer before left lives answered
    have known := answer_of_left before left (configs.lives_iff.mpr lives) between past calm answered
    rw [known, status_of_cached before left]
    cases lastReport key.toHex between with
    | none => simp [DedupStatus.answer]
    | some report =>
      rw [Option.getD_some, show DedupResult.cachedResult result =
        (DedupStatus.completed result).answer from rfl, DedupStatus.answer_injective.eq_iff]
      simp

def sampleKey : IdempotencyKey := ⟨.zero, 1⟩

def sampleInput : KeyDerivationInput := ⟨"computation", .zero, "t", 0⟩

theorem run_answers_repeated :
    let claimed := final perform (new 1 [])
      [.checkAndClaim sampleKey sampleInput 0, .markCompleted sampleKey .zero]
    ((claimed.checkAndClaim sampleKey sampleInput 1).1.checkAndClaim sampleKey sampleInput 2).2 =
      .ok (.cachedResult .zero) := by
  intro claimed
  have answers := run_answers (new 1 [])
    [.checkAndClaim sampleKey sampleInput 0, .markCompleted sampleKey .zero,
      .checkAndClaim sampleKey sampleInput 1, .checkAndClaim sampleKey sampleInput 2]
    (by decide) (by
      intro entry member
      simp only [history, List.mem_cons, List.not_mem_nil, or_false] at member
      rcases member with rfl | rfl | rfl | rfl <;>
        (intro newEpoch newSessionKey same; cases same))
  obtain ⟨-, repeated⟩ := answers [.checkAndClaim sampleKey sampleInput 0,
    .markCompleted sampleKey .zero] sampleKey sampleInput 1 [] sampleInput 2 [] rfl
  have answered : ∃ answer, ((claimed.checkAndClaim sampleKey sampleInput 1).1.checkAndClaim
      sampleKey sampleInput 2).2 = .ok answer := ⟨_, rfl⟩
  obtain ⟨answer, given⟩ := answered
  have unreported : ∀ status ∈ lastReport sampleKey.toHex [], status = .completed .zero := by
    intro status reported
    cases reported
  rw [given,
    (repeated .zero _ answer (by decide) rfl (by unfold Lives; decide) given).mpr unreported]

/-- A second report about a completed entry changes the answer. -/
theorem report_replaces_cached :
    let claimed := final perform (new 1 [])
      [.checkAndClaim sampleKey sampleInput 0, .markCompleted sampleKey .zero]
    let reported := final perform claimed
      [.checkAndClaim sampleKey sampleInput 1, .markFailed sampleKey "late"]
    (claimed.checkAndClaim sampleKey sampleInput 1).2 = .ok (.cachedResult .zero) ∧
      (reported.checkAndClaim sampleKey sampleInput 2).2 = .ok (.previouslyFailed "late") := by
  refine ⟨?_, ?_⟩ <;> decide

end IdempotencyStore

end FrankenEngine.Remote
