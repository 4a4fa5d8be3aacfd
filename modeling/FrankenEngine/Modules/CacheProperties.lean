import FrankenEngine.Library.History
import FrankenEngine.Library.Search
import FrankenEngine.Modules.Cache

/-!
# Regressions of the module cache

A lookup returns only what is cached for the latest version of a module that is
not revoked. The latest versions themselves can go back: a policy change takes
any policy version, and merging compares versions lexically, so that a higher
policy version brings a lower trust revision with it.
-/

set_option autoImplicit false

namespace FrankenEngine.Modules

open Library OrderedMap Option

/-- Neither the policy version nor the trust revision goes back. -/
def ModuleVersionFingerprint.UpTo (old new : ModuleVersionFingerprint) : Prop :=
  old.policyVersion ≤ new.policyVersion ∧ old.trustRevision ≤ new.trustRevision

theorem ModuleVersionFingerprint.upTo_refl (version : ModuleVersionFingerprint) :
    version.UpTo version :=
  ⟨UInt64.le_refl _, UInt64.le_refl _⟩

theorem upTo_iff_of_cacheVersionOrder {own peer : ModuleVersionFingerprint}
    (lower : cacheVersionOrder own peer = .lt) : own.UpTo peer ↔
      (own.policyVersion < peer.policyVersion → own.trustRevision ≤ peer.trustRevision) := by
  unfold cacheVersionOrder at lower
  rw [Ordering.then_eq_lt, Ordering.then_eq_lt, Std.compare_eq_lt, Std.compare_eq_iff_eq,
    Std.compare_eq_lt, Std.compare_eq_iff_eq] at lower
  constructor
  · intro upTo _
    exact upTo.2
  · intro trusted
    obtain policy | ⟨policy, trust | ⟨trust, _⟩⟩ := lower
    · exact ⟨UInt64.le_of_lt policy, trusted policy⟩
    · exact ⟨UInt64.le_of_eq policy, UInt64.le_of_lt trust⟩
    · exact ⟨UInt64.le_of_eq policy, UInt64.le_of_eq trust⟩

namespace ModuleCache

section Frames

variable (cache : ModuleCache)

@[simp] theorem latestVersions_pushEvent (event outcome errorCode moduleId detail : String)
    (context : CacheContext) :
    (cache.pushEvent event outcome errorCode moduleId detail context).latestVersions =
      cache.latestVersions := rfl

@[simp] theorem latestVersions_pruneStaleEntries (moduleId : String) :
    (cache.pruneStaleEntries moduleId).latestVersions = cache.latestVersions := by
  unfold pruneStaleEntries
  split
  · rfl
  · split <;> rfl

end Frames

/-!
## Merging
-/

/-- The key has the latest version of a module that is not revoked. -/
def Current (cache : ModuleCache) (key : ModuleCacheKey) : Prop :=
  cache.isRevoked key.moduleId = false ∧
    cache.latestVersions.get? key.moduleId = some key.version

instance (cache : ModuleCache) (key : ModuleCacheKey) : Decidable (cache.Current key) :=
  inferInstanceAs (Decidable (_ ∧ _))

variable {cache after : ModuleCache} {key : ModuleCacheKey}

theorem adoptEntry_eq (cache : ModuleCache) (entry : ModuleCacheEntry) :
    cache.adoptEntry entry =
      if cache.Current entry.key ∧ cache.entries.get? entry.key = none then
        { cache with entries := cache.entries.insert entry.key entry }
      else cache := by
  unfold adoptEntry
  split
  next revoked => simp [Current, revoked]
  next trusted =>
    split
    next latest => cases held : cache.entries.get? entry.key <;> simp [Current, trusted, latest]
    next other => simp [Current, other]

theorem pruneStaleEntries_eq {moduleId : String} (recorded : moduleId ∈ cache.latestVersions.keys) :
    cache.pruneStaleEntries moduleId =
      { cache with
        entries := cache.entries.retain fun key _ => key.moduleId ≠ moduleId ∨ cache.Current key } := by
  obtain ⟨latest, found⟩ := isSome_iff_exists.mp (mem_keys_iff.mp recorded)
  unfold pruneStaleEntries
  split
  next revoked =>
    congr 2
    funext key _
    by_cases own : key.moduleId = moduleId <;> simp [Current, own, revoked]
  next trusted =>
    rw [found]
    dsimp only
    congr 2
    funext key _
    by_cases own : key.moduleId = moduleId <;> simp [Current, own, trusted, found, @eq_comm _ latest]

theorem get?_adoptEntry (entry : ModuleCacheEntry) : (cache.adoptEntry entry).entries.get? key =
      (cache.entries.get? key).or
        (if entry.key = key ∧ cache.Current key then some entry else none) := by
  rw [adoptEntry_eq]
  by_cases own : entry.key = key
  · subst own
    cases held : cache.entries.get? entry.key <;> by_cases current : cache.Current entry.key <;>
      simp [held, current, get?_insert]
  · split <;> simp [own, get?_insert, Ne.symm own]

/-- Nothing but the entries is different. -/
def SameTrust (cache after : ModuleCache) : Prop :=
  after.latestVersions = cache.latestVersions ∧ after.revokedModules = cache.revokedModules

theorem SameTrust.current_iff (same : cache.SameTrust after) :
    after.Current key ↔ cache.Current key := by
  rw [Current, Current, isRevoked, isRevoked, same.1, same.2]

theorem adopted (entries : List ModuleCacheEntry) (cache : ModuleCache) :
    cache.SameTrust (entries.foldl adoptEntry cache) ∧
      ∀ key, (entries.foldl adoptEntry cache).entries.get? key = (cache.entries.get? key).or
        (if cache.Current key then entries.find? (·.key = key) else none) := by
  induction entries generalizing cache with
  | nil => exact ⟨⟨rfl, rfl⟩, by simp⟩
  | cons entry rest ih =>
    have same : cache.SameTrust (cache.adoptEntry entry) := by
      rw [adoptEntry_eq]
      split <;> exact ⟨rfl, rfl⟩
    obtain ⟨trust, found⟩ := ih (cache.adoptEntry entry)
    refine ⟨⟨trust.1.trans same.1, trust.2.trans same.2⟩, fun key => ?_⟩
    rw [List.foldl_cons, found, get?_adoptEntry, Option.or_assoc]
    by_cases current : cache.Current key <;> by_cases own : entry.key = key <;>
      simp [same.current_iff, current, own]

theorem pruned {modules : List String} (recorded : ∀ id ∈ modules, id ∈ cache.latestVersions.keys) :
    cache.SameTrust (modules.foldl pruneStaleEntries cache) ∧
      ∀ key, (modules.foldl pruneStaleEntries cache).entries.get? key =
        if key.moduleId ∈ modules ∧ ¬ cache.Current key then none else cache.entries.get? key := by
  induction modules generalizing cache with
  | nil => exact ⟨⟨rfl, rfl⟩, by simp⟩
  | cons moduleId rest ih =>
    obtain ⟨own, others⟩ := List.forall_mem_cons.mp recorded
    have same : cache.SameTrust (cache.pruneStaleEntries moduleId) := by
      rw [pruneStaleEntries_eq own]
      exact ⟨rfl, rfl⟩
    obtain ⟨trust, found⟩ := @ih (cache.pruneStaleEntries moduleId) (by rwa [same.1])
    refine ⟨⟨trust.1.trans same.1, trust.2.trans same.2⟩, fun key => ?_⟩
    rw [List.foldl_cons, found]
    simp only [same.current_iff]
    rw [pruneStaleEntries_eq own, get?_retain]
    cases cache.entries.get? key <;> by_cases current : cache.Current key <;>
      by_cases here : key.moduleId = moduleId <;> simp [current, here, Option.filter]

/-- The cache once it has taken over what the snapshot says of versions and revocations. -/
def trusting (cache : ModuleCache) (snapshot : CacheSnapshot) : ModuleCache :=
  { cache with
    latestVersions := snapshot.latestVersions.entries.foldl
      (fun held entry => adoptVersion held entry.1 entry.2) cache.latestVersions
    revokedModules := snapshot.revokedModules.keys.foldl
      (fun held moduleId => held.insert moduleId ()) cache.revokedModules }

theorem merged (cache : ModuleCache) (snapshot : CacheSnapshot) (context : CacheContext) :
    (cache.trusting snapshot).SameTrust (cache.mergeSnapshot snapshot context) ∧
      ∀ key, (cache.mergeSnapshot snapshot context).entries.get? key =
        if (cache.mergeSnapshot snapshot context).Current key then
          (cache.entries.get? key).or (snapshot.entries.find? (·.key = key))
        else if key.moduleId ∈ (cache.mergeSnapshot snapshot context).latestVersions.keys then none
        else cache.entries.get? key := by
  obtain ⟨adoptedTrust, adoptedEntries⟩ := adopted snapshot.entries (cache.trusting snapshot)
  obtain ⟨prunedTrust, prunedEntries⟩ := @pruned
    (snapshot.entries.foldl adoptEntry (cache.trusting snapshot)) _ (fun _ listed => listed)
  have same : (cache.trusting snapshot).SameTrust (cache.mergeSnapshot snapshot context) :=
    ⟨prunedTrust.1.trans adoptedTrust.1, prunedTrust.2.trans adoptedTrust.2⟩
  refine ⟨same, fun key => (prunedEntries key).trans ?_⟩
  simp only [same.current_iff, adoptedTrust.current_iff, adoptedEntries, same.1, adoptedTrust.1]
  by_cases current : (cache.trusting snapshot).Current key
  · simp only [current, not_true, and_false, if_false, if_true]
    rfl
  · simp only [current, not_false_eq_true, and_true, if_false, Option.or_none]
    rfl

/-!
## The latest versions
-/

/-- No latest version of a module goes back or is lost. -/
def Advances (before after : ModuleCache) : Prop :=
  ∀ moduleId old, before.latestVersions.get? moduleId = some old →
    ∃ new, after.latestVersions.get? moduleId = some new ∧ old.UpTo new

theorem advances_of_eq (same : after.latestVersions = cache.latestVersions) :
    cache.Advances after := by
  intro moduleId old found
  exact ⟨old, by rw [same, found], old.upTo_refl⟩

theorem advances_recordVersion_iff {moduleId : String} {version : ModuleVersionFingerprint}
    (recorded : after.latestVersions = cache.latestVersions.insert moduleId version) :
    cache.Advances after ↔
      ∀ old, cache.latestVersions.get? moduleId = some old → old.UpTo version := by
  constructor
  · intro advances old found
    obtain ⟨new, foundNew, upTo⟩ := advances moduleId old found
    rw [recorded, get?_insert, if_pos rfl] at foundNew
    cases foundNew
    exact upTo
  · intro upTo other old found
    rw [recorded, get?_insert]
    split
    next same =>
      subst same
      exact ⟨version, rfl, upTo old found⟩
    next => exact ⟨old, found, old.upTo_refl⟩

def mergedVersion (own : Option ModuleVersionFingerprint)
    (peerVersion : ModuleVersionFingerprint) : ModuleVersionFingerprint :=
  own.elim peerVersion fun version =>
    if cacheVersionOrder version peerVersion ≠ .lt then version else peerVersion

theorem get?_adoptVersion (held : OrderedMap String ModuleVersionFingerprint)
    (moduleId : String) (peerVersion : ModuleVersionFingerprint) (other : String) :
    (adoptVersion held moduleId peerVersion).get? other =
      if other = moduleId then
        some (mergedVersion (held.get? moduleId) peerVersion)
      else held.get? other := by
  unfold adoptVersion
  cases found : held.get? moduleId with
  | none => simp [mergedVersion, get?_insert]
  | some own =>
    by_cases higher : cacheVersionOrder own peerVersion = .lt
    · simp [mergedVersion, higher, get?_insert]
    · by_cases same : other = moduleId
      · simp [mergedVersion, higher, same, found]
      · simp [higher, same]

theorem get?_latestVersions_mergeSnapshot (snapshot : CacheSnapshot) (context : CacheContext)
    (moduleId : String) : (cache.mergeSnapshot snapshot context).latestVersions.get? moduleId =
      (snapshot.latestVersions.get? moduleId).elim (cache.latestVersions.get? moduleId)
        fun peerVersion =>
          some (mergedVersion (cache.latestVersions.get? moduleId) peerVersion) := by
  rw [(cache.merged snapshot context).1.1]
  exact get?_foldl_entries (fun own peerVersion => some (mergedVersion own peerVersion))
    get?_adoptVersion snapshot.latestVersions.ascending cache.latestVersions moduleId

theorem advances_mergeSnapshot_iff {snapshot : CacheSnapshot} {context : CacheContext} :
    cache.Advances (cache.mergeSnapshot snapshot context) ↔
      ∀ moduleId own peer, cache.latestVersions.get? moduleId = some own →
        snapshot.latestVersions.get? moduleId = some peer →
        own.policyVersion < peer.policyVersion → own.trustRevision ≤ peer.trustRevision := by
  constructor
  · intro advances moduleId own peer found offered policy
    obtain ⟨new, foundNew, upTo⟩ := advances moduleId own found
    have lower : cacheVersionOrder own peer = .lt :=
      Ordering.then_eq_lt.mpr (.inl (Std.compare_eq_lt.mpr policy))
    rw [get?_latestVersions_mergeSnapshot, offered, found] at foundNew
    simp only [mergedVersion, elim_some, lower, ne_eq, not_true_eq_false, if_false,
      some.injEq] at foundNew
    subst foundNew
    exact upTo.2
  · intro trusted moduleId own found
    rw [get?_latestVersions_mergeSnapshot, found]
    cases offered : snapshot.latestVersions.get? moduleId with
    | none => exact ⟨own, rfl, own.upTo_refl⟩
    | some peer =>
      refine ⟨_, rfl, ?_⟩
      by_cases lower : cacheVersionOrder own peer = .lt
      · simp only [mergedVersion, elim_some, lower, ne_eq, not_true_eq_false, if_false]
        exact (upTo_iff_of_cacheVersionOrder lower).mpr (trusted moduleId own peer found offered)
      · simp only [mergedVersion, elim_some, ne_eq, lower, not_false_eq_true, if_true]
        exact own.upTo_refl

theorem upTo_raiseTrust (latest : ModuleVersionFingerprint) (trustRevision : UInt64) :
    latest.UpTo (raiseTrust latest trustRevision) := by
  refine ⟨UInt64.le_refl _, ?_⟩
  unfold raiseTrust
  split
  next raised => exact raised
  next => exact UInt64.le_refl _

theorem advances_insert (request : CacheInsertRequest) (context : CacheContext) :
    cache.Advances (cache.insert request context).1 := by
  have admitted : (cache.storeEntry request context).latestVersions =
      cache.latestVersions.insert request.moduleId request.version := by
    simp [storeEntry, recordVersion]
  unfold insert
  split
  · exact advances_of_eq rfl
  · split
    · exact advances_of_eq rfl
    · cases found : cache.latestVersions.get? request.moduleId with
      | none =>
        rw [advances_recordVersion_iff admitted]
        intro old same
        cases found.symm.trans same
      | some latest =>
        by_cases regression : isRegression request.version latest
        · simp only [regression, if_true]
          exact advances_of_eq rfl
        · simp only [regression, Bool.false_eq_true, if_false]
          rw [advances_recordVersion_iff admitted]
          intro old same
          cases found.symm.trans same
          simp only [isRegression, Bool.or_eq_true, decide_eq_true_eq, not_or] at regression
          exact ⟨UInt64.not_lt.mp regression.1, UInt64.not_lt.mp regression.2⟩

/-!
## Entries
-/

def WellKeyed (cache : ModuleCache) : Prop := cache.entries.Keyed ModuleCacheEntry.key

/-- Every entry is an old one, or stands under its own key and has a latest version. -/
structure Extends (cache after : ModuleCache) : Prop where
  recorded : cache.latestVersions.keys ⊆ after.latestVersions.keys
  entries : ∀ key entry, after.entries.get? key = some entry →
    cache.entries.get? key = some entry ∨
      entry.key = key ∧ key.moduleId ∈ after.latestVersions.keys

theorem extends_of_eq (recorded : after.latestVersions = cache.latestVersions)
    (entries : after.entries = cache.entries) : cache.Extends after := by
  refine ⟨?_, fun key entry held => .inl ?_⟩
  · rw [recorded]
    exact fun _ => id
  · rwa [entries] at held

theorem Extends.trans {middle : ModuleCache} (first : cache.Extends middle)
    (second : middle.Extends after) : cache.Extends after := by
  refine ⟨List.Subset.trans first.recorded second.recorded, fun key entry held => ?_⟩
  obtain old | new := second.entries key entry held
  · exact (first.entries key entry old).imp_right fun own => ⟨own.1, second.recorded own.2⟩
  · exact .inr new

theorem Extends.pushEvent (held : cache.Extends after)
    (event outcome errorCode moduleId detail : String) (context : CacheContext) :
    cache.Extends (after.pushEvent event outcome errorCode moduleId detail context) :=
  ⟨held.recorded, held.entries⟩

theorem extends_pruneStaleEntries (cache : ModuleCache) (moduleId : String) :
    cache.Extends (cache.pruneStaleEntries moduleId) := by
  unfold pruneStaleEntries
  split
  · exact ⟨fun _ => id, fun _ _ held => .inl (get?_of_retain held)⟩
  · split
    · exact extends_of_eq rfl rfl
    · exact ⟨fun _ => id, fun _ _ held => .inl (get?_of_retain held)⟩

theorem keys_recordVersion (moduleId : String) (version : ModuleVersionFingerprint) :
    cache.latestVersions.keys ⊆ (cache.latestVersions.insert moduleId version).keys :=
  fun _ listed => mem_keys_insert.mpr (.inr listed)

theorem extends_insert (request : CacheInsertRequest) (context : CacheContext) :
    cache.Extends (cache.insert request context).1 := by
  have stored : cache.Extends (cache.storeEntry request context) := by
    apply Extends.pushEvent
    refine Extends.trans ?_ (extends_pruneStaleEntries _ _)
    exact ⟨keys_recordVersion _ _,
      forall_get?_insert (fun _ _ => .inl) (.inr ⟨rfl, mem_keys_insert.mpr (.inl rfl)⟩)⟩
  unfold insert
  split
  · exact extends_of_eq rfl rfl
  · split
    · exact extends_of_eq rfl rfl
    · split
      · exact stored
      · split
        · exact extends_of_eq rfl rfl
        · exact stored

theorem extends_mergeSnapshot (snapshot : CacheSnapshot) (context : CacheContext) :
    cache.Extends (cache.mergeSnapshot snapshot context) := by
  constructor
  · intro moduleId recorded
    rw [mem_keys_iff] at recorded ⊢
    rw [get?_latestVersions_mergeSnapshot]
    cases snapshot.latestVersions.get? moduleId with
    | none => exact recorded
    | some => rfl
  · intro key entry held
    rw [(cache.merged snapshot context).2] at held
    split at held
    next current =>
      refine (or_eq_some_iff.mp held).imp_right fun offered => ⟨?_, ?_⟩
      · simpa using List.find?_some offered.2
      · exact mem_keys_iff.mpr (isSome_iff_exists.mpr ⟨_, current.2⟩)
    next =>
      split at held
      · cases held
      · exact .inl held

theorem get_eq_some {moduleId : String} {version : ModuleVersionFingerprint}
    {entry : ModuleCacheEntry} (found : cache.get moduleId version = some entry) :
    cache.isRevoked moduleId = false ∧
      cache.latestVersions.get? moduleId = some version ∧
      cache.entries.get? ⟨moduleId, version⟩ = some entry := by
  unfold get at found
  split at found
  · cases found
  · next trusted =>
    cases recorded : cache.latestVersions.get? moduleId with
    | none => simp [recorded] at found
    | some latest =>
      by_cases current : latest = version
      · simp only [recorded, current, ne_eq, not_true_eq_false, if_false] at found
        exact ⟨eq_false_of_ne_true trusted, by rw [current], found⟩
      · simp [recorded, current] at found

/-!
## Runs
-/

inductive CacheCall where
  | insert (request : CacheInsertRequest) (context : CacheContext)
  | invalidateSourceUpdate (moduleId : String) (newSourceHash : ContentHash)
      (context : CacheContext)
  | invalidatePolicyChange (moduleId : String) (newPolicyVersion : UInt64)
      (context : CacheContext)
  | invalidateTrustRevocation (moduleId : String) (newTrustRevision : UInt64)
      (context : CacheContext)
  | restoreTrust (moduleId : String) (trustRevision : UInt64) (context : CacheContext)
  | mergeSnapshot (snapshot : CacheSnapshot) (context : CacheContext)

def perform (tiers : HashTiers) (cache : ModuleCache) :
    CacheCall → ModuleCache × Except CacheError Unit
  | .insert request context => cache.insert request context
  | .invalidateSourceUpdate moduleId newSourceHash context =>
    (cache.invalidateSourceUpdate moduleId newSourceHash context, .ok ())
  | .invalidatePolicyChange moduleId newPolicyVersion context =>
    (cache.invalidatePolicyChange tiers moduleId newPolicyVersion context, .ok ())
  | .invalidateTrustRevocation moduleId newTrustRevision context =>
    (cache.invalidateTrustRevocation tiers moduleId newTrustRevision context, .ok ())
  | .restoreTrust moduleId trustRevision context =>
    (cache.restoreTrust tiers moduleId trustRevision context, .ok ())
  | .mergeSnapshot snapshot context => (cache.mergeSnapshot snapshot context, .ok ())

/-- A policy change goes forward, and no peer has a higher policy version with a lower trust
revision. -/
def Cautious (cache : ModuleCache) : CacheCall → Prop
  | .invalidatePolicyChange moduleId newPolicyVersion _ =>
    ∀ latest, cache.latestVersions.get? moduleId = some latest →
      latest.policyVersion ≤ newPolicyVersion
  | .mergeSnapshot snapshot _ =>
    ∀ moduleId own peer, cache.latestVersions.get? moduleId = some own →
      snapshot.latestVersions.get? moduleId = some peer →
      own.policyVersion < peer.policyVersion → own.trustRevision ≤ peer.trustRevision
  | _ => True

theorem advances_perform_iff {tiers : HashTiers} (call : CacheCall) :
    cache.Advances (cache.perform tiers call).1 ↔ cache.Cautious call := by
  cases call with
  | insert request context => exact iff_of_true (advances_insert request context) trivial
  | invalidateSourceUpdate moduleId newSourceHash context =>
    refine iff_of_true ((advances_recordVersion_iff rfl).mpr ?_) trivial
    intro old found
    rw [found]
    exact old.upTo_refl
  | invalidatePolicyChange moduleId newPolicyVersion context =>
    refine (advances_recordVersion_iff rfl).trans ?_
    constructor
    · intro upTo latest found
      exact (upTo latest found).1
    · intro forward old found
      refine ⟨forward old found, ?_⟩
      simp only [latestOrUnknown, found, getD_some]
      exact UInt64.le_refl _
  | invalidateTrustRevocation moduleId newTrustRevision context =>
    refine iff_of_true ((advances_recordVersion_iff rfl).mpr ?_) trivial
    intro old found
    simp only [latestOrUnknown, found, getD_some]
    exact upTo_raiseTrust old newTrustRevision
  | restoreTrust moduleId trustRevision context =>
    refine iff_of_true ((advances_recordVersion_iff rfl).mpr ?_) trivial
    intro old found
    simp only [latestOrUnknown, found, getD_some]
    exact upTo_raiseTrust old trustRevision
  | mergeSnapshot snapshot context => exact advances_mergeSnapshot_iff

theorem extends_perform {tiers : HashTiers} (call : CacheCall) :
    cache.Extends (cache.perform tiers call).1 := by
  cases call with
  | insert request context => exact extends_insert request context
  | invalidateSourceUpdate | invalidatePolicyChange | invalidateTrustRevocation =>
    exact ⟨keys_recordVersion _ _, fun _ _ held => .inl (get?_of_retain held)⟩
  | restoreTrust => exact ⟨keys_recordVersion _ _, fun _ _ => .inl⟩
  | mergeSnapshot snapshot context => exact extends_mergeSnapshot snapshot context

theorem WellKeyed.perform {tiers : HashTiers} (keyed : cache.WellKeyed) (call : CacheCall) :
    (cache.perform tiers call).1.WellKeyed :=
  fun key entry held => ((extends_perform call).entries key entry held).elim (keyed ·) (·.1)

/-- Over every run no latest version goes back exactly if every call is cautious, and a lookup
after any call returns only what is cached for the latest version of a trusted module. -/
theorem run_never_regresses_iff (tiers : HashTiers) (calls : List CacheCall) :
    ((∀ entry ∈ history (perform tiers) {} calls, entry.before.Advances entry.after) ↔
      ∀ entry ∈ history (perform tiers) {} calls, entry.before.Cautious entry.call) ∧
    ∀ entry ∈ history (perform tiers) {} calls, ∀ moduleId version found,
      entry.after.get moduleId version = some found →
        entry.after.isRevoked moduleId = false ∧
          entry.after.latestVersions.get? moduleId = some version ∧
          found.key = ⟨moduleId, version⟩ := by
  constructor
  · refine forall₂_congr fun entry member => ?_
    rw [(mem_history member).2]
    exact advances_perform_iff entry.call
  · intro entry member moduleId version found returned
    have kept : ∀ (cache : ModuleCache) (call : CacheCall), cache.WellKeyed →
        (cache.perform tiers call).1.WellKeyed := fun _ call held => held.perform call
    have start : WellKeyed {} := OrderedMap.keyed_empty
    have keyed := history_invariant kept start calls entry member
    have keyedAfter : entry.after.WellKeyed := by
      rw [(mem_history member).2]
      exact keyed.perform entry.call
    obtain ⟨trusted, latest, held⟩ := get_eq_some returned
    exact ⟨trusted, latest, keyedAfter held⟩

def sampleRequest (policyVersion trustRevision : UInt64) : CacheInsertRequest where
  moduleId := "mod:a"
  version := ⟨.zero, policyVersion, trustRevision⟩
  artifactHash := .zero
  resolvedSpecifier := "/app/a.mjs"

/-- A policy change takes the policy version back, and the snapshot of a peer with a higher policy
version takes the trust revision back; the module that was revoked by revision 5 is then cached
under revision 1 again. -/
theorem run_regresses :
    let tiers := Authority.Hashes.polynomial.toHashTiers
    let context : CacheContext := ⟨"t", "d", "p"⟩
    let peer := (insert {} (sampleRequest 9 1) context).1
    let entries := history (perform tiers) {} [.insert (sampleRequest 7 0) context,
      .invalidatePolicyChange "mod:a" 3 context, .invalidateTrustRevocation "mod:a" 5 context,
      .restoreTrust "mod:a" 5 context, .mergeSnapshot (peer.snapshot tiers) context]
    (entries.map fun entry => entry.after.latestVersions.get? "mod:a") =
        [some ⟨.zero, 7, 0⟩, some ⟨.zero, 3, 0⟩, some ⟨.zero, 3, 5⟩, some ⟨.zero, 3, 5⟩,
          some ⟨.zero, 9, 1⟩] ∧
      (entries.map fun entry => (entry.after.get "mod:a" ⟨.zero, 9, 1⟩).isSome) =
        [false, false, false, false, true] := by
  decide +kernel

/-!
## Exchanging snapshots

Two caches that merge each other's snapshots agree about latest versions and
revocations. Of an entry that both have under the same key each keeps its own.
-/

variable {left right : ModuleCache}

/-- Every cached module has a latest version. -/
def Versioned (cache : ModuleCache) : Prop :=
  ∀ key entry, cache.entries.get? key = some entry → key.moduleId ∈ cache.latestVersions.keys

theorem Versioned.merged_entries (versioned : cache.Versioned) (snapshot : CacheSnapshot)
    (context : CacheContext) (key : ModuleCacheKey) :
    (cache.mergeSnapshot snapshot context).entries.get? key =
      if (cache.mergeSnapshot snapshot context).Current key then
        (cache.entries.get? key).or (snapshot.entries.find? (·.key = key))
      else none := by
  rw [(cache.merged snapshot context).2]
  split
  · rfl
  · split
    · rfl
    next unrecorded =>
      refine eq_none_iff_forall_ne_some.mpr fun entry held => unrecorded ?_
      exact (extends_mergeSnapshot snapshot context).recorded (versioned key entry held)

theorem sound_final (tiers : HashTiers) (calls : List CacheCall) :
    (final (perform tiers) {} calls).Versioned ∧ (final (perform tiers) {} calls).WellKeyed := by
  refine List.foldlRecOn (motive := fun cache => Versioned cache ∧ WellKeyed cache) calls _ ?_ ?_
  · exact ⟨fun _ _ held => (nomatch held), keyed_empty⟩
  · intro cache sound call _
    have step := @extends_perform cache tiers call
    refine ⟨fun key entry held => ?_, sound.2.perform call⟩
    exact (step.entries key entry held).elim (fun old => step.recorded (sound.1 key entry old)) (·.2)

/-!
## Convergence
-/

theorem cacheVersionOrder_swap (own peer : ModuleVersionFingerprint) :
    cacheVersionOrder peer own = (cacheVersionOrder own peer).swap := by
  simp only [cacheVersionOrder, Ordering.swap_then]
  rw [Std.OrientedOrd.eq_swap (a := peer.policyVersion),
    Std.OrientedOrd.eq_swap (a := peer.trustRevision),
    Std.OrientedOrd.eq_swap (a := peer.sourceHash)]

theorem cacheVersionOrder_eq_iff {own peer : ModuleVersionFingerprint} :
    cacheVersionOrder own peer = .eq ↔ own = peer := by
  obtain ⟨hash, policy, trust⟩ := own
  obtain ⟨peerHash, peerPolicy, peerTrust⟩ := peer
  simp only [cacheVersionOrder, Ordering.then_eq_eq, Std.compare_eq_iff_eq,
    ModuleVersionFingerprint.mk.injEq]
  exact ⟨fun ⟨policies, trusts, hashes⟩ => ⟨compare_eq_iff_eq.mp hashes, policies, trusts⟩,
    fun ⟨hashes, policies, trusts⟩ => ⟨policies, trusts, compare_eq_iff_eq.mpr hashes⟩⟩

theorem mergedVersion_comm (own peer : ModuleVersionFingerprint) :
    mergedVersion (some own) peer = mergedVersion (some peer) own := by
  simp only [mergedVersion, elim_some, cacheVersionOrder_swap own peer]
  cases order : cacheVersionOrder own peer with
  | lt => rfl
  | gt => rfl
  | eq => exact cacheVersionOrder_eq_iff.mp order

theorem mergedVersion_eq_iff {own peer version : ModuleVersionFingerprint} :
    mergedVersion (some own) peer = version ↔ (own = version ∨ peer = version) ∧
      cacheVersionOrder own version ≠ .gt ∧ cacheVersionOrder peer version ≠ .gt := by
  have itself := cacheVersionOrder_eq_iff.mpr (rfl : version = version)
  simp only [mergedVersion, elim_some]
  constructor
  · intro taken
    have swapped := cacheVersionOrder_swap own peer
    split at taken
    · subst taken
      cases order : cacheVersionOrder own peer <;> simp_all
    · subst taken
      simp_all
  · rintro ⟨rfl | rfl, ownUpTo, peerUpTo⟩
    · rw [cacheVersionOrder_swap own peer] at peerUpTo
      rw [if_pos fun lower => peerUpTo (by rw [lower]; rfl)]
    · split
      next notLower =>
        cases order : cacheVersionOrder own peer with
        | lt => exact absurd order notLower
        | gt => exact absurd order ownUpTo
        | eq => exact cacheVersionOrder_eq_iff.mp order
      next => rfl

theorem find?_snapshot {tiers : HashTiers} (keyed : cache.WellKeyed) (key : ModuleCacheKey) :
    (cache.snapshot tiers).entries.find? (·.key = key) = cache.entries.get? key := by
  refine Option.ext fun entry => ?_
  rw [snapshot, Search.find?_eq_some_iff keyed.nodup_values, keyed.mem_values_iff]
  constructor
  · rintro ⟨found, rfl⟩
    exact found
  · intro found
    have own := keyed found
    exact ⟨own ▸ found, own⟩

structure Converged (tiers : HashTiers) (left right : ModuleCache) : Prop where
  latestVersions : left.latestVersions = right.latestVersions
  revokedModules : left.revokedModules = right.revokedModules
  entries : left.entries = right.entries
  stateHash : left.stateHash tiers = right.stateHash tiers

variable (tiers : HashTiers) (leftContext rightContext : CacheContext)

theorem sameTrust_exchange : (left.mergeSnapshot (right.snapshot tiers) leftContext).SameTrust
    (right.mergeSnapshot (left.snapshot tiers) rightContext) := by
  constructor
  · refine ext_get? fun moduleId => ?_
    rw [get?_latestVersions_mergeSnapshot, get?_latestVersions_mergeSnapshot]
    simp only [snapshot]
    cases left.latestVersions.get? moduleId <;> cases right.latestVersions.get? moduleId
    · rfl
    · rfl
    · rfl
    · exact congrArg some (mergedVersion_comm _ _)
  · rw [(merged left _ _).1.2, (merged right _ _).1.2]
    refine ext_keys fun moduleId => ?_
    rw [trusting, trusting, mem_keys_foldl_insert, mem_keys_foldl_insert]
    exact or_comm

/-- Neither cache has revoked the module or recorded a later version of it than that of the key,
and one of them has recorded that version. -/
@[mk_iff]
structure StaysCurrent (left right : ModuleCache) (key : ModuleCacheKey) : Prop where
  trusted : left.isRevoked key.moduleId = false ∧ right.isRevoked key.moduleId = false
  recorded : left.latestVersions.get? key.moduleId = some key.version ∨
    right.latestVersions.get? key.moduleId = some key.version
  latest : ∀ version, left.latestVersions.get? key.moduleId = some version ∨
    right.latestVersions.get? key.moduleId = some version →
      cacheVersionOrder version key.version ≠ .gt

theorem isRevoked_exchange (moduleId : String) :
    (left.mergeSnapshot (right.snapshot tiers) leftContext).isRevoked moduleId = false ↔
      left.isRevoked moduleId = false ∧ right.isRevoked moduleId = false := by
  simp only [isRevoked, ← Bool.not_eq_true, ← mem_keys_iff, ← not_or]
  rw [(merged left _ _).1.2, trusting, mem_keys_foldl_insert]
  rfl

theorem current_exchange_iff :
    (left.mergeSnapshot (right.snapshot tiers) leftContext).Current key ↔
      StaysCurrent left right key := by
  have itself := cacheVersionOrder_eq_iff.mpr (rfl : key.version = key.version)
  rw [Current, isRevoked_exchange, staysCurrent_iff, get?_latestVersions_mergeSnapshot]
  refine and_congr_right fun _ => ?_
  simp only [snapshot]
  cases left.latestVersions.get? key.moduleId <;> cases right.latestVersions.get? key.moduleId
  · simp
  · simp [mergedVersion]
    rintro rfl
    simp [itself]
  · simp
    rintro rfl
    simp [itself]
  · simp [mergedVersion_eq_iff, or_imp, forall_and]

theorem converged_iff (leftVersioned : left.Versioned) (rightVersioned : right.Versioned)
    (leftKeyed : left.WellKeyed) (rightKeyed : right.WellKeyed) :
    Converged tiers (left.mergeSnapshot (right.snapshot tiers) leftContext)
        (right.mergeSnapshot (left.snapshot tiers) rightContext) ↔
      ∀ key own peer, left.entries.get? key = some own → right.entries.get? key = some peer →
        StaysCurrent left right key → own = peer := by
  have same := @sameTrust_exchange left right tiers leftContext rightContext
  have exchanged : ∀ key, (left.mergeSnapshot (right.snapshot tiers) leftContext).entries.get? key =
        (right.mergeSnapshot (left.snapshot tiers) rightContext).entries.get? key ↔
      ∀ own peer, left.entries.get? key = some own → right.entries.get? key = some peer →
        StaysCurrent left right key → own = peer := by
    intro key
    rw [leftVersioned.merged_entries, rightVersioned.merged_entries, find?_snapshot rightKeyed,
      find?_snapshot leftKeyed]
    simp only [same.current_iff, ← current_exchange_iff tiers leftContext]
    split <;> cases left.entries.get? key <;> cases right.entries.get? key <;> simp_all
  constructor
  · intro converged key
    exact (exchanged key).mp (by rw [converged.entries])
  · intro agreeing
    have entries := ext_get? fun key => (exchanged key).mpr (agreeing key)
    refine ⟨same.1.symm, same.2.symm, entries, ?_⟩
    rw [stateHash, stateHash, entries, same.1, same.2]

/-- After an exchange of snapshots two caches are the same exactly if what both held under a key
whose version neither of them has revoked or replaced was the same entry. -/
theorem merge_converges_iff (tiers : HashTiers) (leftCalls rightCalls : List CacheCall)
    (leftContext rightContext : CacheContext) :
    let left := final (perform tiers) {} leftCalls
    let right := final (perform tiers) {} rightCalls
    Converged tiers (left.mergeSnapshot (right.snapshot tiers) leftContext)
        (right.mergeSnapshot (left.snapshot tiers) rightContext) ↔
      ∀ key own peer, left.entries.get? key = some own → right.entries.get? key = some peer →
        StaysCurrent left right key → own = peer := by
  have left := sound_final tiers leftCalls
  have right := sound_final tiers rightCalls
  exact converged_iff tiers leftContext rightContext left.1 right.1 left.2 right.2

/-- The same module is inserted into both caches, into one of them after another module. -/
theorem merge_keeps_own :
    let tiers := Authority.Hashes.polynomial.toHashTiers
    let context : CacheContext := ⟨"t", "d", "p"⟩
    let left := final (perform tiers) {} [.insert (sampleRequest 7 0) context]
    let right := final (perform tiers) {} [.insert { sampleRequest 7 0 with moduleId := "mod:b" } context,
      .insert (sampleRequest 7 0) context]
    let leftAfter := left.mergeSnapshot (right.snapshot tiers) context
    let rightAfter := right.mergeSnapshot (left.snapshot tiers) context
    let key : ModuleCacheKey := ⟨"mod:a", ⟨.zero, 7, 0⟩⟩
    (leftAfter.entries.get? key).map (·.insertedSeq) = some 0 ∧
      (rightAfter.entries.get? key).map (·.insertedSeq) = some 1 := by
  decide +kernel

end ModuleCache

end FrankenEngine.Modules
