import FrankenEngine.Modules.SpecifierPathProperties
import Mathlib.Data.List.TakeWhile

/-!
# Containment of module resolution

Registration admits only normalised workspace paths under the root, so that
whatever is resolved in the workspace lies under the root. A relative specifier
of an external module is checked against the package root of the referrer; here
is for which referrers what is then probed has the same package root.
-/

set_option autoImplicit false

namespace FrankenEngine.Modules

open Library Path Chars List

namespace DeterministicModuleResolver

/-!
## The registry
-/

inductive RegistryCall where
  | builtin (specifier : Specifier) (definition : ModuleDefinition)
  | workspace (path : Specifier) (definition : ModuleDefinition)
  | external (specifier : Specifier) (definition : ModuleDefinition)

def register (resolver : DeterministicModuleResolver) :
    RegistryCall → DeterministicModuleResolver × Except RegistryError Unit
  | .builtin specifier definition => resolver.registerBuiltin specifier definition
  | .workspace path definition => resolver.registerWorkspaceModule path definition
  | .external specifier definition => resolver.registerExternalModule specifier definition

def built (rootDir : Specifier) (calls : List RegistryCall) : DeterministicModuleResolver :=
  calls.foldl (fun resolver call => (resolver.register call).1) (new rootDir)

/-- The path is the root or continues it after a slash, from `/` any absolute path, and has no
segment that leads up. -/
structure Inside (rootDir path : Specifier) : Prop where
  under : if rootDir = "/".toList then startsWithSlash path = true else Path.Under rootDir path
  noneUp : ∀ segment ∈ Chars.split '/' path, segment ≠ "..".toList

theorem noneUp_normalizeAbsolutePath (path : Specifier) :
    ∀ segment ∈ split '/' (normalizeAbsolutePath path), segment ≠ "..".toList := by
  have plain := plain_segments path
  rw [normalizeAbsolutePath_eq]
  intro segment member
  rw [split, if_pos rfl] at member
  cases member with
  | head => decide
  | tail _ later =>
    by_cases none : segments path = []
    · rw [none] at later
      rw [mem_singleton.mp later]
      decide
    · rw [split_join none fun other listed => (plain other listed).free] at later
      exact (plain segment later).ne_dots

/-- What registration keeps: each module has the kind of its registry, workspace modules are inside
of the root, and external modules have a name. -/
structure Sound (resolver : DeterministicModuleResolver) : Prop where
  builtin : ∀ specifier record, resolver.builtins.get? specifier = some record →
    record.provenance.kind = .builtIn
  workspace : ∀ path record, resolver.workspaceModules.get? path = some record →
    record.provenance.kind = .workspace ∧ Inside resolver.rootDir path
  external : ∀ specifier record, resolver.externalModules.get? specifier = some record →
    record.provenance.kind = .externalRegistry ∧ Chars.trim specifier ≠ []

variable {resolver : DeterministicModuleResolver}

theorem sound_new (rootDir : Specifier) : (new rootDir).Sound := by
  refine ⟨?_, ?_, ?_⟩ <;>
    · intro specifier record found
      cases found

variable {modules : OrderedMap Specifier ModuleRecord}

theorem Sound.register (sound : resolver.Sound) (call : RegistryCall) :
    (resolver.register call).1.Sound := by
  cases call with
  | builtin specifier definition =>
    simp only [DeterministicModuleResolver.register, registerBuiltin]
    split
    · exact sound
    · exact ⟨OrderedMap.forall_get?_insert sound.builtin rfl, sound.workspace, sound.external⟩
  | workspace path definition =>
    simp only [DeterministicModuleResolver.register, registerWorkspaceModule]
    split
    · exact sound
    · split
      · exact sound
      next inside =>
        have within : isWithinWorkspaceRoot resolver.rootDir (resolver.absolutePath path) =
            true := by simpa using inside
        have noneUp : ∀ segment ∈ split '/' (resolver.absolutePath path),
            segment ≠ "..".toList := by
          unfold absolutePath
          split
          · exact noneUp_normalizeAbsolutePath _
          · exact noneUp_normalizeAbsolutePath _
        refine ⟨sound.builtin, OrderedMap.forall_get?_insert sound.workspace ⟨rfl, ?_, noneUp⟩,
          sound.external⟩
        exact isWithinWorkspaceRoot_iff.mp within
  | external specifier definition =>
    simp only [DeterministicModuleResolver.register, registerExternalModule]
    split
    · exact sound
    next named =>
      refine ⟨sound.builtin, sound.workspace,
        OrderedMap.forall_get?_insert sound.external ⟨rfl, ?_⟩⟩
      simpa using named

theorem sound_built (rootDir : Specifier) (calls : List RegistryCall) :
    (built rootDir calls).Sound := by
  exact foldlRecOn calls _ (sound_new rootDir) fun _ sound call _ => sound.register call

/-!
## What is resolved
-/

structure FirstFound (modules : OrderedMap Specifier ModuleRecord) (candidates : List Specifier)
    (found : Specifier × ModuleRecord) : Prop where
  registered : modules.get? found.1 = some found.2
  first : ∃ before after, candidates = before ++ found.1 :: after ∧
    ∀ earlier ∈ before, modules.get? earlier = none

variable {found : Specifier × ModuleRecord} {tail : List Specifier}

theorem firstFound_probe {candidates : List Specifier}
    (probed : (probe modules candidates).2 = some found) : FirstFound modules candidates found := by
  induction candidates with
  | nil => cases probed
  | cons candidate rest ih =>
    unfold probe at probed
    cases registered : modules.get? candidate with
    | some record =>
      rw [registered] at probed
      cases probed
      exact ⟨registered, [], rest, rfl, by simp⟩
    | none =>
      rw [registered] at probed
      obtain ⟨known, before, after, rfl, missed⟩ := ih probed
      refine ⟨known, candidate :: before, after, rfl, ?_⟩
      intro earlier member
      cases member with
      | head => exact registered
      | tail _ later => exact missed earlier later

variable {request : ModuleRequest}

theorem foundOr_eq_ok {context : ResolutionContext} {message : String}
    {lookup : List Specifier × Option (Specifier × ModuleRecord)} {candidate : Candidate}
    (resolved : foundOr request context message lookup = .ok candidate) :
    lookup.2 = some (candidate.1, candidate.2.1) := by
  unfold foundOr at resolved
  split at resolved
  next found =>
    cases resolved
    exact found
  next => cases resolved

def Registered (resolver : DeterministicModuleResolver) (specifier : Specifier)
    (record : ModuleRecord) : Prop :=
  resolver.builtins.get? specifier = some record ∨
    resolver.workspaceModules.get? specifier = some record ∨
    resolver.externalModules.get? specifier = some record

section Resolution

variable {request : ModuleRequest} {context : ResolutionContext} {candidate : Candidate}

theorem registered_of_workspace {message : String} {base : Specifier} {allowProbes : Bool}
    {probes : List Specifier}
    (found : foundOr request context message
      (probes, (resolver.lookupWorkspaceCandidate base request.style allowProbes).2) =
        .ok candidate) :
    resolver.Registered candidate.1 candidate.2.1 := by
  have looked := foundOr_eq_ok found
  exact .inr (.inl (firstFound_probe looked).registered)

variable {specifier : Specifier}

theorem resolveFromExternal_eq_ok {referrer externalReferrer : Specifier}
    (resolved : resolver.resolveFromExternal request context specifier referrer externalReferrer =
      .ok candidate) :
    ∃ base, base = normalizeExternalSpecifierPath
        (joinPaths (externalReferrerDirectory externalReferrer) specifier) ∧
      Under (externalPackageRoot externalReferrer) base ∧
      ∃ allowProbes : Bool, FirstFound resolver.externalModules
        (if allowProbes then candidatePaths base request.style else [base])
        (candidate.1, candidate.2.1) := by
  unfold resolveFromExternal at resolved
  dsimp only at resolved
  split at resolved
  · cases resolved
  next within =>
    refine ⟨_, rfl, ?_, _, firstFound_probe (foundOr_eq_ok resolved)⟩
    exact isWithinExternalPackageRoot_iff.mp (by simpa using within)

theorem registered_resolveFromWorkspace {referrer : Specifier}
    (resolved : resolver.resolveFromWorkspace request context specifier referrer = .ok candidate) :
    resolver.Registered candidate.1 candidate.2.1 := by
  unfold resolveFromWorkspace at resolved
  cases directory : resolver.referrerDirectory referrer context with
  | error error =>
    rw [directory] at resolved
    cases resolved
  | ok baseDir =>
    rw [directory] at resolved
    dsimp only at resolved
    split at resolved
    · cases resolved
    · exact registered_of_workspace resolved

theorem registered_resolveAbsolute
    (resolved : resolver.resolveAbsolute request context specifier = .ok candidate) :
    resolver.Registered candidate.1 candidate.2.1 := by
  unfold resolveAbsolute at resolved
  dsimp only at resolved
  split at resolved
  · cases resolved
  · exact registered_of_workspace resolved

theorem registered_resolveBare
    (resolved : resolver.resolveBare request context specifier = .ok candidate) :
    resolver.Registered candidate.1 candidate.2.1 := by
  unfold resolveBare at resolved
  dsimp only at resolved
  split at resolved
  next found =>
    cases resolved
    exact .inr (.inr (firstFound_probe found).registered)
  next =>
    split at resolved
    · cases resolved
    · exact registered_of_workspace resolved

theorem registered_resolveCandidate
    (resolved : resolver.resolveCandidate request context = .ok candidate) :
    resolver.Registered candidate.1 candidate.2.1 := by
  unfold resolveCandidate at resolved
  dsimp only at resolved
  split at resolved
  · cases resolved
  · split at resolved
    next found =>
      cases resolved
      exact .inl found
    next =>
      split at resolved
      · split at resolved
        · cases resolved
        · split at resolved
          · obtain ⟨_, _, _, _, found⟩ := resolveFromExternal_eq_ok resolved
            exact .inr (.inr found.registered)
          · exact registered_resolveFromWorkspace resolved
      · split at resolved
        · exact registered_resolveAbsolute resolved
        · exact registered_resolveBare resolved

theorem resolveCandidate_of_resolve {tiers : HashTiers} {policy : ModulePolicyHook}
    {outcome : ResolutionOutcome}
    (resolved : resolver.resolve tiers request context policy = .ok outcome) :
    resolver.resolveCandidate request context = .ok (outcome.module.canonicalSpecifier,
      outcome.module.record, outcome.module.probeSequence) := by
  obtain ⟨⟨canonical, record, probes⟩, found, rest⟩ := bind_ok resolved
  dsimp only at rest
  split at rest
  · cases rest
  · obtain ⟨_, _, returned⟩ := bind_ok rest
    cases returned
    exact found

end Resolution

/-!
## The workspace
-/

theorem inside_of_resolve (sound : resolver.Sound) {tiers : HashTiers}
    {context : ResolutionContext} {policy : ModulePolicyHook} {outcome : ResolutionOutcome}
    (resolved : resolver.resolve tiers request context policy = .ok outcome)
    (isWorkspace : outcome.module.record.provenance.kind = .workspace) :
    Inside resolver.rootDir outcome.module.canonicalSpecifier := by
  obtain builtin | workspace | external :=
    registered_resolveCandidate (resolveCandidate_of_resolve resolved)
  · cases (sound.builtin _ _ builtin).symm.trans isWorkspace
  · exact (sound.workspace _ _ workspace).2
  · cases (sound.external _ _ external).1.symm.trans isWorkspace

/-!
## External packages
-/

/-- No builtin has a relative or absolute name. -/
def NoShadowing (resolver : DeterministicModuleResolver) : Prop :=
  ∀ specifier ∈ resolver.builtins.keys,
    isRelativeSpecifier specifier = false ∧ startsWithSlash specifier = false

theorem dropPrefix_append (front rest : Specifier) :
    (front ++ rest).dropPrefix? front = some rest :=
  dropPrefix?_eq_some_iff.mpr ⟨front, rfl, beq_self_eq_true front⟩

theorem resolveCandidate_external {context : ResolutionContext} {referrer : Specifier}
    (noShadowing : resolver.NoShadowing)
    (relative : isRelativeSpecifier (trim request.specifier) = true)
    (refers : request.referrer = some ("external:".toList ++ referrer)) :
    resolver.resolveCandidate request context =
      resolver.resolveFromExternal request context (trim request.specifier)
        ("external:".toList ++ referrer) referrer := by
  have nonempty : (trim request.specifier).isEmpty = false := by
    cases chars : trim request.specifier with
    | nil =>
      rw [chars] at relative
      cases relative
    | cons => rfl
  have noBuiltin : resolver.builtins.get? (trim request.specifier) = none := by
    rw [← Option.not_isSome_iff_eq_none, ← OrderedMap.mem_keys_iff]
    intro shadowed
    cases relative.symm.trans (noShadowing _ shadowed).1
  unfold resolveCandidate
  simp only [nonempty, Bool.false_eq_true, if_false, noBuiltin, relative, if_true, refers,
    dropPrefix_append]

theorem candidatePaths_nil (style : ImportStyle) : ∃ extension ∈ moduleExtensions, ∃ rest,
      candidatePaths [] style = [] :: extension :: ".js".toList :: rest := by
  cases style with
  | «import» => exact ⟨".mjs".toList, by decide, _, rfl⟩
  | require => exact ⟨".cjs".toList, by decide, _, rfl⟩

theorem externalPackageRoot_extension {extension : Specifier}
    (isExtension : extension ∈ moduleExtensions) : externalPackageRoot extension = [] := by
  have all : ∀ extension ∈ moduleExtensions, externalPackageRoot extension = [] := by
    decide +kernel
  exact all extension isExtension

theorem eq_nil_of_under_nil {segments : List Specifier}
    (plain : ∀ segment ∈ segments, Plain segment) (within : Under [] (join segments)) :
    join segments = [] := by
  obtain same | ⟨rest, same⟩ := within
  · exact same
  · have kept := dropWhile_slash_join plain
    rw [same, nil_append, dropWhile_cons_of_pos (by simp)] at kept
    have shorter := (dropWhile_suffix (fun char => decide (char = '/')) (l := rest)).length_le
    rw [kept, length_cons] at shorter
    omega

/-- What is found for the empty base beside `.js` has the empty package root. -/
theorem externalPackageRoot_beside_js (sound : resolver.Sound)
    (registered : (resolver.externalModules.get? ".js".toList).isSome) {style : ImportStyle}
    {allowProbes : Bool} (first : FirstFound resolver.externalModules
      (if allowProbes then candidatePaths [] style else [[]]) found) :
    externalPackageRoot found.1 = [] := by
  have named := (sound.external _ _ first.registered).2
  have notNil : found.1 ≠ [] := by
    intro none
    rw [none] at named
    exact named rfl
  obtain ⟨before, after, whole, missed⟩ := first.first
  cases allowProbes with
  | false =>
    have listed : found.1 ∈ [([] : Specifier)] := by
      have member : found.1 ∈ before ++ found.1 :: after := by simp
      rw [← whole] at member
      exact member
    exact absurd (mem_singleton.mp listed) notNil
  | true =>
    obtain ⟨extension, isExtension, rest, candidates⟩ := candidatePaths_nil style
    rw [if_pos rfl, candidates] at whole
    -- the found one is among the first three, as the third is registered
    match before, whole, missed with
    | [], whole, _ => exact absurd (cons.inj whole).1.symm notNil
    | [_], whole, _ =>
      have same := (cons.inj (cons.inj whole).2).1
      rw [← same]
      exact externalPackageRoot_extension isExtension
    | [_, _], whole, _ =>
      have same := (cons.inj (cons.inj (cons.inj whole).2).2).1
      rw [← same]
      exact externalPackageRoot_extension (by decide)
    | _ :: _ :: third :: _, whole, missed =>
      have same := (cons.inj (cons.inj (cons.inj whole).2).2).1
      rw [same, missed third (by simp)] at registered
      cases registered

theorem packageRoot_of_resolve (sound : resolver.Sound) (noShadowing : resolver.NoShadowing)
    {tiers : HashTiers} {context : ResolutionContext} {policy : ModulePolicyHook}
    {outcome : ResolutionOutcome} {referrer : Specifier}
    (registered : (resolver.externalModules.get? referrer).isSome)
    (contained : Contained referrer)
    (relative : isRelativeSpecifier (trim request.specifier) = true)
    (refers : request.referrer = some ("external:".toList ++ referrer))
    (resolved : resolver.resolve tiers request context policy = .ok outcome) :
    outcome.module.record.provenance.kind = .externalRegistry ∧
      externalPackageRoot outcome.module.canonicalSpecifier = externalPackageRoot referrer := by
  have candidate := resolveCandidate_of_resolve resolved
  rw [resolveCandidate_external noShadowing relative refers] at candidate
  obtain ⟨base, normalized, within, allowProbes, first⟩ := resolveFromExternal_eq_ok candidate
  refine ⟨(sound.external _ _ first.registered).1, ?_⟩
  rw [normalizeExternalSpecifierPath_eq] at normalized
  have plain := plain_segments
    (joinPaths (externalReferrerDirectory referrer) (trim request.specifier))
  by_cases empty : externalPackageRoot referrer = []
  · have isJs := contained.some.resolve_left (fun some => some empty)
    rw [normalized, empty] at within
    rw [normalized, eq_nil_of_under_nil plain within] at first
    rw [isJs] at registered
    have beside := externalPackageRoot_beside_js sound registered first
    rw [empty]
    exact beside
  · obtain ⟨before, after, whole, _⟩ := first.first
    have listed : outcome.module.canonicalSpecifier ∈
        (if allowProbes then candidatePaths base request.style else [base]) := by
      rw [whole]
      simp
    obtain ⟨suffix, isSuffix, same⟩ : ∃ suffix, ProbeSuffix suffix ∧
        outcome.module.canonicalSpecifier = base ++ suffix := by
      split at listed
      · exact exists_probeSuffix listed
      · exact ⟨[], .nothing, by rw [mem_singleton.mp listed, append_nil]⟩
    rw [same, normalized]
    exact contained.externalPackageRoot_probe empty plain (normalized ▸ within) isSuffix

/-!
## Referrers that are not contained
-/

def climb (steps : Nat) (tail : List Specifier) : Specifier :=
  Path.join (".".toList :: (List.replicate steps "..".toList ++ tail))

theorem climb_cases (steps : Nat) (tail : List Specifier) :
    climb steps tail = ".".toList ∨ ∃ rest, climb steps tail = "./".toList ++ rest := by
  unfold climb
  by_cases none : replicate steps "..".toList ++ tail = []
  · rw [none]
    exact .inl rfl
  · exact .inr ⟨_, join_cons _ none⟩

theorem foldl_read_up (stack inner : List Specifier) :
    (replicate inner.length "..".toList).foldl read (stack ++ inner) = stack := by
  induction inner using reverseRecOn with
  | nil => simp
  | append_singleton inner last ih =>
    rw [length_append, length_singleton, replicate_succ, foldl_cons, ← append_assoc]
    have up : Path.read (stack ++ inner ++ [last]) "..".toList = stack ++ inner := by
      simp [Path.read]
    rw [up, ih]

theorem segments_climb {base : Specifier} {stack inner : List Specifier}
    (directory : segments base = stack ++ inner) (plain : ∀ segment ∈ tail, Plain segment) :
    segments (joinPaths base (climb inner.length tail)) = stack ++ tail := by
  have free : ∀ segment ∈ ".".toList :: (replicate inner.length "..".toList ++ tail),
      '/' ∉ segment := by
    intro segment member
    simp only [mem_cons, mem_append, mem_replicate] at member
    obtain rfl | ⟨_, rfl⟩ | listed := member
    · decide
    · decide
    · exact (plain segment listed).free
  have relative : startsWithSlash (climb inner.length tail) = false := by
    obtain single | ⟨rest, more⟩ := climb_cases inner.length tail
    · rw [single]
      rfl
    · rw [more]
      rfl
  rw [segments_joinPaths relative, climb, split_join (by simp) free, directory,
    foldl_cons, foldl_append]
  rw [show Path.read (stack ++ inner) ".".toList = stack ++ inner from by simp [Path.read],
    foldl_read_up, foldl_read_plain plain]

theorem isRelativeSpecifier_climb (steps : Nat) (tail : List Specifier) :
    isRelativeSpecifier (climb steps tail) = true := by
  obtain single | ⟨rest, more⟩ := climb_cases steps tail
  · rw [single]
    decide
  · simp [more, isRelativeSpecifier]

theorem dropWhile_eq_self {text : List Char} {first : Char} (starts : text.head? = some first)
    (visible : isWhitespace first = false) : text.dropWhile isWhitespace = text := by
  cases text with
  | nil => rfl
  | cons char rest =>
    cases starts
    exact dropWhile_cons_of_neg (by simp [visible])

theorem trim_eq_self {text : List Char} (first last : Char) (starts : text.head? = some first)
    (firstVisible : isWhitespace first = false) (ends : text.getLast? = some last)
    (lastVisible : isWhitespace last = false) : trim text = text := by
  rw [← head?_reverse] at ends
  rw [trim, dropWhile_eq_self starts firstVisible, dropWhile_eq_self ends lastVisible,
    reverse_reverse]

theorem trim_climb {steps : Nat} (short : tail = [] ∨ tail = ["x".toList]) :
    trim (climb steps tail) = climb steps tail := by
  have starts : (climb steps tail).head? = some '.' := by
    obtain single | ⟨rest, more⟩ := climb_cases steps tail
    · rw [single]
      rfl
    · rw [more]
      rfl
  have ending : ∀ (front : List Specifier) (last : Specifier) (char : Char),
      last.getLast? = some char → (join (front ++ [last])).getLast? = some char := by
    intro front last char ends
    have parted := join_append_last front [] last
    rw [nil_append] at parted
    rw [← parted, getLast?_append, ends, Option.some_or]
  obtain rfl | rfl := short
  · refine trim_eq_self '.' '.' starts (by decide) ?_ (by decide)
    cases steps with
    | zero => rfl
    | succ steps =>
      rw [climb, append_nil, replicate_succ', ← cons_append]
      exact ending _ _ _ rfl
  · refine trim_eq_self '.' 'x' starts (by decide) ?_ (by decide)
    rw [climb, ← cons_append]
    exact ending _ _ _ rfl

def sampleDefinition : ModuleDefinition where
  syntaxKind := .commonJs
  source := ""

def pairOf (referrer other : Specifier) : DeterministicModuleResolver :=
  built "/".toList [.external referrer sampleDefinition, .external other sampleDefinition]

def sampleRequest (referrer specifier : Specifier) (style : ImportStyle) : ModuleRequest where
  specifier
  referrer := some ("external:".toList ++ referrer)
  style
  compatibilityMode := .bunCompat

theorem noShadowing_pairOf (referrer other : Specifier) : (pairOf referrer other).NoShadowing := by
  have none : (pairOf referrer other).builtins = .empty := by
    simp only [pairOf, built, foldl_cons, foldl_nil, register, registerExternalModule]
    split <;> split <;> rfl
  unfold NoShadowing
  rw [none]
  intro specifier member
  cases member

theorem isSome_get?_registerExternalModule {added : Specifier} (named : trim added ≠ [])
    (definition : ModuleDefinition) (specifier : Specifier) :
    ((resolver.registerExternalModule added definition).1.externalModules.get? specifier).isSome ↔
      specifier = added ∨ (resolver.externalModules.get? specifier).isSome := by
  rw [registerExternalModule, if_neg (by simpa using named)]
  rw [OrderedMap.get?_insert]
  by_cases same : specifier = added
  · simp [same]
  · rw [if_neg same]
    simp [same]

theorem isSome_get?_pairOf {referrer other : Specifier} (named : trim referrer ≠ [])
    (otherNamed : trim other ≠ []) (specifier : Specifier) :
    ((pairOf referrer other).externalModules.get? specifier).isSome ↔
      specifier = referrer ∨ specifier = other := by
  have second := @isSome_get?_registerExternalModule
    ((new "/".toList).registerExternalModule referrer sampleDefinition).1 other otherNamed
    sampleDefinition specifier
  rw [isSome_get?_registerExternalModule named] at second
  refine second.trans ?_
  have none : ((new "/".toList).externalModules.get? specifier).isSome = false := rfl
  rw [none]
  simp only [Bool.false_eq_true, or_false]
  exact or_comm

/-- Whatever is resolved for a relative specifier of the referrer is an external module with the
same package root, in every registry. -/
def StaysInPackage (tiers : HashTiers) (referrer : Specifier) : Prop :=
  ∀ rootDir calls request context policy outcome,
    (built rootDir calls).NoShadowing →
    ((built rootDir calls).externalModules.get? referrer).isSome →
    isRelativeSpecifier (Chars.trim request.specifier) = true →
    request.referrer = some ("external:".toList ++ referrer) →
    (built rootDir calls).resolve tiers request context policy = .ok outcome →
    outcome.module.record.provenance.kind = .externalRegistry ∧
      externalPackageRoot outcome.module.canonicalSpecifier = externalPackageRoot referrer

section Escapes

variable {tiers : HashTiers} {referrer : Specifier}

section Pair

variable {other : Specifier} {stack inner : List Specifier} {style : ImportStyle}
  (directory : segments (externalReferrerDirectory referrer) = stack ++ inner)
  (short : tail = [] ∨ tail = ["x".toList])
  (within : Under (externalPackageRoot referrer) (join (stack ++ tail)))

include directory short within

theorem exists_resolve_pairOf (context : ResolutionContext)
    (probed : (probe (pairOf referrer other).externalModules
      (candidatePaths (join (stack ++ tail)) style)).2 = some found) :
    ∃ outcome, (pairOf referrer other).resolve tiers
        (sampleRequest referrer (climb inner.length tail) style) context allowAllPolicy =
          .ok outcome ∧
      outcome.module.canonicalSpecifier = found.1 := by
  have plain : ∀ segment ∈ tail, Plain segment := by
    obtain rfl | rfl := short
    · simp
    · intro segment member
      rw [mem_singleton.mp member]
      exact ⟨by decide, by decide, by decide, by decide⟩
  have trimmed : trim (sampleRequest referrer (climb inner.length tail) style).specifier =
      climb inner.length tail := trim_climb short
  have base : normalizeExternalSpecifierPath
      (joinPaths (externalReferrerDirectory referrer) (climb inner.length tail)) =
        join (stack ++ tail) := by
    rw [normalizeExternalSpecifierPath_eq, segments_climb directory plain]
  have relative : isRelativeSpecifier
      (trim (sampleRequest referrer (climb inner.length tail) style).specifier) = true := by
    rw [trimmed]
    exact isRelativeSpecifier_climb _ _
  have allowed : (pairOf referrer other).allowRelativeImportProbes
      (sampleRequest referrer (climb inner.length tail) style) ("external:".toList ++ referrer) =
        true := by
    simp [allowRelativeImportProbes, sampleRequest]
  have ownStyle : (sampleRequest referrer (climb inner.length tail) style).style = style := rfl
  have candidate : (pairOf referrer other).resolveCandidate
      (sampleRequest referrer (climb inner.length tail) style) context =
        .ok (found.1, found.2, (probe (pairOf referrer other).externalModules
          (candidatePaths (join (stack ++ tail)) style)).1) := by
    rw [resolveCandidate_external (noShadowing_pairOf referrer other) relative rfl, trimmed]
    unfold resolveFromExternal
    dsimp only
    rw [base, isWithinExternalPackageRoot_iff.mpr within, allowed, lookupExternalCandidate,
      lookupCandidate, if_pos rfl, foundOr, ownStyle, probed]
    rfl
  unfold resolve
  rw [candidate, ok_bind]
  dsimp only
  rw [if_neg (by simp [sampleRequest])]
  exact ⟨_, rfl, rfl⟩

theorem StaysInPackage.found_pairOf (stays : StaysInPackage tiers referrer)
    (named : trim referrer ≠ []) (otherNamed : trim other ≠ [])
    (probed : (probe (pairOf referrer other).externalModules
      (candidatePaths (join (stack ++ tail)) style)).2 = some found) :
    externalPackageRoot found.1 = externalPackageRoot referrer := by
  obtain ⟨outcome, resolved, same⟩ :=
    exists_resolve_pairOf directory short within ⟨"", "", ""⟩ probed
  have relative : isRelativeSpecifier
      (trim (sampleRequest referrer (climb inner.length tail) style).specifier) = true := by
    rw [sampleRequest, trim_climb short]
    exact isRelativeSpecifier_climb _ _
  rw [← same]
  exact (stays _ _ _ _ _ _ (noShadowing_pairOf referrer other)
    ((isSome_get?_pairOf named otherNamed referrer).mpr (.inl rfl)) relative rfl resolved).2

theorem StaysInPackage.base_pairOf (stays : StaysInPackage tiers referrer)
    (named : trim referrer ≠ []) (baseNamed : trim (join (stack ++ tail)) ≠ []) :
    externalPackageRoot (join (stack ++ tail)) = externalPackageRoot referrer := by
  have registered := (isSome_get?_pairOf named baseNamed (join (stack ++ tail))).mpr (.inr rfl)
  obtain ⟨record, found⟩ := Option.isSome_iff_exists.mp registered
  obtain ⟨rest, candidates, _⟩ := candidatePaths_eq_cons (join (stack ++ tail)) .require
  have probed : (probe (pairOf referrer (join (stack ++ tail))).externalModules
      (candidatePaths (join (stack ++ tail)) .require)).2 =
        some (join (stack ++ tail), record) := by
    rw [candidates, probe, found]
  have same := stays.found_pairOf directory short within named baseNamed probed
  exact same

end Pair

theorem trim_ne_nil {text : List Char} (char : Char) (member : char ∈ text)
    (visible : isWhitespace char = false) : trim text ≠ [] := by
  intro blank
  rw [trim, reverse_eq_nil_iff, dropWhile_eq_nil_iff] at blank
  rw [← takeWhile_append_dropWhile (p := isWhitespace) (l := text)] at member
  have space : isWhitespace char = true := by
    cases mem_append.mp member with
    | inl front => exact mem_takeWhile_imp front
    | inr rest => exact blank char (mem_reverse.mpr rest)
  cases space.symm.trans visible

def innerDirectories (referrer : Specifier) : List Specifier :=
  ((Path.segments referrer).drop (packageRootLen (Path.segments referrer))).dropLast

theorem plain_innerDirectories (referrer : Specifier) :
    ∀ segment ∈ innerDirectories referrer, Plain segment := by
  intro segment member
  exact plain_segments referrer segment
    (mem_of_mem_drop (dropLast_subset _ member))

theorem segments_externalReferrerDirectory
    (plain : ∀ segment ∈ packageOf (segments referrer), Plain segment) :
    segments (externalReferrerDirectory referrer) =
      packageOf (segments referrer) ++ innerDirectories referrer := by
  rw [externalReferrerDirectory_eq]
  refine segments_join fun segment member => ?_
  cases mem_append.mp member with
  | inl inPackage => exact plain segment inPackage
  | inr inner => exact plain_innerDirectories referrer segment inner

/-- A package root that is named like a module file resolves to itself, and loses its extension. -/
theorem StaysInPackage.not_module (stays : StaysInPackage tiers referrer)
    (named : trim referrer ≠ []) : isModuleFileName (externalPackageRoot referrer) = false := by
  by_contra isModule
  replace isModule := eq_true_of_ne_false isModule
  rw [externalPackageRoot_eq] at isModule
  have plain := plain_packageOf (plain_segments referrer) isModule
  have anySegment : segments referrer ≠ [] := by
    intro none
    rw [none] at isModule
    cases isModule
  have twice := packageOf_packageOf anySegment
  obtain ⟨extension, isExtension, isSuffix⟩ := isModuleFileName_iff.mp isModule
  have visible : trim (join (packageOf (segments referrer) ++ [])) ≠ [] := by
    have last : 's' ∈ extension := by
      have all : ∀ extension ∈ moduleExtensions, 's' ∈ extension := by decide
      exact all extension isExtension
    rw [append_nil]
    exact trim_ne_nil 's' (isSuffix.subset last) (by decide)
  have same := stays.base_pairOf (segments_externalReferrerDirectory plain) (.inl rfl)
    (by rw [externalPackageRoot_eq, append_nil]; exact .inl rfl) named visible
  rw [append_nil, externalPackageRoot_eq, externalPackageRoot_eq, segments_join plain,
    twice] at same
  -- the root with its extension dropped is shorter
  obtain ⟨front, last, parts⟩ :=
    (eq_nil_or_concat _).resolve_left (packageOf_ne_nil anySegment)
  rw [concat_eq_append] at parts
  rw [parts, isModuleFileName_join_append] at isModule
  obtain ⟨dropped, isDropped, whole⟩ := exists_stripModuleFileExtension isModule
  rw [parts, stripLast_append, stripped, isModule, if_pos rfl] at same
  have longer := join_append_last front (stripModuleFileExtension last) dropped
  rw [← whole, ← same] at longer
  have empty : dropped = [] := append_right_eq_self.mp longer
  rw [empty] at isDropped
  revert isDropped
  decide

/-- Below a lone scope every name is a package of its own. -/
theorem StaysInPackage.not_lone_scope (stays : StaysInPackage tiers referrer)
    (named : trim referrer ≠ []) :
    ¬ ((externalPackageRoot referrer).head? = some '@' ∧ '/' ∉ externalPackageRoot referrer) := by
  rintro ⟨isScope, free⟩
  have plain : Plain (externalPackageRoot referrer) := by
    refine ⟨?_, ?_, ?_, free⟩ <;>
      · intro same
        rw [same] at isScope
        cases isScope
  have root : packageOf (segments referrer) = [externalPackageRoot referrer] := by
    have anySegment : segments referrer ≠ [] := by
      intro none
      rw [externalPackageRoot_eq, none] at isScope
      cases isScope
    have pieces := split_join (packageOf_ne_nil anySegment) (packageOf_cases anySegment).1
    rw [← externalPackageRoot_eq, split_of_not_mem free] at pieces
    exact pieces.symm
  have pairPlain : ∀ segment ∈ [externalPackageRoot referrer, "x".toList],
      Plain segment := by
    intro segment member
    simp only [mem_cons, not_mem_nil, or_false] at member
    obtain rfl | rfl := member
    · exact plain
    · exact ⟨by decide, by decide, by decide, by decide⟩
  have below : join ([externalPackageRoot referrer] ++ ["x".toList]) =
      externalPackageRoot referrer ++ "/x".toList :=
    join_cons _ (by simp)
  have directory := @segments_externalReferrerDirectory referrer (by simpa [root] using plain)
  rw [root] at directory
  have same := stays.base_pairOf directory (.inr rfl)
    (by rw [below]; exact .inr ⟨"x".toList, rfl⟩) named
    (by rw [below]; exact trim_ne_nil 'x' (by simp) (by decide))
  have shape : Package [externalPackageRoot referrer, "x".toList] := .inScope isScope
  have own : externalPackageRoot (join [externalPackageRoot referrer, "x".toList]) =
      join [externalPackageRoot referrer, "x".toList] := by
    rw [externalPackageRoot_eq (join _), segments_join pairPlain, shape.packageOf_self]
    exact congrArg join (stripLast_append [externalPackageRoot referrer] "x".toList)
  rw [singleton_append] at same below
  rw [own, below] at same
  cases append_right_eq_self.mp same

theorem get?_pairOf_eq_none {other : Specifier} (named : trim referrer ≠ [])
    (otherNamed : trim other ≠ []) {specifier : Specifier} (notReferrer : specifier ≠ referrer)
    (notOther : specifier ≠ other) :
    (pairOf referrer other).externalModules.get? specifier = none := by
  rw [← Option.not_isSome_iff_eq_none, isSome_get?_pairOf named otherNamed, not_or]
  exact ⟨notReferrer, notOther⟩

/-- For an empty package root the directory of the referrer is below the root of all packages. -/
theorem segments_directory_of_empty (empty : externalPackageRoot referrer = []) :
    segments (externalReferrerDirectory referrer) = [] ++ innerDirectories referrer := by
  have inner := segments_join (plain_innerDirectories referrer)
  rw [externalPackageRoot_eq] at empty
  rw [externalReferrerDirectory_eq, nil_append]
  change segments (join (packageOf (segments referrer) ++ innerDirectories referrer)) = _
  cases root : packageOf (segments referrer) with
  | nil => exact inner
  | cons first rest =>
    rw [root] at empty
    cases rest with
    | cons => simp [join_cons] at empty
    | nil =>
      rw [join_singleton] at empty
      subst empty
      by_cases none : innerDirectories referrer = []
      · rw [none]
        rfl
      · rw [singleton_append, join_cons _ none, nil_append, segments_slash, inner]

/-- Under the empty package root an index file is found, unless `.js` is registered. -/
theorem StaysInPackage.not_empty (stays : StaysInPackage tiers referrer)
    (named : trim referrer ≠ []) : externalPackageRoot referrer ≠ [] ∨ referrer = ".js".toList := by
  by_contra neither
  rw [not_or, not_not] at neither
  obtain ⟨empty, notJs⟩ := neither
  have notNil : ([] : Specifier) ≠ referrer := by
    rintro rfl
    exact named rfl
  -- one of the two styles does not probe the referrer before the index file
  have probes : ∃ style other extension rest,
      candidatePaths [] style = [] :: extension :: ".js".toList :: other :: rest ∧
      extension ≠ referrer ∧ trim other ≠ [] ∧ other ≠ [] ∧ extension ≠ other ∧
      ".js".toList ≠ other ∧ externalPackageRoot other ≠ [] := by
    by_cases isCjs : ".cjs".toList = referrer
    · refine ⟨.import, "/index.mjs".toList, ".mjs".toList, _, rfl, ?_, by decide +kernel⟩
      rw [← isCjs]
      decide
    · exact ⟨.require, "/index.cjs".toList, ".cjs".toList, _, rfl, isCjs, by decide +kernel⟩
  obtain ⟨style, other, extension, rest, candidates, notExtension, otherNamed, otherNotNil,
    otherNotExtension, otherNotJs, otherRoot⟩ := probes
  have registered := (isSome_get?_pairOf named otherNamed other).mpr (.inr rfl)
  obtain ⟨record, found⟩ := Option.isSome_iff_exists.mp registered
  have probed : (probe (pairOf referrer other).externalModules
      (candidatePaths (join ([] ++ [])) style)).2 = some (other, record) := by
    rw [append_nil, join_nil, candidates, probe,
      get?_pairOf_eq_none named otherNamed notNil (Ne.symm otherNotNil)]
    rw [probe, get?_pairOf_eq_none named otherNamed notExtension otherNotExtension]
    rw [probe, get?_pairOf_eq_none named otherNamed (Ne.symm notJs) otherNotJs]
    rw [probe, found]
  have same := stays.found_pairOf (segments_directory_of_empty empty) (.inl rfl)
    (by rw [empty]; exact .inl rfl) named otherNamed probed
  exact otherRoot (same.trans empty)

theorem staysInPackage_iff (named : trim referrer ≠ []) :
    StaysInPackage tiers referrer ↔ Contained referrer := by
  constructor
  · intro stays
    exact ⟨stays.not_empty named, stays.not_module named, stays.not_lone_scope named⟩
  · intro contained rootDir calls request context policy outcome noShadowing registered relative
      refers resolved
    exact packageRoot_of_resolve (sound_built rootDir calls) noShadowing registered contained
      relative refers resolved

example : Contained "@scope/pkg/lib/a.mjs".toList :=
  ⟨by decide +kernel, by decide +kernel, by decide +kernel⟩

end Escapes

/-- Whatever is resolved in the workspace is inside of the root. For a referrer in an external
package, every relative specifier stays in the package exactly if the package root of the referrer
is contained. -/
theorem resolve_contained (tiers : HashTiers) :
    (∀ rootDir calls request context policy outcome,
      (built rootDir calls).resolve tiers request context policy = .ok outcome →
      outcome.module.record.provenance.kind = .workspace →
      Inside (built rootDir calls).rootDir outcome.module.canonicalSpecifier) ∧
    ∀ referrer, Chars.trim referrer ≠ [] →
      (StaysInPackage tiers referrer ↔ Contained referrer) :=
  ⟨fun rootDir calls _ _ _ _ resolved isWorkspace =>
      inside_of_resolve (sound_built rootDir calls) resolved isWorkspace,
    fun _ named => staysInPackage_iff named⟩

/-- A package that is named like a module file, and a scope without a name: both resolve to
external modules with another package root. -/
theorem resolve_leaves_package :
    let tiers := Authority.Hashes.polynomial.toHashTiers
    let resolver := built "/app".toList [
      .external "chart.js/dist/x.mjs".toList sampleDefinition,
      .external "chart.js".toList sampleDefinition,
      .external "@s".toList sampleDefinition,
      .external "@s/x".toList sampleDefinition]
    let resolved (specifier referrer : String) : Option Specifier :=
      (resolver.resolve tiers
        { specifier := specifier.toList, referrer := some ("external:".toList ++ referrer.toList)
          style := .require } ⟨"t", "d", "p"⟩ allowAllPolicy).toOption.map
        (·.module.canonicalSpecifier)
    resolver.builtins.keys = [] ∧
      resolved ".." "chart.js/dist/x.mjs" = some "chart.js".toList ∧
      externalPackageRoot "chart.js/dist/x.mjs".toList = "chart.js".toList ∧
      externalPackageRoot "chart.js".toList = "chart".toList ∧
      resolved "./x" "@s" = some "@s/x".toList ∧
      externalPackageRoot "@s".toList = "@s".toList ∧
      externalPackageRoot "@s/x".toList = "@s/x".toList := by
  decide +kernel

end DeterministicModuleResolver

end FrankenEngine.Modules
