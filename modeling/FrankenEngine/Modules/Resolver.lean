import FrankenEngine.Authority.Token
import FrankenEngine.Library.Path

/-!
# The module resolver

The deterministic resolver of `module_resolver.rs`: paths of specifiers, which
are given by their characters, a registry of builtin, workspace and external
modules, and the resolution of a specifier for a referrer. A relative or absolute
specifier is normalised, checked against the root, and only then probed with
suffixes. The package root and the directory of an external referrer are found by
rules for scopes and file extensions.
-/

set_option autoImplicit false

namespace FrankenEngine.Modules

open Library Serde Authority

abbrev Specifier := List Char

inductive ImportStyle where
  | import
  | require
  deriving DecidableEq, Repr

def ImportStyle.asStr : ImportStyle → String
  | .import => "import"
  | .require => "require"

def startsWithSlash (path : Specifier) : Bool := path.head? = some '/'

def isRelativeSpecifier (specifier : Specifier) : Bool :=
  specifier = ".".toList || specifier = "..".toList || "./".toList.isPrefixOf specifier ||
    "../".toList.isPrefixOf specifier

def ImportStyle.suffixes : ImportStyle → List Specifier
  | .import => [".mjs".toList, ".js".toList, "/index.mjs".toList, "/index.js".toList]
  | .require => [".cjs".toList, ".js".toList, "/index.cjs".toList, "/index.js".toList]

def candidatePaths (base : Specifier) (style : ImportStyle) : List Specifier :=
  style.suffixes.foldl (fun candidates suffix =>
    if base ++ suffix ∈ candidates then candidates else candidates ++ [base ++ suffix]) [base]

def normalizeAbsolutePath (path : Specifier) : Specifier :=
  let stack := Path.segments path
  if stack.isEmpty then "/".toList else '/' :: Path.join stack

def isWithinWorkspaceRoot (rootDir path : Specifier) : Bool :=
  if rootDir = "/".toList then startsWithSlash path
  else path = rootDir || (path.dropPrefix? rootDir).any startsWithSlash

def joinPaths (base child : Specifier) : Specifier :=
  if startsWithSlash child then child
  else if base.getLast? = some '/' then base ++ child
  else base ++ '/' :: child

def parentDirectory (path : Specifier) : Specifier :=
  let normalized := normalizeAbsolutePath path
  if normalized = "/".toList then normalized
  else
    -- what stands before the last slash
    let parent := ((normalized.reverse.dropWhile (· ≠ '/')).drop 1).reverse
    if parent.isEmpty then "/".toList else parent

/-!
## External packages
-/

def normalizeExternalSpecifierPath (path : Specifier) : Specifier :=
  (normalizeAbsolutePath ('/' :: path)).dropWhile (· = '/')

def isModuleFileName (name : Specifier) : Bool :=
  ".mjs".toList.isSuffixOf name || ".cjs".toList.isSuffixOf name || ".js".toList.isSuffixOf name

def stripModuleFileExtension (name : Specifier) : Specifier :=
  (((name.dropSuffix? ".mjs".toList).or (name.dropSuffix? ".cjs".toList)).or
    (name.dropSuffix? ".js".toList)).getD name

def externalSegments (referrer : Specifier) : List Specifier :=
  (Chars.split '/' (normalizeExternalSpecifierPath referrer)).filter fun segment =>
    !segment.isEmpty

/-- A scope and a name, or a name alone. -/
def packageRootLen (segments : List Specifier) : Nat :=
  if (segments.headD []).head? = some '@' then min segments.length 2 else 1

def stripLast (packageRoot : List Specifier) : List Specifier :=
  match packageRoot.getLast? with
  | none => packageRoot
  | some last =>
    if isModuleFileName last then packageRoot.dropLast ++ [stripModuleFileExtension last]
    else packageRoot

def externalPackageRoot (referrer : Specifier) : Specifier :=
  let segments := externalSegments referrer
  if segments.isEmpty then normalizeExternalSpecifierPath referrer
  else
    let packageRoot := segments.take (packageRootLen segments)
    let subpath := segments.drop (packageRootLen segments)
    if subpath.isEmpty then Path.join (stripLast packageRoot) else Path.join packageRoot

def isWithinExternalPackageRoot (packageRoot path : Specifier) : Bool :=
  path = packageRoot || (path.dropPrefix? packageRoot).any startsWithSlash

def externalReferrerDirectory (referrer : Specifier) : Specifier :=
  let segments := externalSegments referrer
  if segments.isEmpty then normalizeExternalSpecifierPath referrer
  else
    let packageRoot := segments.take (packageRootLen segments)
    let subpath := segments.drop (packageRootLen segments)
    if subpath.isEmpty then Path.join (stripLast packageRoot)
    else if subpath.length = 1 then Path.join packageRoot
    else Path.join (packageRoot ++ subpath.dropLast)

/-!
## Requests and records
-/

inductive ModuleSyntax where
  | esModule
  | commonJs
  deriving DecidableEq, Repr

def ModuleSyntax.asStr : ModuleSyntax → String
  | .esModule => "esm"
  | .commonJs => "cjs"

inductive ModuleSourceKind where
  | builtIn
  | workspace
  | externalRegistry
  deriving DecidableEq, Repr

def ModuleSourceKind.asStr : ModuleSourceKind → String
  | .builtIn => "builtin"
  | .workspace => "workspace"
  | .externalRegistry => "external_registry"

structure ModuleProvenance where
  kind : ModuleSourceKind
  origin : String

structure ModuleDependency where
  specifier : Specifier
  style : ImportStyle

structure ModuleDefinition where
  syntaxKind : ModuleSyntax
  source : String
  dependencies : List ModuleDependency := []
  requiredCapabilities : OrderedSet RuntimeCapability := .empty
  provenanceOrigin : String := "<unspecified>"

structure ModuleRecord where
  id : Specifier
  syntaxKind : ModuleSyntax
  source : String
  dependencies : List ModuleDependency
  requiredCapabilities : OrderedSet RuntimeCapability
  provenance : ModuleProvenance

namespace ModuleRecord

def fromDefinition (id : Specifier) (sourceKind : ModuleSourceKind)
    (definition : ModuleDefinition) : ModuleRecord where
  id
  syntaxKind := definition.syntaxKind
  source := definition.source
  dependencies := definition.dependencies
  requiredCapabilities := definition.requiredCapabilities
  provenance := { kind := sourceKind, origin := definition.provenanceOrigin }

def canonicalValue (record : ModuleRecord) : CanonicalValue :=
  .map [
    ("id", .string (String.ofList record.id)),
    ("syntax", .string record.syntaxKind.asStr),
    ("source", .string record.source),
    ("dependencies", .array (record.dependencies.map fun dependency =>
      .map [("specifier", .string (String.ofList dependency.specifier)),
        ("style", .string dependency.style.asStr)])),
    ("required_capabilities", .array (record.requiredCapabilities.keys.map fun capability =>
      .string capability.display)),
    ("provenance", .map [("kind", .string record.provenance.kind.asStr),
      ("origin", .string record.provenance.origin)])]

def canonicalHash (tiers : HashTiers) (record : ModuleRecord) : ContentHash :=
  tiers.contentHash (encodeValue record.canonicalValue)

end ModuleRecord

inductive CompatibilityMode where
  | native
  | nodeCompat
  | bunCompat
  deriving DecidableEq, Repr

structure ModuleRequest where
  specifier : Specifier
  referrer : Option Specifier := none
  style : ImportStyle
  compatibilityMode : CompatibilityMode := .native

structure ResolutionContext where
  traceId : String
  decisionId : String
  policyId : String

structure ResolutionEvent where
  traceId : String
  decisionId : String
  policyId : String
  component : String
  event : String
  outcome : String
  errorCode : String

structure ResolvedModule where
  requestSpecifier : Specifier
  canonicalSpecifier : Specifier
  record : ModuleRecord
  contentHash : ContentHash
  probeSequence : List Specifier

structure ResolutionOutcome where
  module : ResolvedModule
  event : ResolutionEvent

inductive ResolutionErrorCode where
  | emptySpecifier
  | invalidReferrer
  | unsupportedSpecifier
  | moduleNotFound
  | policyDenied
  deriving DecidableEq, Repr

def ResolutionErrorCode.stableCode : ResolutionErrorCode → String
  | .emptySpecifier => "FE-MODRES-0001"
  | .invalidReferrer => "FE-MODRES-0002"
  | .unsupportedSpecifier => "FE-MODRES-0003"
  | .moduleNotFound => "FE-MODRES-0004"
  | .policyDenied => "FE-MODRES-0005"

def resolutionEvent (context : ResolutionContext) (outcome errorCode : String) :
    ResolutionEvent where
  traceId := context.traceId
  decisionId := context.decisionId
  policyId := context.policyId
  component := "module_resolver"
  event := "module_resolution"
  outcome
  errorCode

def successEvent (context : ResolutionContext) : ResolutionEvent :=
  resolutionEvent context "allow" "none"

def errorEvent (context : ResolutionContext) (code : ResolutionErrorCode) : ResolutionEvent :=
  resolutionEvent context "deny" code.stableCode

structure ResolutionError where
  code : ResolutionErrorCode
  message : String
  traceId : String
  decisionId : String
  policyId : String
  requestSpecifier : Specifier
  canonicalSpecifier : Option Specifier
  sourceKind : Option ModuleSourceKind
  probeSequence : List Specifier
  event : ResolutionEvent

namespace ResolutionError

def new (code : ResolutionErrorCode) (message : String) (context : ResolutionContext) :
    ResolutionError where
  code
  message
  traceId := context.traceId
  decisionId := context.decisionId
  policyId := context.policyId
  requestSpecifier := []
  canonicalSpecifier := none
  sourceKind := none
  probeSequence := []
  event := errorEvent context code

def withResolutionAttempt (error : ResolutionError) (requestSpecifier : Specifier)
    (canonicalSpecifier : Option Specifier) (sourceKind : Option ModuleSourceKind)
    (probeSequence : List Specifier) : ResolutionError :=
  { error with requestSpecifier, canonicalSpecifier, sourceKind, probeSequence }

end ResolutionError

inductive RegistryErrorCode where
  | emptyKey
  | outsideRoot
  deriving DecidableEq, Repr

structure RegistryError where
  code : RegistryErrorCode
  message : String
  deriving DecidableEq

namespace RegistryError

def emptyKey : RegistryError := ⟨.emptyKey, "module key must not be empty"⟩

def outsideRoot (rootDir path : Specifier) : RegistryError :=
  ⟨.outsideRoot, "workspace module path '" ++ String.ofList path ++
    "' escapes resolver root '" ++ String.ofList rootDir ++ "'"⟩

end RegistryError

/-!
## Policies
-/

abbrev ModulePolicyHook :=
  ModuleRequest → ModuleRecord → ResolutionContext → Except ResolutionError Unit

def allowAllPolicy : ModulePolicyHook := fun _ _ _ => .ok ()

/-!
## The registry
-/

structure DeterministicModuleResolver where
  rootDir : Specifier
  builtins : OrderedMap Specifier ModuleRecord := .empty
  workspaceModules : OrderedMap Specifier ModuleRecord := .empty
  externalModules : OrderedMap Specifier ModuleRecord := .empty

namespace DeterministicModuleResolver

def new (rootDir : Specifier) : DeterministicModuleResolver :=
  { rootDir := normalizeAbsolutePath rootDir }

variable (resolver : DeterministicModuleResolver)

def registerBuiltin (specifier : Specifier) (definition : ModuleDefinition) :
    DeterministicModuleResolver × Except RegistryError Unit :=
  if (Chars.trim specifier).isEmpty then (resolver, .error .emptyKey)
  else
    let record := ModuleRecord.fromDefinition ("builtin:".toList ++ specifier) .builtIn definition
    ({ resolver with builtins := resolver.builtins.insert specifier record }, .ok ())

def absolutePath (path : Specifier) : Specifier :=
  if startsWithSlash path then normalizeAbsolutePath path
  else normalizeAbsolutePath (joinPaths resolver.rootDir path)

def registerWorkspaceModule (path : Specifier) (definition : ModuleDefinition) :
    DeterministicModuleResolver × Except RegistryError Unit :=
  if (Chars.trim path).isEmpty then (resolver, .error .emptyKey)
  else
    let absolutePath := resolver.absolutePath path
    if !isWithinWorkspaceRoot resolver.rootDir absolutePath then
      (resolver, .error (.outsideRoot resolver.rootDir absolutePath))
    else
      let record := ModuleRecord.fromDefinition absolutePath .workspace definition
      ({ resolver with workspaceModules := resolver.workspaceModules.insert absolutePath record },
        .ok ())

def registerExternalModule (specifier : Specifier) (definition : ModuleDefinition) :
    DeterministicModuleResolver × Except RegistryError Unit :=
  if (Chars.trim specifier).isEmpty then (resolver, .error .emptyKey)
  else
    let record := ModuleRecord.fromDefinition ("external:".toList ++ specifier) .externalRegistry
      definition
    ({ resolver with externalModules := resolver.externalModules.insert specifier record }, .ok ())

/-!
## Resolution
-/

def probe (modules : OrderedMap Specifier ModuleRecord) :
    List Specifier → List Specifier × Option (Specifier × ModuleRecord)
  | [] => ([], none)
  | candidate :: rest =>
    match modules.get? candidate with
    | some record => ([candidate], some (candidate, record))
    | none =>
      let (probes, found) := probe modules rest
      (candidate :: probes, found)

def lookupCandidate (modules : OrderedMap Specifier ModuleRecord) (base : Specifier)
    (style : ImportStyle) (allowProbes : Bool) :
    List Specifier × Option (Specifier × ModuleRecord) :=
  probe modules (if allowProbes then candidatePaths base style else [base])

def lookupWorkspaceCandidate (resolvedBase : Specifier) (style : ImportStyle) (allowProbes : Bool) :
    List Specifier × Option (Specifier × ModuleRecord) :=
  lookupCandidate resolver.workspaceModules resolvedBase style allowProbes

def lookupExternalCandidate (specifier : Specifier) (style : ImportStyle) (allowProbes : Bool) :
    List Specifier × Option (Specifier × ModuleRecord) :=
  lookupCandidate resolver.externalModules specifier style allowProbes

def referrerModuleSyntax (referrer : Specifier) : Option ModuleSyntax :=
  match referrer.dropPrefix? "external:".toList with
  | some externalReferrer =>
    (resolver.externalModules.get? externalReferrer).map (·.syntaxKind)
  | none =>
    match referrer.dropPrefix? "builtin:".toList with
    | some builtinReferrer => (resolver.builtins.get? builtinReferrer).map (·.syntaxKind)
    | none =>
      (resolver.workspaceModules.get? (resolver.absolutePath referrer)).map (·.syntaxKind)

variable (request : ModuleRequest)

def allowRelativeImportProbes (referrer : Specifier) : Bool :=
  if request.style ≠ .import || request.compatibilityMode = .bunCompat then true
  else if "external:".toList.isPrefixOf referrer then
    resolver.referrerModuleSyntax referrer = some .commonJs
  else resolver.referrerModuleSyntax referrer ≠ some .esModule

def referrerDirectory (referrer : Specifier) (context : ResolutionContext) :
    Except ResolutionError Specifier :=
  if "builtin:".toList.isPrefixOf referrer then
    .error (.new .unsupportedSpecifier
      ("relative resolution from non-workspace referrer '" ++ String.ofList referrer ++
        "' is not supported") context)
  else
    let normalized := resolver.absolutePath referrer
    if !isWithinWorkspaceRoot resolver.rootDir normalized then
      .error (.new .invalidReferrer
        ("workspace referrer '" ++ String.ofList referrer ++ "' escapes resolver root '" ++
          String.ofList resolver.rootDir ++ "'") context)
    else .ok (parentDirectory normalized)

/-- What is resolved: the canonical specifier, its record and the probes. -/
abbrev Candidate := Specifier × ModuleRecord × List Specifier

variable (context : ResolutionContext)

def foundOr (message : String) (lookup : List Specifier × Option (Specifier × ModuleRecord)) :
    Except ResolutionError Candidate :=
  match lookup.2 with
  | some (resolved, record) => .ok (resolved, record, lookup.1)
  | none =>
    .error ((ResolutionError.new .moduleNotFound message context).withResolutionAttempt
      request.specifier none none lookup.1)

def escapes (message : String) (resolvedBase : Specifier) (sourceKind : ModuleSourceKind)
    (probes : List Specifier) : ResolutionError :=
  (ResolutionError.new .unsupportedSpecifier message context).withResolutionAttempt
    request.specifier (some resolvedBase) (some sourceKind) probes

/-- A relative specifier of an external module stays in its package. -/
def resolveFromExternal (specifier referrer externalReferrer : Specifier) :
    Except ResolutionError Candidate :=
  let packageRoot := externalPackageRoot externalReferrer
  let baseDir := externalReferrerDirectory externalReferrer
  let resolvedBase := normalizeExternalSpecifierPath (joinPaths baseDir specifier)
  if !isWithinExternalPackageRoot packageRoot resolvedBase then
    .error (escapes request context
      ("relative specifier '" ++ String.ofList request.specifier ++
        "' escapes external package root '" ++ String.ofList packageRoot ++ "'")
      resolvedBase .externalRegistry [])
  else
    foundOr request context
      ("unable to resolve relative specifier '" ++ String.ofList request.specifier ++
        "' from '" ++ String.ofList referrer ++ "'")
      (resolver.lookupExternalCandidate resolvedBase request.style
        (resolver.allowRelativeImportProbes request referrer))

/-- A relative specifier of a workspace module stays under the root. -/
def resolveFromWorkspace (specifier referrer : Specifier) : Except ResolutionError Candidate :=
  match resolver.referrerDirectory referrer context with
  | .error error => .error (error.withResolutionAttempt request.specifier none none [])
  | .ok baseDir =>
    let resolvedBase := normalizeAbsolutePath (joinPaths baseDir specifier)
    if !isWithinWorkspaceRoot resolver.rootDir resolvedBase then
      .error (escapes request context
        ("relative specifier '" ++ String.ofList request.specifier ++
          "' escapes workspace root '" ++ String.ofList resolver.rootDir ++ "'")
        resolvedBase .workspace [])
    else
      foundOr request context
        ("unable to resolve relative specifier '" ++ String.ofList request.specifier ++
          "' from '" ++ String.ofList referrer ++ "'")
        (resolver.lookupWorkspaceCandidate resolvedBase request.style
          (resolver.allowRelativeImportProbes request referrer))

def resolveAbsolute (specifier : Specifier) : Except ResolutionError Candidate :=
  let resolvedBase := normalizeAbsolutePath specifier
  if !isWithinWorkspaceRoot resolver.rootDir resolvedBase then
    .error (escapes request context
      ("absolute specifier '" ++ String.ofList request.specifier ++
        "' escapes workspace root '" ++ String.ofList resolver.rootDir ++ "'")
      resolvedBase .workspace [])
  else
    foundOr request context
      ("unable to resolve absolute specifier '" ++ String.ofList specifier ++ "'")
      (resolver.lookupWorkspaceCandidate resolvedBase request.style true)

/-- External modules come before those of the workspace. -/
def resolveBare (specifier : Specifier) : Except ResolutionError Candidate :=
  let external := resolver.lookupExternalCandidate specifier request.style true
  match external.2 with
  | some (resolved, record) => .ok (resolved, record, external.1)
  | none =>
    let workspaceBase := normalizeAbsolutePath (joinPaths resolver.rootDir specifier)
    if !isWithinWorkspaceRoot resolver.rootDir workspaceBase then
      .error (escapes request context
        ("bare specifier '" ++ String.ofList request.specifier ++
          "' escapes workspace root '" ++ String.ofList resolver.rootDir ++ "'")
        workspaceBase .workspace external.1)
    else
      let workspace := resolver.lookupWorkspaceCandidate workspaceBase request.style true
      foundOr request context
        ("unable to resolve bare specifier '" ++ String.ofList specifier ++ "'")
        (external.1 ++ workspace.1, workspace.2)

def resolveCandidate : Except ResolutionError Candidate :=
  let specifier := Chars.trim request.specifier
  if specifier.isEmpty then
    .error ((ResolutionError.new .emptySpecifier "module specifier must not be empty"
      context).withResolutionAttempt request.specifier none none [])
  else
    match resolver.builtins.get? specifier with
    | some record => .ok (specifier, record, [specifier])
    | none =>
      if isRelativeSpecifier specifier then
        match request.referrer with
        | none =>
          .error ((ResolutionError.new .invalidReferrer
            ("relative specifier '" ++ String.ofList request.specifier ++
              "' requires a referrer module") context).withResolutionAttempt
            request.specifier none none [])
        | some referrer =>
          match referrer.dropPrefix? "external:".toList with
          | some externalReferrer =>
            resolver.resolveFromExternal request context specifier referrer externalReferrer
          | none => resolver.resolveFromWorkspace request context specifier referrer
      else if startsWithSlash specifier then resolver.resolveAbsolute request context specifier
      else resolver.resolveBare request context specifier

def resolve (tiers : HashTiers) (resolver : DeterministicModuleResolver) (request : ModuleRequest)
    (context : ResolutionContext) (policy : ModulePolicyHook) :
    Except ResolutionError ResolutionOutcome := do
  let (canonicalSpecifier, record, probeSequence) ← resolver.resolveCandidate request context
  let attempted (error : ResolutionError) : ResolutionError :=
    error.withResolutionAttempt request.specifier (some canonicalSpecifier)
      (some record.provenance.kind) probeSequence
  if request.style = .require ∧ record.syntaxKind = .esModule ∧
      request.compatibilityMode ≠ .bunCompat then
    throw (attempted (.new .unsupportedSpecifier
      ("ERR_REQUIRE_ESM: require() of ES module '" ++ String.ofList canonicalSpecifier ++
        "' is not supported; use dynamic import() or provide a CommonJS entry point") context))
  (policy request record context).mapError attempted
  return {
    module := {
      requestSpecifier := request.specifier
      canonicalSpecifier
      record
      contentHash := record.canonicalHash tiers
      probeSequence }
    event := successEvent context }

end DeterministicModuleResolver

end FrankenEngine.Modules
