import FrankenEngine.Modules.Resolver

/-!
# Package roots

The functions on specifiers by the segments they leave. A path that lies under a
package root has the package root of the referrer, with every suffix that is
probed, unless the root is empty, is itself named like a module file, or is a
scope without a name.
-/

set_option autoImplicit false

namespace FrankenEngine.Modules

open Library Path List

/-!
## Normalisation
-/

theorem normalizeAbsolutePath_eq (path : Specifier) :
    normalizeAbsolutePath path = '/' :: join (segments path) := by
  unfold normalizeAbsolutePath
  cases segments : segments path with
  | nil => rfl
  | cons => rfl

variable {segments package : List Specifier} {path extension name suffix : Specifier}

theorem dropWhile_slash_join (plain : ∀ segment ∈ segments, Plain segment) :
    (join segments).dropWhile (· = '/') = join segments := by
  cases segments with
  | nil => rfl
  | cons first rest =>
    have firstPlain := plain first (.head _)
    obtain ⟨more, joined⟩ : ∃ more, join (first :: rest) = first ++ more := by
      by_cases none : rest = []
      · exact ⟨[], by simp [none]⟩
      · exact ⟨_, join_cons first none⟩
    cases first with
    | nil => exact absurd rfl firstPlain.ne_nil
    | cons char chars =>
      have different : char ≠ '/' := by
        intro same
        exact firstPlain.free (same ▸ .head _)
      rw [joined, cons_append, dropWhile_cons_of_neg (by simpa using different)]

theorem normalizeExternalSpecifierPath_eq (path : Specifier) :
    normalizeExternalSpecifierPath path = Path.join (Path.segments path) := by
  rw [normalizeExternalSpecifierPath, normalizeAbsolutePath_eq, segments_slash,
    dropWhile_cons_of_pos (by simp)]
  exact dropWhile_slash_join (plain_segments path)

variable (referrer : Specifier)

theorem externalSegments_eq : externalSegments referrer = Path.segments referrer := by
  have plain := plain_segments referrer
  rw [externalSegments, normalizeExternalSpecifierPath_eq]
  by_cases none : segments referrer = []
  · rw [none]
    rfl
  · rw [split_join none fun segment member => (plain segment member).free]
    refine filter_eq_self.mpr fun segment member => ?_
    simpa using (plain segment member).ne_nil

theorem any_dropPrefix_iff {root : Specifier} :
    (path.dropPrefix? root).any startsWithSlash = true ↔ ∃ rest, path = root ++ '/' :: rest := by
  rw [Option.any_eq_true]
  constructor
  · rintro ⟨behind, dropped, slash⟩
    obtain ⟨front, rfl, same⟩ := dropPrefix?_eq_some_iff.mp dropped
    cases behind with
    | nil => cases slash
    | cons char rest =>
      have isSlash : char = '/' := by simpa [startsWithSlash] using slash
      exact ⟨rest, by rw [eq_of_beq same, isSlash]⟩
  · rintro ⟨rest, rfl⟩
    exact ⟨'/' :: rest, dropPrefix?_eq_some_iff.mpr ⟨root, rfl, beq_self_eq_true root⟩, rfl⟩

theorem isWithinExternalPackageRoot_iff {packageRoot : Specifier} :
    isWithinExternalPackageRoot packageRoot path = true ↔ Under packageRoot path := by
  rw [isWithinExternalPackageRoot, Bool.or_eq_true, any_dropPrefix_iff, decide_eq_true_eq]
  rfl

theorem isWithinWorkspaceRoot_iff {rootDir : Specifier} :
    isWithinWorkspaceRoot rootDir path = true ↔
      if rootDir = "/".toList then startsWithSlash path = true else Under rootDir path := by
  unfold isWithinWorkspaceRoot
  split
  · rfl
  · rw [Bool.or_eq_true, any_dropPrefix_iff, decide_eq_true_eq]
    rfl

/-!
## Package roots of segments
-/

def packageOf (segments : List Specifier) : List Specifier :=
  if (segments.drop (packageRootLen segments)).isEmpty then
    stripLast (segments.take (packageRootLen segments))
  else segments.take (packageRootLen segments)

theorem externalPackageRoot_eq :
    externalPackageRoot referrer = Path.join (packageOf (Path.segments referrer)) := by
  unfold externalPackageRoot packageOf
  rw [externalSegments_eq, normalizeExternalSpecifierPath_eq]
  cases segments : Path.segments referrer with
  | nil => rfl
  | cons first rest =>
    simp only [isEmpty_cons, Bool.false_eq_true, if_false]
    split <;> rfl

/-- A name without a scope, or a scope and a name. -/
inductive Package : List Specifier → Prop where
  | bare {name : Specifier} (unscoped : name.head? ≠ some '@') : Package [name]
  | inScope {scope name : Specifier} (isScope : scope.head? = some '@') : Package [scope, name]

variable (shape : Package package)

include shape

theorem Package.ne_nil : package ≠ [] := by
  cases shape <;> simp

theorem Package.packageRootLen_eq (front : package <+: segments) :
    packageRootLen segments = package.length := by
  obtain ⟨rest, rfl⟩ := front
  cases shape with
  | bare unscoped => simp [packageRootLen, unscoped]
  | inScope isScope =>
    simp only [packageRootLen, cons_append, headD_cons, isScope, if_true,
      length_cons, nil_append, length_nil]
    omega

theorem Package.packageOf_append {rest : List Specifier} (more : rest ≠ []) :
    packageOf (package ++ rest) = package := by
  unfold packageOf
  rw [shape.packageRootLen_eq (prefix_append _ _), drop_left, take_left]
  simp [more]

theorem Package.packageOf_self : packageOf package = stripLast package := by
  unfold packageOf
  rw [shape.packageRootLen_eq prefix_rfl]
  simp

omit shape

def stripped (last : Specifier) : Specifier :=
  if isModuleFileName last then stripModuleFileExtension last else last

theorem stripLast_append (front : List Specifier) (last : Specifier) :
    stripLast (front ++ [last]) = front ++ [stripped last] := by
  simp only [stripLast, stripped, getLast?_concat, dropLast_concat]
  split <;> rfl

/-!
## Extensions
-/

def moduleExtensions : List Specifier := [".mjs".toList, ".cjs".toList, ".js".toList]

theorem free_of_mem_moduleExtensions (isExtension : extension ∈ moduleExtensions) :
    '/' ∉ extension := by
  have free : ∀ extension ∈ moduleExtensions, '/' ∉ extension := by decide
  exact free extension isExtension

theorem dropSuffix_eq_some_iff {front : Specifier} :
    name.dropSuffix? suffix = some front ↔ name = front ++ suffix := by
  rw [dropSuffix?_eq_some_iff]
  constructor
  · rintro ⟨last, rfl, same⟩
    rw [eq_of_beq same]
  · rintro rfl
    exact ⟨suffix, rfl, beq_self_eq_true suffix⟩

theorem isModuleFileName_iff :
    isModuleFileName name = true ↔ ∃ extension ∈ moduleExtensions, extension <:+ name := by
  simp [isModuleFileName, moduleExtensions, isSuffixOf_iff_suffix, or_assoc]

theorem stripModuleFileExtension_eq (name : Specifier) : stripModuleFileExtension name =
      (moduleExtensions.findSome? name.dropSuffix?).getD name := by
  unfold stripModuleFileExtension moduleExtensions
  simp only [findSome?_cons, findSome?_nil]
  cases name.dropSuffix? ".mjs".toList <;> cases name.dropSuffix? ".cjs".toList <;>
    cases name.dropSuffix? ".js".toList <;> rfl

theorem exists_stripModuleFileExtension (isModule : isModuleFileName name = true) :
    ∃ extension ∈ moduleExtensions, name = stripModuleFileExtension name ++ extension := by
  rw [stripModuleFileExtension_eq]
  cases found : moduleExtensions.findSome? name.dropSuffix? with
  | some front =>
    obtain ⟨extension, member, dropped⟩ := exists_of_findSome?_eq_some found
    exact ⟨extension, member, dropSuffix_eq_some_iff.mp dropped⟩
  | none =>
    obtain ⟨extension, member, front, same⟩ := isModuleFileName_iff.mp isModule
    have missing := findSome?_eq_none_iff.mp found extension member
    cases missing.symm.trans (dropSuffix_eq_some_iff.mpr same.symm)

theorem isModuleFileName_append (isExtension : extension ∈ moduleExtensions) (name : Specifier) :
    isModuleFileName (name ++ extension) = true :=
  isModuleFileName_iff.mpr ⟨extension, isExtension, suffix_append _ _⟩

theorem stripModuleFileExtension_append (isExtension : extension ∈ moduleExtensions)
    (name : Specifier) : stripModuleFileExtension (name ++ extension) = name := by
  obtain ⟨other, isOther, same⟩ :=
    exists_stripModuleFileExtension (isModuleFileName_append isExtension name)
  have apart : ∀ one ∈ moduleExtensions, ∀ two ∈ moduleExtensions, one <:+ two → one = two := by
    decide
  have equal : extension = other := by
    rcases suffix_or_suffix_of_suffix (suffix_append name extension) ⟨_, same.symm⟩ with
      shorter | longer
    · exact apart _ isExtension _ isOther shorter
    · exact (apart _ isOther _ isExtension longer).symm
  rw [← equal] at same
  exact (append_cancel_right same).symm

/-!
## The shape of a package root
-/

theorem exists_stripped_append (last : Specifier) : ∃ extension,
    last = stripped last ++ extension ∧ (extension = [] ∨ extension ∈ moduleExtensions) := by
  unfold stripped
  split
  next isModule =>
    obtain ⟨extension, member, same⟩ := exists_stripModuleFileExtension isModule
    exact ⟨extension, same, .inr member⟩
  next => exact ⟨[], (append_nil last).symm, .inl rfl⟩

theorem head?_stripped_iff (last : Specifier) :
    (stripped last).head? = some '@' ↔ last.head? = some '@' := by
  obtain ⟨extension, same, isExtension⟩ := exists_stripped_append last
  rw [same, head?_append, ← same]
  have unscoped : extension.head? ≠ some '@' := by
    have each : ∀ extension ∈ [] :: moduleExtensions, extension.head? ≠ some '@' := by decide
    exact each extension (mem_cons.mpr isExtension)
  cases (stripped last).head? <;> simp [unscoped]

theorem free_stripped {last : Specifier} (free : '/' ∉ last) : '/' ∉ stripped last := by
  obtain ⟨extension, same, _⟩ := exists_stripped_append last
  rw [same, mem_append, not_or] at free
  exact free.1

/-- The package is the first segments, with the extension of the last one dropped if no other
follows. -/
theorem packageOf_eq (segments : List Specifier) : ∃ edit : Specifier → Specifier,
    (∀ name, ((edit name).head? = some '@' ↔ name.head? = some '@') ∧
      ('/' ∉ name → '/' ∉ edit name)) ∧
    ∀ front last, segments.take (packageRootLen segments) = front ++ [last] →
      packageOf segments = front ++ [edit last] := by
  unfold packageOf
  split
  next =>
    refine ⟨stripped, fun name => ⟨head?_stripped_iff name, free_stripped⟩, ?_⟩
    intro front last root
    rw [root, stripLast_append]
  next => exact ⟨id, fun _ => ⟨Iff.rfl, id⟩, fun _ _ root => root⟩

theorem packageOf_cases {referrer : Specifier} (some : Path.segments referrer ≠ []) :
    (∀ segment ∈ packageOf (Path.segments referrer), '/' ∉ segment) ∧
      (Package (packageOf (Path.segments referrer)) ∨ ∃ scope : Specifier,
        packageOf (Path.segments referrer) = [scope] ∧ scope.head? = Option.some '@') := by
  have free := fun segment member => (plain_segments referrer segment member).free
  generalize Path.segments referrer = segments at some free
  obtain ⟨edit, keeps, root⟩ := packageOf_eq segments
  cases segments with
  | nil => exact absurd rfl some
  | cons first rest =>
    have firstFree := free first (.head _)
    by_cases scope : first.head? = Option.some '@'
    · cases rest with
      | nil =>
        rw [root [] first (by simp [packageRootLen])]
        refine ⟨?_, .inr ⟨_, rfl, (keeps first).1.mpr scope⟩⟩
        simpa using (keeps first).2 firstFree
      | cons second rest =>
        rw [root [first] second (by simp [packageRootLen, scope])]
        refine ⟨?_, .inl (.inScope scope)⟩
        simpa using ⟨firstFree, (keeps second).2 (free second (.tail _ (.head _)))⟩
    · rw [root [] first (by simp [packageRootLen, scope])]
      refine ⟨?_, .inl (.bare (mt (keeps first).1.mp scope))⟩
      simpa using (keeps first).2 firstFree

/-!
## Probing under a package root
-/

inductive ProbeSuffix : Specifier → Prop where
  | nothing : ProbeSuffix []
  | file {extension : Specifier} (isExtension : extension ∈ moduleExtensions) :
      ProbeSuffix extension
  | index {name : Specifier} (plain : Path.Plain name) : ProbeSuffix ('/' :: name)

theorem candidatePaths_eq_cons (base : Specifier) (style : ImportStyle) :
    ∃ rest, candidatePaths base style = base :: rest ∧
      ∀ candidate ∈ rest, ∃ suffix ∈ style.suffixes, candidate = base ++ suffix := by
  refine foldlRecOn (motive := fun candidates => ∃ rest, candidates = base :: rest ∧
    ∀ candidate ∈ rest, ∃ suffix ∈ style.suffixes, candidate = base ++ suffix)
    style.suffixes _ ⟨[], rfl, by simp⟩ ?_
  rintro _ ⟨rest, rfl, probed⟩ suffix listed
  split
  · exact ⟨rest, rfl, probed⟩
  · refine ⟨rest ++ [base ++ suffix], rfl, fun candidate member => ?_⟩
    cases mem_append.mp member with
    | inl old => exact probed candidate old
    | inr new => exact ⟨suffix, listed, mem_singleton.mp new⟩

theorem exists_probeSuffix {base candidate : Specifier} {style : ImportStyle}
    (member : candidate ∈ candidatePaths base style) :
    ∃ suffix, ProbeSuffix suffix ∧ candidate = base ++ suffix := by
  have plain : ∀ name ∈ ["index.mjs".toList, "index.cjs".toList, "index.js".toList],
      Plain name := by
    intro name listed
    simp only [mem_cons, not_mem_nil, or_false] at listed
    obtain rfl | rfl | rfl := listed <;> exact ⟨by decide, by decide, by decide, by decide⟩
  obtain ⟨rest, candidates, probed⟩ := candidatePaths_eq_cons base style
  rw [candidates] at member
  cases member with
  | head => exact ⟨[], .nothing, (append_nil base).symm⟩
  | tail _ later =>
    obtain ⟨suffix, listed, same⟩ := probed candidate later
    refine ⟨suffix, ?_, same⟩
    have each : ∀ suffix ∈ style.suffixes, suffix ∈ moduleExtensions ∨
        ∃ name ∈ ["index.mjs".toList, "index.cjs".toList, "index.js".toList],
          suffix = '/' :: name := by
      cases style <;> decide
    rcases each suffix listed with isExtension | ⟨name, isIndex, rfl⟩
    · exact .file isExtension
    · exact .index (plain name isIndex)

theorem plain_of_isModuleFileName (named : isModuleFileName name = true) (free : '/' ∉ name) :
    Plain name := by
  obtain ⟨extension, isExtension, isSuffix⟩ := isModuleFileName_iff.mp named
  have long : 3 ≤ name.length := by
    have three : ∀ extension ∈ moduleExtensions, 3 ≤ extension.length := by decide
    exact (three extension isExtension).trans isSuffix.length_le
  refine ⟨?_, ?_, ?_, free⟩
  · rintro rfl
    simp at long
  · rintro rfl
    simp at long
  · rintro rfl
    simp at long

theorem plain_append_extension (plain : Plain name)
    (isExtension : extension ∈ moduleExtensions) : Plain (name ++ extension) := by
  refine plain_of_isModuleFileName (isModuleFileName_append isExtension name) ?_
  rw [mem_append, not_or]
  exact ⟨plain.free, free_of_mem_moduleExtensions isExtension⟩

theorem segments_append_extension {front : List Specifier} {last : Specifier}
    (plain : ∀ segment ∈ front ++ [last], Plain segment)
    (isExtension : extension ∈ moduleExtensions) :
    Path.segments (Path.join (front ++ [last]) ++ extension) = front ++ [last ++ extension] := by
  rw [join_append_last]
  refine segments_join fun segment member => ?_
  cases mem_append.mp member with
  | inl earlier => exact plain segment (mem_append_left _ earlier)
  | inr isLast =>
    rw [mem_singleton.mp isLast]
    exact plain_append_extension (plain last (by simp)) isExtension

theorem segments_append_index (plain : ∀ segment ∈ segments, Plain segment)
    (namePlain : Plain name) :
    Path.segments (Path.join segments ++ '/' :: name) = segments ++ [name] := by
  rw [segments_append, segments_join plain, split_of_not_mem namePlain.free,
    foldl_cons, foldl_nil, read_plain namePlain]

theorem isModuleFileName_join_append (front : List Specifier) (last : Specifier) :
    isModuleFileName (join (front ++ [last])) = isModuleFileName last := by
  by_cases none : front = []
  · simp [none]
  · rw [Bool.eq_iff_iff, isModuleFileName_iff, isModuleFileName_iff,
      join_append none (by simp), join_singleton]
    refine exists_congr fun extension => and_congr_right fun isExtension => ?_
    have free := free_of_mem_moduleExtensions isExtension
    constructor
    · rintro ⟨before, same⟩
      obtain ⟨more, _, tooLong⟩ | ⟨more, _, rest⟩ := append_eq_append_iff.mp same
      · exact absurd (by simp [tooLong]) free
      · cases more with
        | nil =>
          rw [nil_append] at rest
          exact absurd (rest ▸ .head _) free
        | cons char more =>
          obtain ⟨_, rfl⟩ := cons.inj rest
          exact suffix_append _ _
    · intro isSuffix
      exact isSuffix.trans ((suffix_cons _ _).trans (suffix_append _ _))

theorem stripLast_eq_self (some : package ≠ [])
    (named : isModuleFileName (join package) = false) : stripLast package = package := by
  obtain ⟨front, last, rfl⟩ := eq_nil_or_concat package |>.resolve_left some
  rw [concat_eq_append] at named ⊢
  rw [isModuleFileName_join_append] at named
  rw [stripLast_append, stripped, named]
  rfl

theorem Package.packageOf_extension (shape : Package package)
    (plain : ∀ segment ∈ package, Path.Plain segment) (isExtension : extension ∈ moduleExtensions) :
    packageOf (Path.segments (Path.join package ++ extension)) = package := by
  have dropped : ∀ name : Specifier, stripped (name ++ extension) = name := by
    intro name
    rw [stripped, isModuleFileName_append isExtension, if_pos rfl,
      stripModuleFileExtension_append isExtension]
  cases shape with
  | @bare name unscoped =>
    have longer : Package [name ++ extension] := by
      refine .bare ?_
      rw [head?_append_of_ne_nil _ (plain name (.head _)).ne_nil]
      exact unscoped
    rw [show [name] = [] ++ [name] from rfl, segments_append_extension plain isExtension,
      nil_append, longer.packageOf_self]
    exact (stripLast_append [] _).trans (by rw [dropped])
  | @inScope scope name isScope =>
    have longer : Package [scope, name ++ extension] := .inScope isScope
    rw [show [scope, name] = [scope] ++ [name] from rfl,
      segments_append_extension plain isExtension, singleton_append, longer.packageOf_self]
    exact (stripLast_append [scope] _).trans (by rw [dropped, singleton_append])

theorem Package.externalPackageRoot_probe (shape : Package package)
    (named : isModuleFileName (Path.join package) = false) (front : package <+: segments)
    (plain : ∀ segment ∈ segments, Path.Plain segment) (isSuffix : ProbeSuffix suffix) :
    externalPackageRoot (Path.join segments ++ suffix) = Path.join package := by
  rw [externalPackageRoot_eq]
  refine congrArg Path.join ?_
  obtain ⟨rest, rfl⟩ := front
  cases isSuffix with
  | nothing =>
    rw [append_nil, Path.segments_join plain]
    by_cases last : rest = []
    · rw [last, append_nil, shape.packageOf_self, stripLast_eq_self shape.ne_nil named]
    · exact shape.packageOf_append last
  | file isExtension =>
    by_cases last : rest = []
    · subst last
      rw [append_nil] at plain ⊢
      exact shape.packageOf_extension plain isExtension
    · obtain ⟨inner, file, rfl⟩ := (eq_nil_or_concat rest).resolve_left last
      rw [concat_eq_append, ← append_assoc] at plain ⊢
      rw [segments_append_extension plain isExtension, append_assoc]
      exact shape.packageOf_append (by simp)
  | index namePlain =>
    rw [segments_append_index plain namePlain, append_assoc]
    exact shape.packageOf_append (by simp)

/-!
## Referrers
-/

/-- The package root of a referrer is not empty, is not named like a module file and is not a scope
without a name. The root of `.js` is empty, but what is probed for it is `.js` or has the same
root. -/
structure Contained (referrer : Specifier) : Prop where
  some : externalPackageRoot referrer ≠ [] ∨ referrer = ".js".toList
  named : isModuleFileName (externalPackageRoot referrer) = false
  hasName : ¬ ((externalPackageRoot referrer).head? = Option.some '@' ∧
    '/' ∉ externalPackageRoot referrer)

theorem packageOf_ne_nil {referrer : Specifier} (some : Path.segments referrer ≠ []) :
    packageOf (Path.segments referrer) ≠ [] := by
  obtain ⟨_, shape | ⟨scope, single, _⟩⟩ := packageOf_cases some
  · exact shape.ne_nil
  · simp [single]

theorem Contained.externalPackageRoot_probe {referrer : Specifier} (contained : Contained referrer)
    (some : externalPackageRoot referrer ≠ []) (plain : ∀ segment ∈ segments, Plain segment)
    (within : Under (externalPackageRoot referrer) (join segments))
    (isSuffix : ProbeSuffix suffix) :
    externalPackageRoot (Path.join segments ++ suffix) = externalPackageRoot referrer := by
  have named := contained.named
  have hasName := contained.hasName
  rw [under_join_iff some plain] at within
  rw [externalPackageRoot_eq referrer] at some named hasName within ⊢
  have anySegment : Path.segments referrer ≠ [] := by
    intro none
    rw [none] at some
    exact some rfl
  obtain ⟨free, shape⟩ := packageOf_cases anySegment
  cases shape with
  | inl shape =>
    rw [split_join shape.ne_nil free] at within
    exact shape.externalPackageRoot_probe named within plain isSuffix
  | inr lone =>
    obtain ⟨scope, single, isScope⟩ := lone
    rw [single, join_singleton] at hasName
    exact absurd ⟨isScope, free scope (by simp [single])⟩ hasName

theorem packageOf_packageOf {referrer : Specifier} (some : Path.segments referrer ≠ []) :
    packageOf (packageOf (Path.segments referrer)) =
      stripLast (packageOf (Path.segments referrer)) := by
  obtain ⟨_, shape | ⟨scope, single, _⟩⟩ := packageOf_cases some
  · exact shape.packageOf_self
  · have whole : packageRootLen [scope] = 1 := by simp [packageRootLen]
    rw [single, packageOf, whole]
    rfl

theorem plain_packageOf (plain : ∀ segment ∈ segments, Plain segment)
    (named : isModuleFileName (join (packageOf segments)) = true) :
    ∀ segment ∈ packageOf segments, Plain segment := by
  obtain ⟨edit, keeps, root⟩ := packageOf_eq segments
  rcases eq_nil_or_concat (segments.take (packageRootLen segments)) with none | ⟨front, last, parts⟩
  · have empty : packageOf segments = [] := by
      rw [packageOf, none]
      split <;> rfl
    rw [empty]
    exact nofun
  · rw [concat_eq_append] at parts
    have kept : ∀ segment ∈ front ++ [last], Plain segment :=
      fun segment member => plain segment (mem_of_mem_take (parts ▸ member))
    rw [root front last parts] at named ⊢
    rw [isModuleFileName_join_append] at named
    intro segment member
    cases mem_append.mp member with
    | inl earlier => exact kept segment (mem_append_left _ earlier)
    | inr isLast =>
      rw [mem_singleton.mp isLast]
      exact plain_of_isModuleFileName named ((keeps last).2 (kept last (by simp)).free)

theorem externalReferrerDirectory_eq : externalReferrerDirectory referrer =
      Path.join (packageOf (Path.segments referrer) ++
        ((Path.segments referrer).drop (packageRootLen (Path.segments referrer))).dropLast) := by
  unfold externalReferrerDirectory packageOf
  rw [externalSegments_eq, normalizeExternalSpecifierPath_eq]
  cases segments : Path.segments referrer with
  | nil => rfl
  | cons first rest =>
    simp only [isEmpty_cons, Bool.false_eq_true, if_false]
    cases (first :: rest).drop (packageRootLen (first :: rest)) with
    | nil => simp
    | cons directory subpath =>
      cases subpath with
      | nil => simp
      | cons => simp

theorem segments_joinPaths {base child : Specifier} (relative : startsWithSlash child = false) :
    Path.segments (joinPaths base child) =
      (Chars.split '/' child).foldl Path.read (Path.segments base) := by
  unfold joinPaths
  rw [if_neg (by simp [relative])]
  split
  next ends =>
    obtain ⟨front, rfl⟩ : ∃ front, base = front ++ ['/'] := by
      obtain ⟨front, last, rfl⟩ := (eq_nil_or_concat base).resolve_left
        (by rintro rfl; cases ends)
      rw [concat_eq_append, getLast?_concat] at ends
      exact ⟨front, by rw [concat_eq_append, Option.some.inj ends]⟩
    rw [append_assoc, singleton_append, segments_append, segments_append]
    rfl
  next => exact segments_append base child

end FrankenEngine.Modules
