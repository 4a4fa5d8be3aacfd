import FrankenEngine.Authority.Signature

/-!
# Patterns and their compiler

The syntax trees of `regexp_deterministic_engine.rs`. A tree becomes an
automaton with silent transitions, and a tier is elected for it. Constructs that
the builder does not know become a single accepting state.
-/

set_option autoImplicit false

namespace FrankenEngine.RegExp

open Library

inductive RegExpFlag where
  | global
  | ignoreCase
  | multiline
  | dotAll
  | unicode
  | unicodeSets
  | sticky
  | hasIndices
  deriving DecidableEq

instance : LinearOrder RegExpFlag :=
  LinearOrder.lift' RegExpFlag.ctorIdx fun left right same => by
    cases left <;> cases right <;> first | rfl | cases same

def RegExpFlag.jsonName : RegExpFlag → String
  | .global => "global"
  | .ignoreCase => "ignore_case"
  | .multiline => "multiline"
  | .dotAll => "dot_all"
  | .unicode => "unicode"
  | .unicodeSets => "unicode_sets"
  | .sticky => "sticky"
  | .hasIndices => "has_indices"

abbrev Flags := OrderedSet RegExpFlag

def Flags.has (flags : Flags) (flag : RegExpFlag) : Bool := flag ∈ flags.keys

inductive UnicodeCategory where
  | lu
  | ll
  | lt
  | lm
  | lo
  | nd
  | nl
  | no
  | zs
  | zl
  | zp
  | mark
  | punctuation
  | symbol
  | other
  deriving DecidableEq

instance : LinearOrder UnicodeCategory :=
  LinearOrder.lift' UnicodeCategory.ctorIdx fun left right same => by
    cases left <;> cases right <;> first | rfl | cases same

structure CharRange where
  start : Char
  stop : Char
  deriving DecidableEq

def CharRange.contains (range : CharRange) (c : Char) : Bool := range.start ≤ c && c ≤ range.stop

inductive RegExpAstNode where
  | literal (c : Char)
  | charClass (negated : Bool) (ranges : List CharRange)
  | unicodeProperty (property : UnicodeCategory) (negated : Bool)
  | dot
  | concat (children : List RegExpAstNode)
  | alternation (children : List RegExpAstNode)
  | quantifier (child : RegExpAstNode) (min : Nat) (max : Option Nat) (greedy : Bool)
  | group (index : Nat) (child : RegExpAstNode)
  | nonCapturingGroup (child : RegExpAstNode)
  | lookahead (child : RegExpAstNode) (positive : Bool)
  | lookbehind (child : RegExpAstNode) (positive : Bool)
  | startAnchor
  | endAnchor
  | wordBoundary (negated : Bool)
  | backreference (index : Nat)

namespace RegExpAstNode

/-!
## What the compiler asks of a tree
-/

mutual

def countGroups : RegExpAstNode → Nat
  | .group _ child => 1 + child.countGroups
  | .nonCapturingGroup child => child.countGroups
  | .lookahead child _ => child.countGroups
  | .lookbehind child _ => child.countGroups
  | .quantifier child _ _ _ => child.countGroups
  | .concat children => countGroupsList children
  | .alternation children => countGroupsList children
  | _ => 0

def countGroupsList : List RegExpAstNode → Nat
  | [] => 0
  | child :: rest => child.countGroups + countGroupsList rest

end

mutual

def quantifierNesting : RegExpAstNode → Nat
  | .quantifier child _ _ _ => 1 + child.quantifierNesting
  | .group _ child => child.quantifierNesting
  | .nonCapturingGroup child => child.quantifierNesting
  | .lookahead child _ => child.quantifierNesting
  | .lookbehind child _ => child.quantifierNesting
  | .concat children => quantifierNestingList children
  | .alternation children => quantifierNestingList children
  | _ => 0

def quantifierNestingList : List RegExpAstNode → Nat
  | [] => 0
  | child :: rest => max child.quantifierNesting (quantifierNestingList rest)

end

mutual

def hasBackreference : RegExpAstNode → Bool
  | .backreference _ => true
  | .quantifier child _ _ _ => child.hasBackreference
  | .group _ child => child.hasBackreference
  | .nonCapturingGroup child => child.hasBackreference
  | .lookahead child _ => child.hasBackreference
  | .lookbehind child _ => child.hasBackreference
  | .concat children => hasBackreferenceList children
  | .alternation children => hasBackreferenceList children
  | _ => false

def hasBackreferenceList : List RegExpAstNode → Bool
  | [] => false
  | child :: rest => child.hasBackreference || hasBackreferenceList rest

end

mutual

def hasLookbehind : RegExpAstNode → Bool
  | .lookbehind _ _ => true
  | .quantifier child _ _ _ => child.hasLookbehind
  | .group _ child => child.hasLookbehind
  | .nonCapturingGroup child => child.hasLookbehind
  | .lookahead child _ => child.hasLookbehind
  | .concat children => hasLookbehindList children
  | .alternation children => hasLookbehindList children
  | _ => false

def hasLookbehindList : List RegExpAstNode → Bool
  | [] => false
  | child :: rest => child.hasLookbehind || hasLookbehindList rest

end

mutual

def collectUnicodeCategories : RegExpAstNode → OrderedSet UnicodeCategory
  | .unicodeProperty property _ => OrderedMap.empty.insert property ()
  | .quantifier child _ _ _ => child.collectUnicodeCategories
  | .group _ child => child.collectUnicodeCategories
  | .nonCapturingGroup child => child.collectUnicodeCategories
  | .lookahead child _ => child.collectUnicodeCategories
  | .lookbehind child _ => child.collectUnicodeCategories
  | .concat children => collectUnicodeCategoriesList children
  | .alternation children => collectUnicodeCategoriesList children
  | _ => .empty

def collectUnicodeCategoriesList : List RegExpAstNode → OrderedSet UnicodeCategory
  | [] => .empty
  | child :: rest =>
    (collectUnicodeCategoriesList rest).keys.foldl (fun held key => held.insert key ())
      child.collectUnicodeCategories

end

def isAlternation : RegExpAstNode → Bool
  | .alternation _ => true
  | _ => false

end RegExpAstNode

/-!
## Automata
-/

abbrev NfaStateId := Nat

inductive NfaTransition where
  | char (c : Char)
  | range (range : CharRange)
  | epsilon
  | any
  deriving DecidableEq

structure NfaState where
  id : NfaStateId
  transitions : List (NfaTransition × NfaStateId)
  isAccept : Bool
  deriving DecidableEq

structure NfaProgram where
  states : List NfaState
  startState : NfaStateId
  acceptStates : OrderedSet NfaStateId
  stateCount : Nat

/-!
## The builder
-/

structure NfaFragment where
  start : NfaStateId
  accept : NfaStateId
  states : List NfaState
  deriving DecidableEq

/-- A single accepting state, the placeholder for what is not built. -/
def singleState (nextId : NfaStateId) : NfaFragment × NfaStateId :=
  ({ start := nextId
     accept := nextId
     states := [{ id := nextId, transitions := [], isAccept := true }] },
    nextId + 1)

def twoStates (nextId : NfaStateId) (transitions : List NfaTransition) :
    NfaFragment × NfaStateId :=
  ({ start := nextId
     accept := nextId + 1
     states :=
       [{ id := nextId, transitions := transitions.map (·, nextId + 1), isAccept := false },
        { id := nextId + 1, transitions := [], isAccept := true }] },
    nextId + 2)

/-- The first state with the identifier stops accepting and gets silent transitions. -/
def link (id : NfaStateId) (targets : List NfaStateId) : List NfaState → List NfaState
  | [] => []
  | state :: rest =>
    if state.id = id then
      { state with
        isAccept := false
        transitions := state.transitions ++ targets.map (.epsilon, ·) } :: rest
    else state :: link id targets rest

def pushFirst (target : NfaStateId) : List NfaState → List NfaState
  | [] => []
  | state :: rest =>
    { state with transitions := state.transitions ++ [(.epsilon, target)] } :: rest

/-- The child between a new start and a new accepting state. It can be skipped if `skip`, and can
be repeated if `loop`. -/
def wrap (skip loop : Bool) (child : NfaFragment) (nextId : NfaStateId) :
    NfaFragment × NfaStateId :=
  let accept := nextId + 1
  ({ start := nextId
     accept
     states :=
       { id := nextId
         transitions := (.epsilon, child.start) :: (if skip then [(.epsilon, accept)] else [])
         isAccept := false } ::
       { id := accept, transitions := [], isAccept := true } ::
       link child.accept ((if loop then [child.start] else []) ++ [accept]) child.states },
    nextId + 2)

/-- `?` and `*`, and every other quantifier as if it were `+`. -/
def buildQuantifier (min : Nat) (max : Option Nat) : NfaFragment → NfaStateId →
    NfaFragment × NfaStateId :=
  if min = 0 ∧ max = some 1 then wrap true false
  else if min = 0 ∧ max = none then wrap true true
  else wrap false true

mutual

def buildNfaFromAst : RegExpAstNode → NfaStateId → NfaFragment × NfaStateId
  | .literal c, nextId => twoStates nextId [.char c]
  | .dot, nextId => twoStates nextId [.any]
  | .charClass _ ranges, nextId => twoStates nextId (ranges.map .range)
  | .concat [], nextId => singleState nextId
  | .concat (first :: rest), nextId =>
    let (built, nextId) := buildNfaFromAst first nextId
    buildConcat rest built nextId
  | .alternation children, nextId =>
    if children.isEmpty then singleState nextId
    else
      let (built, nextId) := twoStates nextId []
      buildAlternation children built nextId
  | .quantifier child min max _, nextId =>
    let (built, nextId) := buildNfaFromAst child nextId
    buildQuantifier min max built nextId
  | .group _ child, nextId => buildNfaFromAst child nextId
  | .nonCapturingGroup child, nextId => buildNfaFromAst child nextId
  -- Properties, anchors, lookahead, lookbehind and backreferences are not built.
  | .unicodeProperty _ _, nextId => singleState nextId
  | .lookahead _ _, nextId => singleState nextId
  | .lookbehind _ _, nextId => singleState nextId
  | .startAnchor, nextId => singleState nextId
  | .endAnchor, nextId => singleState nextId
  | .wordBoundary _, nextId => singleState nextId
  | .backreference _, nextId => singleState nextId

def buildConcat : List RegExpAstNode → NfaFragment → NfaStateId → NfaFragment × NfaStateId
  | [], built, nextId => (built, nextId)
  | child :: rest, built, nextId =>
    let (next, nextId) := buildNfaFromAst child nextId
    buildConcat rest
      { start := built.start
        accept := next.accept
        states := link built.accept [next.start] built.states ++ next.states } nextId

def buildAlternation : List RegExpAstNode → NfaFragment → NfaStateId → NfaFragment × NfaStateId
  | [], built, nextId => (built, nextId)
  | child :: rest, built, nextId =>
    let (next, nextId) := buildNfaFromAst child nextId
    buildAlternation rest
      { built with
        states := pushFirst next.start built.states ++ link next.accept [built.accept] next.states }
      nextId

end

/-!
## Tail risk
-/

structure RegExpCompilerConfig where
  maxNfaStates : Nat
  maxDfaStates : Nat
  maxQuantifierNesting : Nat
  enableDfa : Bool
  deriving DecidableEq

def RegExpCompilerConfig.default : RegExpCompilerConfig where
  maxNfaStates := 10000
  maxDfaStates := 50000
  maxQuantifierNesting := 8
  enableDfa := true

structure TailRiskAssessment where
  riskMillionths : Int
  catastrophicPossible : Bool
  ambiguousStateCount : Nat
  maxQuantifierNesting : Nat
  hasOverlappingAlternatives : Bool
  summary : String
  deriving DecidableEq

def assessTailRisk (ast : RegExpAstNode) (nfaStateCount : Nat) (config : RegExpCompilerConfig) :
    TailRiskAssessment :=
  let nesting := ast.quantifierNesting
  let catastrophic : Bool :=
    config.maxQuantifierNesting < nesting || config.maxNfaStates < nfaStateCount
  let risk : Int :=
    min
      (if catastrophic then 900000
       else if 3 < nesting then nesting * 100000
       else nesting * 20000)
      1000000
  { riskMillionths := risk
    catastrophicPossible := catastrophic
    ambiguousStateCount := if 2 < nesting then nfaStateCount / 4 else 0
    maxQuantifierNesting := nesting
    hasOverlappingAlternatives := ast.isAlternation
    summary :=
      if catastrophic then
        "catastrophic risk: nesting=" ++ nesting.repr ++ ", nfa_states=" ++ nfaStateCount.repr
      else if 200000 < risk then "elevated risk: nesting=" ++ nesting.repr
      else "safe" }

/-!
## Compilation
-/

inductive AutomataTier where
  | dfa
  | boundedNfa
  | interpreterFallback
  | declined
  deriving DecidableEq

def AutomataTier.asStr : AutomataTier → String
  | .dfa => "dfa"
  | .boundedNfa => "bounded_nfa"
  | .interpreterFallback => "interpreter_fallback"
  | .declined => "declined"

inductive DeclineReason where
  | nfaStateBudgetExceeded
  | catastrophicBacktrackingRisk
  | backreferencePresent
  | lookbehindPresent
  deriving DecidableEq

inductive RegExpCompileError where
  | emptyPattern
  | invalidFlagCombination (detail : String)
  deriving DecidableEq

structure CompilationReceipt where
  schemaVersion : String
  pattern : String
  flags : Flags
  tier : AutomataTier
  nfaStateCount : Nat
  dfaStateCount : Nat
  captureGroupCount : Nat
  unicodeCategoriesUsed : OrderedSet UnicodeCategory
  tailRisk : TailRiskAssessment
  declineReasons : List DeclineReason
  confidenceMillionths : Int
  automataHash : String
  receiptHash : String

structure CompiledRegExp where
  pattern : String
  flags : Flags
  nfa : NfaProgram
  tier : AutomataTier
  receipt : CompilationReceipt
  contentHash : String

def validateFlags (flags : Flags) : Except RegExpCompileError Unit :=
  if flags.has .unicode && flags.has .unicodeSets then
    .error (.invalidFlagCombination "u and v flags are mutually exclusive")
  else .ok ()

def nfaOf (ast : RegExpAstNode) : NfaProgram :=
  let built := (buildNfaFromAst ast 0).1
  { states := built.states
    startState := built.start
    acceptStates := OrderedMap.ofKeys ((built.states.filter (·.isAccept)).map (·.id))
    stateCount := built.states.length }

def declineReasons (ast : RegExpAstNode) (nfaStateCount : Nat) (tailRisk : TailRiskAssessment)
    (config : RegExpCompilerConfig) : List DeclineReason :=
  (if tailRisk.catastrophicPossible then [.catastrophicBacktrackingRisk] else []) ++
  (if ast.hasBackreference then [.backreferencePresent] else []) ++
  (if ast.hasLookbehind then [.lookbehindPresent] else []) ++
  (if config.maxNfaStates < nfaStateCount then [.nfaStateBudgetExceeded] else [])

def electTier (ast : RegExpAstNode) (nfaStateCount : Nat) (reasons : List DeclineReason)
    (config : RegExpCompilerConfig) : AutomataTier :=
  let needsInterpreter := ast.hasBackreference || ast.hasLookbehind
  if !reasons.isEmpty && !needsInterpreter then .declined
  else if needsInterpreter then .interpreterFallback
  else if config.enableDfa && nfaStateCount ≤ config.maxDfaStates then .dfa
  else .boundedNfa

def confidenceOf : AutomataTier → Int
  | .dfa => 950000
  | .boundedNfa => 800000
  | .interpreterFallback => 600000
  | .declined => 0

def flagsJson (flags : Flags) : String :=
  "[" ++ String.intercalate "," (flags.keys.map fun flag => "\"" ++ flag.jsonName ++ "\"") ++ "]"

def compileRegexp (hashes : HashTiers) (pattern : String) (flags : Flags) (ast : RegExpAstNode)
    (config : RegExpCompilerConfig) (epoch : UInt64) :
    Except RegExpCompileError CompiledRegExp := do
  if pattern.isEmpty then throw .emptyPattern
  validateFlags flags
  let nfa := nfaOf ast
  let nfaStateCount := nfa.stateCount
  let tailRisk := assessTailRisk ast nfaStateCount config
  let reasons := declineReasons ast nfaStateCount tailRisk config
  let tier := electTier ast nfaStateCount reasons config
  let groupCount := ast.countGroups
  let confidence := confidenceOf tier
  let hashHex (text : String) : String := Authority.toHex (hashes.contentHash (utf8 text))
  let automataHash := hashHex ("automata:" ++ pattern ++ ":" ++ nfaStateCount.repr ++ ":" ++
    tier.asStr ++ ":" ++ flagsJson flags ++ ":" ++ epoch.toNat.repr)
  let receiptHash := hashHex ("receipt:" ++ pattern ++ ":" ++ tier.asStr ++ ":" ++
    nfaStateCount.repr ++ ":" ++ groupCount.repr ++ ":" ++ confidence.repr)
  return {
    pattern
    flags
    nfa
    tier
    receipt := {
      schemaVersion := "franken-engine.regexp_deterministic_engine.v1"
      pattern
      flags
      tier
      nfaStateCount
      dfaStateCount := if tier = .dfa then nfaStateCount * 2 else 0
      captureGroupCount := groupCount
      unicodeCategoriesUsed := ast.collectUnicodeCategories
      tailRisk
      declineReasons := reasons
      confidenceMillionths := confidence
      automataHash
      receiptHash }
    contentHash := automataHash }

end FrankenEngine.RegExp
