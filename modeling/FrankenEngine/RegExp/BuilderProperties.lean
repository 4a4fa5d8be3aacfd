import FrankenEngine.Library.Search
import FrankenEngine.Library.Thompson
import FrankenEngine.RegExp.Compiler
import Mathlib.Computability.EpsilonNFA

/-!
# What the builder builds

The language of the automaton that is built for a tree, for every tree. What
the builder drops can be read off it: a class is read without its negation, a
quantifier other than `?` and `*` is read as `+`, and assertions, properties
and backreferences read the empty word.
-/

set_option autoImplicit false

namespace FrankenEngine.RegExp

open Library Computability List NfaTransition

/-!
## Languages
-/

def NfaTransition.Reads : NfaTransition → Option Char → Prop
  | .char c, label => label = some c
  | .range chars, label => ∃ c, chars.contains c = true ∧ label = some c
  | .epsilon, label => label = none
  | .any, label => ∃ c, label = some c

/-- States are found by their identifier. -/
def NfaProgram.automaton (program : NfaProgram) : εNFA Char NfaStateId where
  step source label := {target | ∃ state, program.states.find? (·.id = source) = some state ∧
    ∃ transition, (transition, target) ∈ state.transitions ∧ transition.Reads label}
  start := {program.startState}
  accept := {id | id ∈ program.acceptStates.keys}

def NfaProgram.Accepts (program : NfaProgram) (input : List Char) : Prop :=
  input ∈ program.automaton.accepts

def oneOf (letters : Set Char) : Language Char := {word | ∃ letter ∈ letters, word = [letter]}

/-- Whether the builder lets a quantified child be skipped, and be repeated. -/
def quantifierShape (min : Nat) (max : Option Nat) : Bool × Bool :=
  if min = 0 ∧ max = some 1 then (true, false)
  else if min = 0 ∧ max = none then (true, true)
  else (false, true)

mutual

def nfaLanguage : RegExpAstNode → Language Char
  | .literal c => oneOf {c}
  | .dot => oneOf Set.univ
  | .charClass _ ranges => oneOf {c | ranges.any (·.contains c) = true}
  | .concat children => nfaConcat children
  | .alternation children => if children.isEmpty then 1 else nfaAlternation children
  | .quantifier child min max _ =>
    Fragment.wrapped (quantifierShape min max).1 (quantifierShape min max).2 (nfaLanguage child)
  | .group _ child => nfaLanguage child
  | .nonCapturingGroup child => nfaLanguage child
  | .unicodeProperty _ _ => 1
  | .lookahead _ _ => 1
  | .lookbehind _ _ => 1
  | .startAnchor => 1
  | .endAnchor => 1
  | .wordBoundary _ => 1
  | .backreference _ => 1

def nfaConcat : List RegExpAstNode → Language Char
  | [] => 1
  | child :: rest => nfaLanguage child * nfaConcat rest

def nfaAlternation : List RegExpAstNode → Language Char
  | [] => 0
  | child :: rest => nfaLanguage child + nfaAlternation rest

end

/-!
## Edges between states
-/

def edges (states : List NfaState) (source : NfaStateId) (label : Option Char)
    (target : NfaStateId) : Prop :=
  ∃ state ∈ states, state.id = source ∧
    ∃ transition, (transition, target) ∈ state.transitions ∧ transition.Reads label

variable {states more : List NfaState} {source target id : NfaStateId} {label : Option Char}

theorem edges_nil : ¬ edges [] source label target := nofun

theorem edges_cons (state : NfaState) : edges (state :: states) source label target ↔
      (state.id = source ∧
        ∃ transition, (transition, target) ∈ state.transitions ∧ transition.Reads label) ∨
      edges states source label target := by
  rw [edges, exists_mem_cons_iff]
  rfl

theorem edges_append : edges (states ++ more) source label target ↔
      edges states source label target ∨ edges more source label target := by
  unfold edges
  simp only [mem_append, or_and_right, exists_or]

variable {targets : List NfaStateId}

theorem exists_epsilon_iff :
    (∃ transition, (transition, target) ∈ targets.map (epsilon, ·) ∧
      transition.Reads label) ↔ label = none ∧ target ∈ targets := by
  constructor
  · rintro ⟨transition, member, reads⟩
    obtain ⟨held, listed, same⟩ := mem_map.mp member
    cases same
    exact ⟨reads, listed⟩
  · rintro ⟨rfl, listed⟩
    exact ⟨.epsilon, mem_map_of_mem listed, rfl⟩

theorem map_id_link (targets : List NfaStateId) :
    (link id targets states).map (·.id) = states.map (·.id) := by
  induction states with
  | nil => rfl
  | cons state rest ih =>
    rw [link]
    split
    · rfl
    · rw [map_cons, map_cons, ih]

theorem edges_link (present : ∃ state ∈ states, state.id = id) :
    edges (link id targets states) source label target ↔
      edges states source label target ∨ source = id ∧ label = none ∧ target ∈ targets := by
  induction states with
  | nil =>
    obtain ⟨state, member, -⟩ := present
    cases member
  | cons state rest ih =>
    rw [link]
    split
    next own =>
      rw [edges_cons, edges_cons]
      simp only [mem_append, or_and_right, exists_or, exists_epsilon_iff, own, and_or_left,
        eq_comm (a := id)]
      exact or_right_comm
    next different =>
      have later : ∃ state ∈ rest, state.id = id := by
        obtain ⟨held, member, same⟩ := present
        cases member with
        | head => exact absurd same different
        | tail _ member => exact ⟨held, member, same⟩
      rw [edges_cons, edges_cons, ih later, or_assoc]

theorem isAccept_link (distinct : (states.map (·.id)).Nodup)
    (accepting : ∀ state ∈ states, state.isAccept = true → state.id = id) :
    ∀ state ∈ link id targets states, state.isAccept = false := by
  induction states with
  | nil => nofun
  | cons state rest ih =>
    obtain ⟨fresh, restDistinct⟩ := nodup_cons.mp distinct
    obtain ⟨own, others⟩ := forall_mem_cons.mp accepting
    rw [link]
    split
    next same =>
      intro held member
      cases member with
      | head => rfl
      | tail _ member =>
        refine Bool.eq_false_iff.mpr fun accepts => fresh ?_
        exact mem_map.mpr ⟨held, member, (others held member accepts).trans same.symm⟩
    next different =>
      intro held member
      cases member with
      | head => exact Bool.eq_false_iff.mpr fun accepts => different (own accepts)
      | tail _ member => exact ih restDistinct others held member

/-!
## Fragments of states
-/

structure Numbered (low high : Nat) (states : List NfaState) : Prop where
  within : ∀ number ∈ states.map (·.id), number ∈ Set.Ico low high
  distinct : (states.map (·.id)).Nodup

section

variable {low mid high : Nat}

theorem Numbered.of_ids (numbered : Numbered low high states)
    (same : more.map (·.id) = states.map (·.id)) : Numbered low high more :=
  ⟨same ▸ numbered.within, same ▸ numbered.distinct⟩

theorem Numbered.of_perm (numbered : Numbered low high states) (perm : more.Perm states) :
    Numbered low high more :=
  ⟨fun number member => numbered.within number ((perm.map _).mem_iff.mp member),
    (perm.map _).nodup_iff.mpr numbered.distinct⟩

theorem Numbered.append (left : Numbered low mid states) (right : Numbered mid high more)
    (ordered : low ≤ mid) (further : mid ≤ high) : Numbered low high (states ++ more) := by
  constructor
  · intro number member
    rw [map_append, mem_append] at member
    rcases member with before | behind
    · exact Set.Ico_subset_Ico_right further (left.within number before)
    · exact Set.Ico_subset_Ico_left ordered (right.within number behind)
  · rw [map_append]
    refine left.distinct.append right.distinct fun number before behind => ?_
    exact absurd (left.within number before).2 (not_lt_of_ge (right.within number behind).1)

end

/-- The states make up a fragment that reads the language, and one of them is accepting. -/
structure Builds (low high : Nat) (built : NfaFragment) (language : Language Char) : Prop where
  fragment : Fragment (edges built.states) (Set.Ico low high) built.start built.accept language
  numbered : Numbered low high built.states
  present : ∃ state ∈ built.states, state.id = built.accept
  accepting : ∀ state ∈ built.states, state.isAccept = true ↔ state.id = built.accept

variable (nextId : Nat)

theorem builds_singleState : Builds nextId (nextId + 1) (singleState nextId).1 1 where
  fragment := by
    refine Fragment.single ⟨le_rfl, Nat.lt_succ_self nextId⟩ ?_
    rintro source label target ⟨state, member, -, transition, listed, -⟩
    obtain rfl := mem_singleton.mp member
    cases listed
  numbered := by
    constructor
    · simp [singleState]
    · exact nodup_singleton _
  present := ⟨_, .head _, rfl⟩
  accepting := by
    intro state member
    obtain rfl := mem_singleton.mp member
    simp [singleState]

theorem edges_twoStates (transitions : List NfaTransition) :
    edges (twoStates nextId transitions).1.states source label target ↔
      source = nextId ∧ target = nextId + 1 ∧ ∃ transition ∈ transitions, transition.Reads label := by
  rw [twoStates, edges_cons, edges_cons]
  constructor
  · rintro (⟨rfl, transition, listed, reads⟩ | ⟨-, _, none, -⟩ | none)
    · obtain ⟨held, member, same⟩ := mem_map.mp listed
      cases same
      exact ⟨rfl, rfl, transition, member, reads⟩
    · cases none
    · exact absurd none edges_nil
  · rintro ⟨rfl, rfl, transition, member, reads⟩
    exact .inl ⟨rfl, transition, mem_map_of_mem member, reads⟩

theorem numbered_pair {first second : NfaState} (firstId : first.id = nextId)
    (secondId : second.id = nextId + 1) : Numbered nextId (nextId + 2) [first, second] := by
  constructor <;> simp [firstId, secondId]

theorem builds_twoStates {transitions : List NfaTransition} {letters : Set Char}
    (reads : ∀ label, (∃ transition ∈ transitions, transition.Reads label) ↔
      ∃ letter ∈ letters, label = some letter) :
    Builds nextId (nextId + 2) (twoStates nextId transitions).1 (oneOf letters) where
  fragment := by
    have first : nextId ∈ Set.Ico nextId (nextId + 2) := ⟨le_rfl, by omega⟩
    have second : nextId + 1 ∈ Set.Ico nextId (nextId + 2) := ⟨by omega, by omega⟩
    refine Fragment.letter first second (Nat.ne_of_lt (Nat.lt_succ_self nextId)) ?_
    intro source label target
    rw [edges_twoStates, reads]
    rfl
  numbered := numbered_pair nextId rfl rfl
  present := ⟨_, .tail _ (.head _), rfl⟩
  accepting := by
    intro state member
    simp only [twoStates, mem_cons, not_mem_nil, or_false] at member
    rcases member with rfl | rfl <;> simp [twoStates]

section

variable {low mid high : Nat} {built child : NfaFragment} {language other : Language Char}

variable (builds : Builds low high built language)

include builds

theorem Builds.lt : low < high :=
  builds.fragment.start_mem.1.trans_lt builds.fragment.start_mem.2

theorem Builds.numbered_link (targets : List NfaStateId) :
    Numbered low high (link built.accept targets built.states) :=
  builds.numbered.of_ids (map_id_link targets)

theorem Builds.isAccept_link (targets : List NfaStateId) :
    ∀ state ∈ link built.accept targets built.states, state.isAccept = false :=
  RegExp.isAccept_link builds.numbered.distinct fun state member =>
    (builds.accepting state member).mp

omit builds

theorem Numbered.accepting_iff (numbered : Numbered low high states)
    (none : ∀ state ∈ states, state.isAccept = false) {accept : NfaStateId}
    (outside : accept ∉ Set.Ico low high) :
    ∀ state ∈ states, state.isAccept = true ↔ state.id = accept := by
  intro state member
  rw [none state member]
  exact iff_of_false nofun fun same =>
    outside (same ▸ numbered.within state.id (mem_map_of_mem member))

theorem edges_wrap (builds : Builds low mid child language) (skip loop : Bool) :
    Fragment.Wraps (edges child.states) (edges (RegExp.wrap skip loop child mid).1.states)
      child.start child.accept mid (mid + 1) skip loop := by
  intro source label target
  rw [RegExp.wrap, edges_cons, edges_cons, edges_link builds.present]
  have entering : ((.epsilon, child.start) :: if skip then [(.epsilon, mid + 1)] else []) =
      (child.start :: if skip then [mid + 1] else []).map (epsilon, ·) := by
    cases skip <;> rfl
  rw [entering, exists_epsilon_iff]
  cases skip <;> cases loop <;> simp <;> tauto

theorem Builds.wrap (builds : Builds low mid child language) (skip loop : Bool) :
    Builds low (mid + 2) (RegExp.wrap skip loop child mid).1
      (Fragment.wrapped skip loop language) := by
  have bounds := builds.lt
  have start : mid ∈ Set.Ico low (mid + 2) := ⟨by omega, by omega⟩
  have accept : mid + 1 ∈ Set.Ico low (mid + 2) := ⟨by omega, by omega⟩
  have wider : Set.Ico low mid ⊆ Set.Ico low (mid + 2) := Set.Ico_subset_Ico_right (by omega)
  have startNew : mid ∉ Set.Ico low mid := fun member => lt_irrefl mid member.2
  have acceptNew : mid + 1 ∉ Set.Ico low mid := fun member => absurd member.2 (by omega)
  refine ⟨builds.fragment.wrap wider start startNew accept acceptNew
    (Nat.ne_of_lt (Nat.lt_succ_self mid)) (edges_wrap builds skip loop), ?_,
    ⟨_, .tail _ (.head _), rfl⟩, ?_⟩
  · -- The new states come first in the list, with the numbers behind those of the child.
    exact ((builds.numbered_link _).append (numbered_pair mid rfl rfl) bounds.le (by omega)).of_perm
      (perm_append_comm : Perm ([_, _] ++ link child.accept _ child.states) _)
  · intro state member
    cases member with
    | head => simp [RegExp.wrap]
    | tail _ member =>
      cases member with
      | head => simp [RegExp.wrap]
      | tail _ member =>
        exact (builds.numbered_link _).accepting_iff (builds.isAccept_link _) acceptNew
          state member

theorem Builds.concat (builds : Builds low mid built language) (next : Builds mid high child other) :
    Builds low high
      { start := built.start
        accept := child.accept
        states := link built.accept [child.start] built.states ++ child.states }
      (language * other) := by
  have apart : ∀ vertex ∈ Set.Ico low mid, vertex ∉ Set.Ico mid high :=
    fun vertex inside outside => absurd inside.2 (not_lt_of_ge outside.1)
  have union : Set.Ico low mid ∪ Set.Ico mid high = Set.Ico low high :=
    Set.Ico_union_Ico_eq_Ico builds.lt.le next.lt.le
  refine ⟨?_, (builds.numbered_link _).append next.numbered builds.lt.le next.lt.le, ?_, ?_⟩
  · rw [← union]
    refine builds.fragment.concat next.fragment apart fun source label target => ?_
    rw [edges_append, edges_link builds.present, mem_singleton, or_assoc,
      or_comm (b := edges _ _ _ _)]
  · obtain ⟨state, member, same⟩ := next.present
    exact ⟨state, mem_append_right _ member, same⟩
  · intro state member
    rcases mem_append.mp member with before | behind
    · exact (builds.numbered_link _).accepting_iff (builds.isAccept_link _)
        (fun inside => apart _ inside next.fragment.accept_mem) state before
    · exact next.accepting state behind

/-- An alternation that is being built: the start is the first state, and nothing leads to it. -/
structure Branching (low high : Nat) (built : NfaFragment) (language : Language Char) : Prop where
  builds : Builds low high built language
  leading : ∃ first rest, built.states = first :: rest ∧ first.id = built.start
  different : built.start ≠ built.accept
  source : ∀ source label, ¬ edges built.states source label built.start

theorem edges_pushFirst {first : NfaState} {rest : List NfaState} (pushed : NfaStateId) :
    edges (pushFirst pushed (first :: rest)) source label target ↔
      edges (first :: rest) source label target ∨
        source = first.id ∧ label = none ∧ target = pushed := by
  have single : (∃ transition, (transition, target) ∈ [(epsilon, pushed)] ∧
      transition.Reads label) ↔ label = none ∧ target = pushed := by
    rw [← mem_singleton (a := target)]
    exact @exists_epsilon_iff target label [pushed]
  rw [pushFirst, edges_cons, edges_cons]
  simp only [mem_append, or_and_right, exists_or, single, and_or_left, eq_comm (b := source)]
  exact or_right_comm

theorem branching_twoStates (nextId : Nat) :
    Branching nextId (nextId + 2) (twoStates nextId []).1 0 where
  builds := by
    have none : oneOf ∅ = 0 := by
      ext word
      exact iff_of_false (fun ⟨_, missing, _⟩ => missing) (Language.notMem_zero word)
    rw [← none]
    exact builds_twoStates nextId (by simp)
  leading := ⟨_, _, rfl, rfl⟩
  different := Nat.ne_of_lt (Nat.lt_succ_self nextId)
  source := by
    intro source label edge
    have target := ((edges_twoStates nextId []).mp edge).2.1
    exact absurd target (Nat.ne_of_lt (Nat.lt_succ_self nextId))

theorem Branching.add (branching : Branching low mid built language)
    (next : Builds mid high child other) : Branching low high
      { built with
        states := pushFirst child.start built.states ++ link child.accept [built.accept] child.states }
      (language + other) := by
  obtain ⟨builds, ⟨first, rest, listed, own⟩, different, source⟩ := branching
  have apart : ∀ vertex ∈ Set.Ico low mid, vertex ∉ Set.Ico mid high :=
    fun vertex inside outside => absurd inside.2 (not_lt_of_ge outside.1)
  have union : Set.Ico low mid ∪ Set.Ico mid high = Set.Ico low high :=
    Set.Ico_union_Ico_eq_Ico builds.lt.le next.lt.le
  have edgesIff : ∀ source label target,
      edges (pushFirst child.start built.states ++ link child.accept [built.accept] child.states)
          source label target ↔
        edges built.states source label target ∨ edges child.states source label target ∨
          source = built.start ∧ label = none ∧ target = child.start ∨
          source = child.accept ∧ label = none ∧ target = built.accept := by
    intro source label target
    rw [edges_append, edges_link next.present, mem_singleton, listed, edges_pushFirst, own]
    tauto
  have numbered : Numbered low high
      (pushFirst child.start built.states ++ link child.accept [built.accept] child.states) := by
    refine Numbered.append (builds.numbered.of_ids ?_) (next.numbered_link _) builds.lt.le next.lt.le
    rw [listed]
    rfl
  refine ⟨⟨?_, numbered, ?_, ?_⟩, ?_, different, ?_⟩
  · rw [← union]
    exact builds.fragment.branch next.fragment apart different source edgesIff
  · obtain ⟨state, member, same⟩ := builds.present
    rw [listed] at member ⊢
    cases member with
    | head => exact ⟨_, .head _, same⟩
    | tail _ member => exact ⟨state, .tail _ (mem_append_left _ member), same⟩
  · intro state member
    rcases mem_append.mp member with before | behind
    · rw [listed] at before
      have accepting := builds.accepting
      rw [listed] at accepting
      cases before with
      | head => exact accepting first (.head _)
      | tail _ before => exact accepting state (.tail _ before)
    · exact (next.numbered_link _).accepting_iff (next.isAccept_link _)
        (apart _ builds.fragment.accept_mem) state behind
  · rw [listed]
    exact ⟨_, _, rfl, own⟩
  · intro before label edge
    rcases (edgesIff _ _ _).mp edge with inner | outer | ⟨-, -, same⟩ | ⟨-, -, same⟩
    · exact source before label inner
    · exact apart _ builds.fragment.start_mem (next.fragment.closed outer).2
    · exact apart _ builds.fragment.start_mem (same ▸ next.fragment.start_mem)
    · exact different same

end

/-!
## Trees
-/

theorem buildQuantifier_eq (min : Nat) (max : Option Nat) :
    buildQuantifier min max = wrap (quantifierShape min max).1 (quantifierShape min max).2 := by
  unfold buildQuantifier quantifierShape
  split
  · rfl
  split
  · rfl
  · rfl

mutual

/-- For every tree, the automaton that is built reads the language of the tree. -/
theorem builds_nfa (node : RegExpAstNode) (nextId : Nat) :
    Builds nextId (buildNfaFromAst node nextId).2 (buildNfaFromAst node nextId).1
      (nfaLanguage node) := by
  cases node with
  | literal | dot =>
    exact builds_twoStates nextId (by simp [Reads])
  | charClass negated ranges =>
    rw [buildNfaFromAst, nfaLanguage]
    refine builds_twoStates nextId fun label => ?_
    constructor
    · rintro ⟨transition, listed, reads⟩
      obtain ⟨range, member, rfl⟩ := mem_map.mp listed
      obtain ⟨c, contained, rfl⟩ := reads
      exact ⟨c, any_eq_true.mpr ⟨range, member, contained⟩, rfl⟩
    · rintro ⟨c, listed, rfl⟩
      obtain ⟨range, member, contained⟩ := any_eq_true.mp listed
      exact ⟨.range range, mem_map_of_mem member, c, contained, rfl⟩
  | unicodeProperty | lookahead | lookbehind | startAnchor | endAnchor | wordBoundary
  | backreference =>
    exact builds_singleState nextId
  | concat children =>
    cases children with
    | nil =>
      exact builds_singleState nextId
    | cons first rest =>
      rw [buildNfaFromAst, nfaLanguage, nfaConcat]
      exact builds_concat rest (builds_nfa first nextId)
  | alternation children =>
    rw [buildNfaFromAst, nfaLanguage]
    split
    · exact builds_singleState nextId
    · have built := builds_alternation children (branching_twoStates nextId)
      rw [zero_add] at built
      exact built.builds
  | quantifier child min max greedy =>
    rw [buildNfaFromAst, nfaLanguage, buildQuantifier_eq]
    exact (builds_nfa child nextId).wrap _ _
  | group _ child | nonCapturingGroup child =>
    exact builds_nfa child nextId

theorem builds_concat (children : List RegExpAstNode) {low nextId : Nat} {built : NfaFragment}
    {language : Language Char} (builds : Builds low nextId built language) :
    Builds low (buildConcat children built nextId).2 (buildConcat children built nextId).1
      (language * nfaConcat children) := by
  cases children with
  | nil =>
    rw [buildConcat, nfaConcat, mul_one]
    exact builds
  | cons child rest =>
    rw [buildConcat, nfaConcat, ← mul_assoc]
    exact builds_concat rest (builds.concat (builds_nfa child nextId))

theorem builds_alternation (children : List RegExpAstNode) {low nextId : Nat} {built : NfaFragment}
    {language : Language Char} (branching : Branching low nextId built language) :
    Branching low (buildAlternation children built nextId).2
      (buildAlternation children built nextId).1 (language + nfaAlternation children) := by
  cases children with
  | nil =>
    rw [buildAlternation, nfaAlternation, add_zero]
    exact branching
  | cons child rest =>
    rw [buildAlternation, nfaAlternation, ← add_assoc]
    exact builds_alternation rest (branching.add (builds_nfa child nextId))

end

theorem accepts_iff (ast : RegExpAstNode) (input : List Char) :
    (nfaOf ast).Accepts input ↔ input ∈ nfaLanguage ast := by
  have builds := builds_nfa ast 0
  have steps : (fun source label target => target ∈ (nfaOf ast).automaton.step source label) =
      edges (buildNfaFromAst ast 0).1.states := by
    funext source label target
    refine propext ⟨?_, ?_⟩
    · rintro ⟨state, found, reads⟩
      obtain ⟨member, same⟩ := (Search.find?_eq_some_iff builds.numbered.distinct).mp found
      exact ⟨state, member, same, reads⟩
    · rintro ⟨state, member, same, reads⟩
      exact ⟨state, (Search.find?_eq_some_iff builds.numbered.distinct).mpr ⟨member, same⟩, reads⟩
  have accepting : ∀ number, number ∈ (nfaOf ast).acceptStates.keys ↔
      number = (buildNfaFromAst ast 0).1.accept := by
    intro number
    rw [nfaOf, OrderedMap.mem_keys_ofKeys, mem_map]
    constructor
    · rintro ⟨state, member, rfl⟩
      obtain ⟨listed, accepts⟩ := mem_filter.mp member
      exact (builds.accepting state listed).mp accepts
    · rintro rfl
      obtain ⟨state, listed, same⟩ := builds.present
      exact ⟨state, mem_filter.mpr ⟨listed, (builds.accepting state listed).mpr same⟩, same⟩
  rw [NfaProgram.Accepts, mem_accepts_iff_path, steps, ← builds.fragment.reads]
  constructor
  · rintro ⟨first, started, last, accepted, path⟩
    obtain rfl : first = (buildNfaFromAst ast 0).1.start := started
    obtain rfl := (accepting last).mp accepted
    exact path
  · exact fun path => ⟨_, rfl, _, (accepting _).mpr rfl, path⟩

end FrankenEngine.RegExp
