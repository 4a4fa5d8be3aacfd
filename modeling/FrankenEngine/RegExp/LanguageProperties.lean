import FrankenEngine.RegExp.BuilderProperties

/-!
# The language of a pattern

For patterns of literals, classes that are not negated, dots, `?`, `*` and `+`,
the automaton of a compiled pattern accepts the language that the operators
denote.
-/

set_option autoImplicit false

namespace FrankenEngine.RegExp

open Library Computability Language

variable {ast : RegExpAstNode}

/-- The patterns of the usual operators, with the language that each of them denotes. -/
inductive HasLanguage : RegExpAstNode → Language Char → Prop
  | literal (c : Char) : HasLanguage (.literal c) {[c]}
  | dot : HasLanguage .dot {word | word.length = 1}
  | charClass (ranges : List CharRange) : HasLanguage (.charClass false ranges)
      {word | ∃ c, word = [c] ∧ ∃ range ∈ ranges, range.start ≤ c ∧ c ≤ range.stop}
  | empty : HasLanguage (.concat []) 1
  | concat {child : RegExpAstNode} {rest : List RegExpAstNode} {first others : Language Char} :
      HasLanguage child first → HasLanguage (.concat rest) others →
      HasLanguage (.concat (child :: rest)) (first * others)
  | single {child : RegExpAstNode} {language : Language Char} :
      HasLanguage child language → HasLanguage (.alternation [child]) language
  | alternation {child : RegExpAstNode} {rest : List RegExpAstNode} {first others : Language Char} :
      HasLanguage child first → HasLanguage (.alternation rest) others →
      HasLanguage (.alternation (child :: rest)) (first + others)
  | optional {child : RegExpAstNode} {language : Language Char} (greedy : Bool) :
      HasLanguage child language → HasLanguage (.quantifier child 0 (some 1) greedy) (1 + language)
  | star {child : RegExpAstNode} {language : Language Char} (greedy : Bool) :
      HasLanguage child language → HasLanguage (.quantifier child 0 none greedy) language∗
  | plus {child : RegExpAstNode} {language : Language Char} (greedy : Bool) :
      HasLanguage child language →
      HasLanguage (.quantifier child 1 none greedy) (language * language∗)
  | group {child : RegExpAstNode} {language : Language Char} (index : Nat) :
      HasLanguage child language → HasLanguage (.group index child) language
  | nonCapturingGroup {child : RegExpAstNode} {language : Language Char} :
      HasLanguage child language → HasLanguage (.nonCapturingGroup child) language

theorem HasLanguage.nfaLanguage_eq {language : Language Char} (has : HasLanguage ast language) :
    nfaLanguage ast = language := by
  induction has with
  | literal c =>
    ext word
    simp only [nfaLanguage, oneOf, Set.mem_singleton_iff, exists_eq_left]
    rfl
  | dot =>
    ext word
    simp [nfaLanguage, oneOf, List.length_eq_one_iff]
  | charClass ranges =>
    ext word
    simp [nfaLanguage, oneOf, CharRange.contains, and_comm]
  | empty => rw [nfaLanguage, nfaConcat]
  | concat _ _ first others =>
    rw [nfaLanguage] at others
    rw [nfaLanguage, nfaConcat, first, others]
  | single _ own => simp [nfaLanguage, nfaAlternation, own]
  | @alternation child rest _ _ _ more first others =>
    cases rest with
    | nil => cases more
    | cons next rest =>
      rw [nfaLanguage, List.isEmpty_cons, if_neg Bool.false_ne_true] at others ⊢
      rw [nfaAlternation, first, others]
  | optional greedy _ own => rw [nfaLanguage, own]; rfl
  | star greedy _ own =>
    rw [nfaLanguage, own]
    exact one_add_self_mul_kstar_eq_kstar _
  | plus greedy _ own =>
    rw [nfaLanguage, own]
    exact zero_add _
  | group index _ own => rw [nfaLanguage, own]
  | nonCapturingGroup _ own => rw [nfaLanguage, own]

theorem compileRegexp_ok {hashes : HashTiers} {pattern : String} {flags : Flags}
    {config : RegExpCompilerConfig} {epoch : UInt64} {compiled : CompiledRegExp}
    (compiles : compileRegexp hashes pattern flags ast config epoch = .ok compiled) :
    compiled.nfa = nfaOf ast ∧
      ∃ reasons, compiled.tier = electTier ast (nfaOf ast).stateCount reasons config := by
  unfold compileRegexp at compiles
  split at compiles
  · cases compiles
  cases valid : validateFlags flags with
  | error error =>
    rw [valid] at compiles
    cases compiles
  | ok =>
    rw [valid] at compiles
    cases compiles
    exact ⟨rfl, _, rfl⟩

/-- The automaton of a pattern of the usual operators accepts the language of the pattern. Its
states have different numbers, and exactly one of them accepts. -/
theorem compiled_accepts_language {hashes : HashTiers} {pattern : String} {flags : Flags}
    {ast : RegExpAstNode} {config : RegExpCompilerConfig} {epoch : UInt64}
    {compiled : CompiledRegExp} {language : Language Char} (has : HasLanguage ast language)
    (compiles : compileRegexp hashes pattern flags ast config epoch = .ok compiled) :
    (∀ input, compiled.nfa.Accepts input ↔ input ∈ language) ∧
      (compiled.nfa.states.map (·.id)).Nodup ∧
      ∃! state, state ∈ compiled.nfa.states ∧ state.isAccept = true := by
  have builds := builds_nfa ast 0
  rw [(compileRegexp_ok compiles).1]
  refine ⟨fun input => ?_, builds.numbered.distinct, ?_⟩
  · rw [accepts_iff, has.nfaLanguage_eq]
  · obtain ⟨state, member, own⟩ := builds.present
    refine ⟨state, ⟨member, (builds.accepting state member).mpr own⟩, ?_⟩
    rintro other ⟨listed, accepts⟩
    have same := (builds.accepting other listed).mp accepts
    exact List.inj_on_of_nodup_map builds.numbered.distinct listed member (same.trans own.symm)

def plainHashes : HashTiers := ⟨fun _ => .zero, fun _ _ => .zero⟩

theorem compiled_accepts_language_star :
    ∃ compiled, compileRegexp plainHashes "a*" .empty (.quantifier (.literal 'a') 0 none true)
        .default 1 = .ok compiled ∧ compiled.nfa.Accepts [] := by
  have compiles : compileRegexp plainHashes "a*" .empty (.quantifier (.literal 'a') 0 none true)
      .default 1 = .ok _ := rfl
  refine ⟨_, compiles, ?_⟩
  exact ((compiled_accepts_language (.star true (.literal 'a')) compiles).1 []).mpr
    (Language.nil_mem_kstar _)

end FrankenEngine.RegExp
