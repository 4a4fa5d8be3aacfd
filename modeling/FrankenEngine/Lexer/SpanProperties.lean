import FrankenEngine.Lexer.ParserScanner

/-!
# Spans of tokens

The tokens of the scalar lexer lie one behind the other, with white space between
them. A string whose last escape is cut off by the end of the input is the one
exception: its span ends one byte behind the input.
-/

set_option autoImplicit false

namespace FrankenEngine.Lexer

open Library List ScalarLexer

inductive TilesFrom (input : Bytes) : Nat → List Token → Prop where
  | nil {index : Nat} (outside : input.length ≤ index) : TilesFrom input index []
  | blank {index : Nat} {tokens : List Token} (inside : index < input.length)
      (space : isAsciiWhitespace input[index] = true) (rest : TilesFrom input (index + 1) tokens) :
      TilesFrom input index tokens
  | token {index : Nat} {kind : TokenKind} {tokens : List Token} (inside : index < input.length)
      (word : isAsciiWhitespace input[index] = false)
      (rest : TilesFrom input (counter.next input index) tokens) :
      TilesFrom input index (⟨kind, index, counter.next input index⟩ :: tokens)

/-- Spans within the input, in order and apart, with only white space outside. -/
structure Tiled (input : Bytes) (tokens : List Token) : Prop where
  spans : ∀ token ∈ tokens, token.start < token.stop ∧ token.stop ≤ input.length
  apart : tokens.Pairwise fun left right => left.stop ≤ right.start
  covered : ∀ (position : Nat) (inside : position < input.length),
    (∃ token ∈ tokens, token.start ≤ position ∧ position < token.stop) ∨
      isAsciiWhitespace input[position] = true

variable {input : Bytes} {index : Nat} {tokens : List Token}

variable (tiles : TilesFrom input index tokens)

include tiles

theorem TilesFrom.stands {token : Token} (member : token ∈ tokens) :
    counter.Stands input index token.start ∧ token.stop = counter.next input token.start ∧
      ∃ inside : token.start < input.length, isAsciiWhitespace input[token.start] = false := by
  induction tiles with
  | nil => cases member
  | blank inside space rest ih =>
    obtain ⟨stands, found⟩ := ih member
    exact ⟨.blank inside space stands, found⟩
  | token inside word rest ih =>
    rcases mem_cons.mp member with rfl | later
    · exact ⟨.here, rfl, inside, word⟩
    · obtain ⟨stands, found⟩ := ih later
      exact ⟨.token inside word stands, found⟩

theorem TilesFrom.exists_token {position : Nat} (stands : counter.Stands input index position)
    (inside : position < input.length) (word : isAsciiWhitespace input[position] = false) :
    ∃ kind, ⟨kind, position, counter.next input position⟩ ∈ tokens := by
  induction tiles with
  | nil outside => exact absurd inside (Nat.not_lt.mpr (outside.trans stands.le))
  | @blank index tokens here space rest ih =>
    cases stands with
    | here => exact absurd space (Bool.eq_false_iff.mp word)
    | blank _ _ later => exact ih later
    | token _ other => exact absurd space (Bool.eq_false_iff.mp other)
  | @token index kind tokens here own rest ih =>
    cases stands with
    | here => exact ⟨kind, mem_cons_self⟩
    | blank _ space => exact absurd space (Bool.eq_false_iff.mp own)
    | token _ _ later =>
      obtain ⟨other, member⟩ := ih later
      exact ⟨other, mem_cons_of_mem _ member⟩

theorem TilesFrom.apart : tokens.Pairwise fun left right => left.stop ≤ right.start := by
  induction tiles with
  | nil => exact .nil
  | blank inside space rest ih => exact ih
  | token inside word rest ih => exact .cons (fun later member => (rest.stands member).1.le) ih

theorem TilesFrom.covered {position : Nat} (inside : position < input.length)
    (behind : index ≤ position) :
    (∃ token ∈ tokens, token.start ≤ position ∧ position < token.stop) ∨
      isAsciiWhitespace input[position] = true := by
  induction tiles with
  | nil outside => omega
  | blank here space rest ih =>
    rcases Nat.eq_or_lt_of_le behind with rfl | later
    · exact .inr space
    · exact ih later
  | @token index kind tokens here word rest ih =>
    rcases Nat.lt_or_ge position (counter.next input index) with own | later
    · exact .inl ⟨_, mem_cons_self, behind, own⟩
    · rcases ih later with ⟨token, member, span⟩ | space
      · exact .inl ⟨token, mem_cons_of_mem _ member, span⟩
      · exact .inr space

omit tiles

theorem TilesFrom.tiled_iff (tiles : TilesFrom input 0 tokens) : Tiled input tokens ↔
    ∀ position (inside : position < input.length), counter.Stands input 0 position →
      isAsciiWhitespace input[position] = false → counter.next input position ≤ input.length := by
  constructor
  · intro tiled position inside stands word
    obtain ⟨kind, member⟩ := tiles.exists_token stands inside word
    exact (tiled.spans _ member).2
  · intro within
    refine ⟨fun token member => ?_, tiles.apart, fun _ inside => tiles.covered inside (Nat.zero_le _)⟩
    obtain ⟨stands, stop, inside, word⟩ := tiles.stands member
    rw [stop]
    exact ⟨counter.lt_next input token.start, within token.start inside stands word⟩

/-!
## Strings
-/

/-- An open string, read from an index, comes to a backslash that is the last byte of the input. -/
inductive CutOff (quote : UInt8) (input : Bytes) : Nat → Prop where
  | last {index : Nat} (escape : input[index]? = some backslash)
      (done : index + 1 = input.length) : CutOff quote input index
  | escape {index : Nat} (escape : input[index]? = some backslash)
      (rest : CutOff quote input (index + 2)) : CutOff quote input index
  | plain {index : Nat} {byte : UInt8} (here : input[index]? = some byte)
      (unescaped : byte ≠ backslash) (unclosed : byte ≠ quote) (sameLine : isNewline byte = false)
      (rest : CutOff quote input (index + 1)) : CutOff quote input index

theorem scanString_le_iff (quote : UInt8) (within : index ≤ input.length) :
    (scanString quote input index).1 ≤ input.length ↔ ¬ CutOff quote input index := by
  fun_induction scanString quote input index with
  | case1 index inside current escape ih =>
    have here : input[index]? = some backslash :=
      (getElem?_eq_getElem inside).trans (congrArg some escape)
    rcases Nat.eq_or_lt_of_le inside with last | more
    · have beyond : input.length < index + 2 := by omega
      refine iff_of_false (Nat.not_le.mpr (beyond.trans_le (le_scanString quote input _))) ?_
      exact not_not.mpr (.last here last)
    · rw [ih more]
      refine not_congr ⟨.escape here, fun cut => ?_⟩
      cases cut with
      | last _ done => omega
      | escape _ rest => exact rest
      | plain other unescaped => exact absurd (Option.some_inj.mp (here.symm.trans other)).symm unescaped
  | case2 index inside current escape close =>
    have here : input[index]? = some current := getElem?_eq_getElem inside
    refine iff_of_true inside fun cut => ?_
    cases cut with
    | last other | escape other => exact escape (Option.some_inj.mp (here.symm.trans other))
    | plain other _ unclosed =>
      exact unclosed ((Option.some_inj.mp (here.symm.trans other)).symm.trans close)
  | case3 index inside current escape close newline =>
    have here : input[index]? = some current := getElem?_eq_getElem inside
    refine iff_of_true within fun cut => ?_
    cases cut with
    | last other | escape other => exact escape (Option.some_inj.mp (here.symm.trans other))
    | plain other _ _ sameLine =>
      cases Option.some_inj.mp (here.symm.trans other)
      exact absurd newline (Bool.eq_false_iff.mp sameLine)
  | case4 index inside current escape close newline ih =>
    have here : input[index]? = some current := getElem?_eq_getElem inside
    rw [ih inside]
    refine not_congr ⟨.plain here escape close (Bool.eq_false_of_not_eq_true newline), fun cut => ?_⟩
    cases cut with
    | last other | escape other => exact absurd (Option.some_inj.mp (here.symm.trans other)) escape
    | plain _ _ _ _ rest => exact rest
  | case5 index outside =>
    have none : input[index]? = none := getElem?_eq_none (Nat.not_lt.mp outside)
    refine iff_of_true within fun cut => ?_
    cases cut with
    | last other | escape other | plain other => cases none.symm.trans other

theorem skipWhile_le (holds : UInt8 → Bool) (within : index ≤ input.length) :
    skipWhile holds input index ≤ input.length := by
  fun_induction skipWhile holds input index with
  | case1 index inside _ ih => exact ih inside
  | case2 => exact within
  | case3 => exact within

theorem nextToken_le_iff (inside : index < input.length) (byte : UInt8) :
    (nextToken scanners input index byte).2 ≤ input.length ↔
      (isQuote byte = true → ¬ CutOff byte input (index + 1)) := by
  have string : isQuote byte = true → isIdentStart byte = false ∧ isAsciiDigit byte = false := by
    obtain ⟨bits⟩ := byte
    revert bits
    decide +kernel
  unfold nextToken
  cases quoted : isQuote byte with
  | true =>
    rw [(string quoted).1, (string quoted).2]
    exact (scanString_le_iff byte inside).trans ⟨fun uncut _ => uncut, fun uncut => uncut rfl⟩
  | false =>
    refine iff_of_true ?_ nofun
    rw [if_neg Bool.false_ne_true]
    split
    · exact skipWhile_le _ inside
    split
    · exact skipWhile_le _ inside
    split
    next pair =>
      rw [Bool.and_eq_true, decide_eq_true_eq] at pair
      exact pair.1
    next => exact inside

theorem exists_tiles_scan {config : LexerConfig} (emits : config.emitTokens = true)
    (tokenCount : Nat)
    (complete : (scan config input index tokenCount tokens).budgetExceeded = false) :
    ∃ added, (scan config input index tokenCount tokens).tokens = tokens ++ added ∧
      TilesFrom input index added := by
  fun_induction scan config input index tokenCount tokens with
  | case1 => exact absurd complete Bool.noConfusion
  | case2 index tokenCount tokens inside _ space ih =>
    obtain ⟨added, same, tiles⟩ := ih complete
    exact ⟨added, same, .blank inside space tiles⟩
  | case3 index tokenCount tokens inside _ word token ih =>
    have next : counter.next input index = token.2 := by
      show (nextToken scanners input index (input.getD index 0)).2 = _
      rw [getD_eq_getElem _ _ inside]
    obtain ⟨added, same, tiles⟩ := ih complete
    rw [← next] at tiles
    refine ⟨⟨token.1, index, token.2⟩ :: added, ?_,
      next ▸ .token inside (Bool.eq_false_of_not_eq_true word) tiles⟩
    rw [same, pushEmittedToken, if_pos emits, append_assoc, singleton_append]
  | case4 index tokenCount tokens outside =>
    exact ⟨[], (append_nil tokens).symm, .nil (Nat.not_lt.mp outside)⟩

theorem word_of_quote {byte : UInt8} (quoted : isQuote byte = true) :
    isAsciiWhitespace byte = false := by
  obtain ⟨bits⟩ := byte
  revert bits
  decide +kernel

/-- The tokens tile the input exactly if no string is cut off behind a backslash. -/
theorem lex_tiled_iff {config : LexerConfig} (emits : config.emitTokens = true) {input : Bytes}
    {output : LexerOutput} (lexed : ScalarLexer.lex input config = .ok output)
    (complete : output.budgetExceeded = false) :
    Tiled input output.tokens ↔ ∀ position quote, counter.Stands input 0 position →
      input[position]? = some quote → isQuote quote = true →
      ¬ CutOff quote input (position + 1) := by
  unfold ScalarLexer.lex at lexed
  split at lexed
  next => exact absurd lexed nofun
  next =>
    cases lexed
    obtain ⟨added, same, tiles⟩ := exists_tiles_scan emits 0 complete
    rw [same, List.nil_append, tiles.tiled_iff]
    have next {position : Nat} (inside : position < input.length) :
        counter.next input position = (nextToken scanners input position input[position]).2 := by
      rw [← getD_eq_getElem _ 0 inside]
      rfl
    constructor
    · intro within position quote stands found quoted
      obtain ⟨inside, rfl⟩ := List.getElem?_eq_some_iff.mp found
      have bound := within position inside stands (word_of_quote quoted)
      rw [next inside, nextToken_le_iff inside] at bound
      exact bound quoted
    · intro uncut position inside stands _
      rw [next inside, nextToken_le_iff inside]
      exact uncut position _ stands (getElem?_eq_getElem inside)

theorem lex_tiled_iff_backslash :
    let input := [0x27, 0x62, 0x27, 0x5C]
    ∃ output, ScalarLexer.lex input .default = .ok output ∧ output.budgetExceeded = false ∧
      Tiled input output.tokens := by
  intro input
  have lexed : ScalarLexer.lex input .default =
      .ok ⟨.scalar, none, 2, [⟨.stringLiteral, 0, 3⟩, ⟨.punctuation, 3, 4⟩], 4, false⟩ := by
    decide +kernel
  refine ⟨_, lexed, rfl, (lex_tiled_iff rfl lexed rfl).mpr fun position quote stands found quoted => ?_⟩
  have listed : position ∈ [0, 3, 4] := stands.mem_of_closed (by decide +kernel) (by decide)
  have closed : ∀ position ∈ [0, 3, 4], input[position]?.all fun quote =>
      !isQuote quote || decide ((scanString quote input (position + 1)).1 ≤ input.length) := by
    decide +kernel
  have inside := (List.getElem?_eq_some_iff.mp found).1
  have own := closed position listed
  rw [found, Option.all_some, quoted, Bool.not_true, Bool.false_or, decide_eq_true_eq] at own
  exact (scanString_le_iff quote inside).mp own

/-- The string of a quote and a backslash ends one byte behind the input. -/
theorem lex_cut_off_escape :
    ScalarLexer.lex [0x27, 0x5C] .default =
        .ok ⟨.scalar, none, 1, [⟨.unterminatedString, 0, 3⟩], 2, false⟩ ∧
      LexerConfig.default.emitTokens = true ∧
      ¬ Tiled [0x27, 0x5C] [⟨.unterminatedString, 0, 3⟩] := by
  refine ⟨by decide +kernel, rfl, fun tiled => ?_⟩
  exact absurd (tiled.spans _ List.mem_cons_self).2 (by decide)

end FrankenEngine.Lexer
