import FrankenEngine.Lexer.ParserScanner

/-!
# The token counters agree

On ASCII sources the scanner of the parser, its reference and the scalar lexer
find the same identifiers, numbers, strings and operators. They differ in two
points: the table of the scanner takes the vertical tab for white space, and the
lexer does not know template literals. Each such place adds to the larger count,
so the counts agree exactly if there is none.
-/

set_option autoImplicit false

namespace FrankenEngine.Lexer

open Library Utf8BoundarySafeScanner ScalarLexer List

/-!
## Classes
-/

/-- The table agrees with the tests on single bytes, except that the vertical tab is white space. -/
theorem lexHasClass_table (byte : UInt8) :
    lexHasClass lexClassWhitespace byte = (isAsciiWhitespace byte || byte == 0x0B) ∧
      lexHasClass lexClassIdentifierStart byte = isIdentStart byte ∧
      lexHasClass lexClassIdentifierContinue byte = isIdentContinue byte ∧
      lexHasClass lexClassDigit byte = isAsciiDigit byte ∧
      lexHasClass lexClassQuote byte = isQuote byte := by
  obtain ⟨bits⟩ := byte
  revert bits
  decide +kernel

theorem lexHasClass_identifierContinue : lexHasClass lexClassIdentifierContinue = isIdentContinue :=
  funext fun byte => (lexHasClass_table byte).2.2.1

theorem lexHasClass_digit : lexHasClass lexClassDigit = isAsciiDigit :=
  funext fun byte => (lexHasClass_table byte).2.2.2.1

theorem lexHasClass_lead_and (first second : UInt8) (inside : Bool) :
    (lexHasClass lexClassTwoCharOperatorLead first && inside && isTwoCharOperator first second) =
      (inside && isTwoCharOperator first second) := by
  cases operator : isTwoCharOperator first second with
  | false => rw [Bool.and_false, Bool.and_false]
  | true =>
    have lead : lexHasClass lexClassTwoCharOperatorLead first = true := by
      simp only [isTwoCharOperator, contains_eq_mem, decide_eq_true_eq, mem_cons,
        not_mem_nil, or_false, Prod.mk.injEq] at operator
      rcases operator with pair | pair | pair | pair | pair | pair | pair | pair
      all_goals
        rw [pair.1]
        decide
    rw [lead, Bool.true_and]

/-!
## Ends of tokens
-/

def Meets (bytes : Bytes) (left right : Nat) : Prop :=
  left = right ∨ bytes.length ≤ left ∧ bytes.length ≤ right

variable {bytes : Bytes}

theorem TokenCounter.count_of_le (counter : TokenCounter) {index : Nat}
    (outside : bytes.length ≤ index) : counter.count bytes index = 0 := by
  rw [count, dif_neg (Nat.not_lt.mpr outside)]

theorem TokenCounter.count_of_meets (counter : TokenCounter) {left right : Nat}
    (meets : Meets bytes left right) : counter.count bytes left = counter.count bytes right := by
  rcases meets with rfl | ⟨leftEnd, rightEnd⟩
  · rfl
  · rw [counter.count_of_le leftEnd, counter.count_of_le rightEnd]

theorem TokenCounter.count_of_blank (counter : TokenCounter) {index : Nat}
    (inside : index < bytes.length) (blank : counter.blank bytes[index] = true) :
    counter.count bytes index = counter.count bytes (index + 1) := by
  rw [count, dif_pos inside, if_pos blank]

theorem TokenCounter.count_of_word (counter : TokenCounter) {index : Nat}
    (inside : index < bytes.length) (word : counter.blank bytes[index] = false) :
    counter.count bytes index = counter.count bytes (counter.next bytes index) + 1 := by
  rw [count, dif_pos inside, word, if_neg Bool.false_ne_true]

/-!
## Two counters in step
-/

namespace TokenCounter

/-- Two counters count a token alike: for both the byte is blank, or for none of them, and they
find as many tokens behind it. -/
def Alike (left right : TokenCounter) (bytes : Bytes) (index : Nat) (byte : UInt8) : Prop :=
  left.blank byte = right.blank byte ∧ (left.blank byte = false →
    right.count bytes (left.next bytes index) = right.count bytes (right.next bytes index))

/-- The right counter finds what the left one finds: it takes no more bytes for blank, takes those
singly, and from the end of a token of the left counter it counts no less than from its own. -/
structure Refines (left right : TokenCounter) (bytes : Bytes) (index : Nat) (byte : UInt8) :
    Prop where
  blank : right.blank byte = true → left.blank byte = true
  single : left.blank byte = true → right.blank byte = false → right.next bytes index = index + 1
  token : left.blank byte = false →
    right.count bytes (left.next bytes index) ≤ right.count bytes (right.next bytes index)

variable {left right : TokenCounter}

/-- The right count is the larger one, and the counts agree exactly if all tokens are counted
alike. -/
theorem count_le_and_eq_iff (index : Nat)
    (refines : ∀ position (inside : position < bytes.length), left.Stands bytes index position →
      Refines left right bytes position bytes[position]) :
    left.count bytes index ≤ right.count bytes index ∧
      (left.count bytes index = right.count bytes index ↔
        ∀ position (inside : position < bytes.length), left.Stands bytes index position →
          Alike left right bytes position bytes[position]) := by
  fun_induction left.count bytes index with
  | case1 index inside blank ih =>
    obtain ⟨upTo, same⟩ := ih fun position within stands =>
      refines position within (.blank inside blank stands)
    have later : (∀ position (within : position < bytes.length), left.Stands bytes index position →
        Alike left right bytes position bytes[position]) ↔
        Alike left right bytes index bytes[index] ∧
          left.count bytes (index + 1) = right.count bytes (index + 1) := by
      rw [same]
      constructor
      · intro alike
        exact ⟨alike index inside .here, fun position within stands =>
          alike position within (.blank inside blank stands)⟩
      · rintro ⟨here, behind⟩ position within stands
        cases stands with
        | here => exact here
        | blank _ _ rest => exact behind position within rest
        | token _ word => exact absurd blank (Bool.eq_false_iff.mp word)
    rw [later]
    cases own : right.blank bytes[index] with
    | true =>
      rw [right.count_of_blank inside own]
      refine ⟨upTo, iff_and_self.mpr fun _ => ⟨blank.trans own.symm, fun word => ?_⟩⟩
      exact absurd blank (Bool.eq_false_iff.mp word)
    | false =>
      rw [right.count_of_word inside own, (refines index inside .here).single blank own]
      refine ⟨by omega, iff_of_false (by omega) fun alike => ?_⟩
      cases (blank.symm.trans alike.1.1).trans own
  | case2 index inside token ih =>
    have word : left.blank bytes[index] = false := Bool.eq_false_of_not_eq_true token
    obtain ⟨upTo, same⟩ := ih fun position within stands =>
      refines position within (.token inside word stands)
    have here := refines index inside .here
    have own : right.blank bytes[index] = false :=
      Bool.eq_false_of_not_eq_true fun blank => token (here.blank blank)
    have ends := here.token word
    rw [right.count_of_word inside own]
    refine ⟨by omega, ?_⟩
    constructor
    · intro equal position within stands
      cases stands with
      | here => exact ⟨word.trans own.symm, fun _ => by omega⟩
      | blank _ space => exact absurd space token
      | token _ _ rest => exact same.mp (by omega) position within rest
    · intro alike
      have behind := same.mpr fun position within stands =>
        alike position within (.token inside word stands)
      rw [behind, (alike index inside .here).2 word]
  | case3 index outside =>
    rw [right.count_of_le (Nat.not_lt.mp outside)]
    refine ⟨le_rfl, iff_of_true rfl fun position inside stands => ?_⟩
    exact absurd (stands.le.trans_lt inside) outside

end TokenCounter

/-!
## ASCII sources
-/

def AsciiBytes (bytes : Bytes) : Prop := ∀ byte ∈ bytes, isAscii byte = true

variable (ascii : AsciiBytes bytes)

include ascii

theorem AsciiBytes.advance (index : Nat) : advance bytes index = index + 1 := by
  refine if_pos ?_
  rcases Nat.lt_or_ge index bytes.length with inside | outside
  · rw [getD_eq_getElem _ _ inside]
    exact ascii _ (getElem_mem inside)
  · rw [getD_eq_default _ _ outside]
    decide

theorem AsciiBytes.skipEscape {index : Nat} (inside : index < bytes.length) :
    skipEscape bytes index = min (index + 2) bytes.length := by
  rw [Lexer.skipEscape, ascii.advance]
  split <;> omega

theorem AsciiBytes.meets_scanStringLiteral (quote : UInt8) (index : Nat) :
    Meets bytes (scanStringLiteral quote bytes index)
      (scanString quote bytes index).1 := by
  fun_induction scanString quote bytes index with
  | case1 index inside current escape ih =>
    rw [scanStringLiteral, dif_pos inside, if_pos escape, ascii.skipEscape inside]
    rcases Nat.lt_or_ge bytes.length (index + 2) with last | room
    · have outside : ¬ index + 2 < bytes.length := by omega
      rw [Nat.min_eq_right last.le, scanStringLiteral,
        dif_neg (Nat.lt_irrefl _), scanString, dif_neg outside]
      exact .inr ⟨le_rfl, last.le⟩
    · rw [Nat.min_eq_left room]
      exact ih
  | case2 index inside current escape close =>
    rw [scanStringLiteral, dif_pos inside, if_neg escape, if_pos close]
    exact .inl rfl
  | case3 index inside current escape close newline =>
    rw [scanStringLiteral, dif_pos inside, if_neg escape, if_neg close, if_pos newline]
    exact .inl rfl
  | case4 index inside current escape close newline ih =>
    rw [scanStringLiteral, dif_pos inside, if_neg escape, if_neg close,
      if_neg newline, ascii.advance]
    exact ih
  | case5 index outside =>
    rw [scanStringLiteral, dif_neg outside]
    exact .inl rfl

theorem AsciiBytes.scanTemplateLiteral (depth : UInt32) (index : Nat) :
    Utf8BoundarySafeScanner.scanTemplateLiteral bytes depth index =
      ScalarReference.scanTemplate bytes depth index := by
  fun_induction ScalarReference.scanTemplate bytes depth index with
  | case1 depth index inside current escape ih =>
    rw [Utf8BoundarySafeScanner.scanTemplateLiteral, dif_pos inside, if_pos escape,
      ascii.skipEscape inside, ih]
  | case2 depth index inside current escape nested ih =>
    rw [Utf8BoundarySafeScanner.scanTemplateLiteral, dif_pos inside, if_neg escape,
      if_pos nested, ih]
  | case3 depth index inside current escape nested starts ih =>
    rw [Utf8BoundarySafeScanner.scanTemplateLiteral, dif_pos inside, if_neg escape,
      if_neg nested, if_pos starts, ih]
  | case4 depth index inside current escape nested starts close =>
    rw [Utf8BoundarySafeScanner.scanTemplateLiteral, dif_pos inside, if_neg escape,
      if_neg nested, if_neg starts, if_pos close]
  | case5 depth index inside current escape nested starts close ih =>
    rw [Utf8BoundarySafeScanner.scanTemplateLiteral, dif_pos inside, if_neg escape,
      if_neg nested, if_neg starts, if_neg close, ascii.advance, ih]
  | case6 depth index outside =>
    rw [Utf8BoundarySafeScanner.scanTemplateLiteral, dif_neg outside]

/-!
## The scanner and its reference
-/

theorem AsciiBytes.meets_next (index : Nat) :
    Meets bytes (next bytes index) (ScalarReference.next bytes index) := by
  obtain ⟨-, start, -, -, quote⟩ := lexHasClass_table (bytes.getD index 0)
  unfold Utf8BoundarySafeScanner.next ScalarReference.next
  dsimp only
  rw [start, lexHasClass_identifierContinue, lexHasClass_digit, quote, lexHasClass_lead_and,
    ascii.advance, ascii.scanTemplateLiteral]
  split
  · exact .inl rfl
  split
  · exact .inl rfl
  split
  · exact ascii.meets_scanStringLiteral _ (index + 1)
  · exact .inl rfl

omit ascii

theorem blank_scanner_eq_iff {byte : UInt8} :
    lexHasClass lexClassWhitespace byte = isAsciiWhitespace byte ↔ byte ≠ 0x0B := by
  obtain ⟨bits⟩ := byte
  revert bits
  decide +kernel

theorem blank_scanner_of_blank {byte : UInt8} (blank : isAsciiWhitespace byte = true) :
    lexHasClass lexClassWhitespace byte = true := by
  rw [(lexHasClass_table byte).1, blank, Bool.true_or]

theorem ScalarReference.next_of_vertical_tab {index : Nat} (tab : bytes.getD index 0 = 0x0B) :
    ScalarReference.next bytes index = index + 1 := by
  have operator : isTwoCharOperator 0x0B (bytes.getD (index + 1) 0) = false := by
    simp [isTwoCharOperator]
  unfold ScalarReference.next
  dsimp only
  rw [tab, operator, Bool.and_false]
  rfl

theorem AsciiBytes.count_next (ascii : AsciiBytes bytes) (counter : TokenCounter) (index : Nat) :
    counter.count bytes (next bytes index) = counter.count bytes (ScalarReference.next bytes index) :=
  counter.count_of_meets (ascii.meets_next index)

theorem startsWith_iff {counter : TokenCounter} {byte : UInt8} : counter.StartsWith bytes byte ↔
    ∃ position, ∃ inside : position < bytes.length, counter.Stands bytes 0 position ∧
      bytes[position] = byte := by
  constructor
  · rintro ⟨position, stands, found⟩
    obtain ⟨inside, same⟩ := List.getElem?_eq_some_iff.mp found
    exact ⟨position, inside, stands, same⟩
  · rintro ⟨position, inside, stands, same⟩
    exact ⟨position, stands, List.getElem?_eq_some_iff.mpr ⟨inside, same⟩⟩

/-- The assertion in `count_lexical_tokens` holds for an ASCII source exactly if no vertical tab
stands where a token starts. -/
theorem countLexicalTokens_eq_reference_iff {bytes : Bytes} (ascii : AsciiBytes bytes) :
    countLexicalTokens bytes = countLexicalTokensScalarReference bytes ↔
      ¬ Utf8BoundarySafeScanner.counter.StartsWith bytes 0x0B := by
  have ends := ascii.count_next ScalarReference.counter
  refine (TokenCounter.count_le_and_eq_iff 0 fun position inside _ => ?_).2.trans ?_
  · refine ⟨blank_scanner_of_blank, fun blank word => ?_, fun _ => (ends position).le⟩
    refine ScalarReference.next_of_vertical_tab ?_
    by_contra other
    rw [getD_eq_getElem _ _ inside] at other
    cases (blank.symm.trans (blank_scanner_eq_iff.mpr other)).trans word
  · rw [startsWith_iff]
    constructor
    · rintro alike ⟨position, inside, stands, tab⟩
      exact blank_scanner_eq_iff.mp (alike position inside stands).1 tab
    · intro clean position inside stands
      refine ⟨blank_scanner_eq_iff.mpr fun tab => clean ⟨position, inside, stands, tab⟩, ?_⟩
      exact fun _ => ends position

instance (bytes : Bytes) : Decidable (AsciiBytes bytes) :=
  inferInstanceAs (Decidable (∀ byte ∈ bytes, isAscii byte = true))

theorem countLexicalTokens_eq_reference_iff_quoted :
    let bytes := utf8 "x = '\x0b'"
    AsciiBytes bytes ∧ countLexicalTokens bytes = countLexicalTokensScalarReference bytes ∧
      ¬ Utf8BoundarySafeScanner.counter.StartsWith bytes 0x0B := by
  intro bytes
  have ascii : AsciiBytes bytes := by decide +kernel
  have same : countLexicalTokens bytes = countLexicalTokensScalarReference bytes := by
    decide +kernel
  exact ⟨ascii, same, (countLexicalTokens_eq_reference_iff ascii).mp same⟩

/-- A vertical tab is white space for the scanner and a token for the reference. -/
theorem countLexicalTokens_vertical_tab :
    AsciiBytes [0x0B] ∧ countLexicalTokens [0x0B] = 0 ∧
      countLexicalTokensScalarReference [0x0B] = 1 := by
  decide +kernel

/-!
## The scanner and the scalar lexer
-/

theorem ScalarLexer.tokenCount_scan {config : LexerConfig} {input : Bytes} {index tokenCount : Nat}
    (tokens : List Token)
    (enough : tokenCount + counter.count input index ≤ config.maxTokens ∨
      (scan config input index tokenCount tokens).budgetExceeded = false) :
    (scan config input index tokenCount tokens).tokenCount =
      tokenCount + counter.count input index := by
  fun_induction scan config input index tokenCount tokens with
  | case1 index tokenCount tokens inside exceeded =>
    have within := enough.resolve_right nofun
    show tokenCount = _
    omega
  | case2 index tokenCount tokens inside budget blank ih =>
    have count := counter.count_of_blank inside blank
    rw [count] at enough ⊢
    exact ih enough
  | case3 index tokenCount tokens inside budget word token ih =>
    have count : counter.count input index = counter.count input token.2 + 1 := by
      rw [counter.count_of_word inside (Bool.eq_false_of_not_eq_true word)]
      show counter.count input (nextToken _ input index (input.getD index 0)).2 + 1 = _
      rw [getD_eq_getElem _ _ inside]
    rw [ih (enough.imp_left (by omega))]
    omega
  | case4 index tokenCount tokens outside =>
    rw [TokenCounter.count_of_le _ (Nat.not_lt.mp outside)]
    rfl

theorem ScalarLexer.counter_next {index : Nat} (plain : bytes.getD index 0 ≠ backtick) :
    counter.next bytes index = ScalarReference.next bytes index := by
  show (nextToken scanners bytes index (bytes.getD index 0)).2 = _
  unfold nextToken ScalarReference.next
  dsimp only
  repeat' split
  all_goals rfl

theorem ScalarLexer.counter_next_backtick {index : Nat} (template : bytes.getD index 0 = backtick) :
    counter.next bytes index = index + 1 := by
  have operator : isTwoCharOperator backtick (bytes.getD (index + 1) 0) = false := by
    simp [isTwoCharOperator, backtick]
  show (nextToken scanners bytes index (bytes.getD index 0)).2 = _
  rw [template, nextToken, operator, Bool.and_false]
  rfl

theorem ScalarReference.scanTemplate_closed {depth : UInt32} {index : Nat}
    (closed : scanTemplate bytes depth index < bytes.length) :
    ∃ last, index ≤ last ∧ scanTemplate bytes depth index = last + 1 ∧
      bytes[last]? = some backtick := by
  fun_induction scanTemplate bytes depth index with
  | case1 depth index inside _ _ ih =>
    obtain ⟨last, behind, found⟩ := ih closed
    exact ⟨last, by omega, found⟩
  | case2 depth index _ _ _ _ ih | case5 depth index _ _ _ _ _ _ ih =>
    obtain ⟨last, behind, found⟩ := ih closed
    exact ⟨last, by omega, found⟩
  | case3 depth index _ _ _ _ _ ih =>
    obtain ⟨last, behind, found⟩ := ih closed
    exact ⟨last, by omega, found⟩
  | case4 depth index inside current _ _ _ close =>
    exact ⟨index, le_rfl, rfl, (getElem?_eq_getElem inside).trans (congrArg some close)⟩
  | case6 depth index outside => exact absurd closed outside

/-- Nothing but white space behind a position. -/
def OnlyBlanksBehind (bytes : Bytes) (position : Nat) : Prop :=
  ∀ later (inside : later < bytes.length), position < later → isAsciiWhitespace bytes[later] = true

theorem OnlyBlanksBehind.count_eq_zero {position : Nat} (blanks : OnlyBlanksBehind bytes position)
    {index : Nat} (behind : position < index) : ScalarLexer.counter.count bytes index = 0 := by
  fun_induction ScalarLexer.counter.count bytes index with
  | case1 index inside blank ih => exact ih (by omega)
  | case2 index inside word => exact absurd (blanks index inside behind) word
  | case3 => rfl

theorem TokenCounter.Stands.count_le {counter : TokenCounter} {index position : Nat}
    (stands : counter.Stands bytes index position) :
    counter.count bytes position ≤ counter.count bytes index ∧
      (counter.count bytes position = counter.count bytes index →
        ∀ between (inside : between < bytes.length), index ≤ between → between < position →
          counter.blank bytes[between] = true) := by
  induction stands with
  | here => exact ⟨le_rfl, fun _ between _ after before => by omega⟩
  | @blank index position inside space rest ih =>
    rw [counter.count_of_blank inside space]
    refine ⟨ih.1, fun same between within after before => ?_⟩
    rcases Nat.eq_or_lt_of_le after with rfl | later
    · exact space
    · exact ih.2 same between within later before
  | token inside word rest ih =>
    rw [counter.count_of_word inside word]
    exact ⟨by omega, fun same => by omega⟩

/-- Behind the backtick of a template, the lexer comes to stand where the template ends: no string
that is opened inside of it runs over its end. -/
def TemplatesInStep (bytes : Bytes) : Prop :=
  ∀ position, Utf8BoundarySafeScanner.counter.Stands bytes 0 position →
    bytes[position]? = some backtick →
    ScalarLexer.counter.Stands bytes (position + 1) (Utf8BoundarySafeScanner.next bytes position)

/-- A token starts neither with a vertical tab nor, unless only white space follows, with a
backtick. -/
def CountedAlike (bytes : Bytes) : Prop :=
  ∀ position byte, Utf8BoundarySafeScanner.counter.Stands bytes 0 position →
    bytes[position]? = some byte →
    byte ≠ 0x0B ∧ (byte = backtick → OnlyBlanksBehind bytes position)

section Tokens

variable {position : Nat} (inside : position < bytes.length)

include inside

theorem AsciiBytes.next_backtick (ascii : AsciiBytes bytes) (template : bytes[position] = backtick) :
    Utf8BoundarySafeScanner.next bytes position =
      ScalarReference.scanTemplate bytes 0 (position + 1) := by
  unfold Utf8BoundarySafeScanner.next
  dsimp only
  rw [getD_eq_getElem _ _ inside, template, ascii.scanTemplateLiteral]
  rfl

theorem onlyBlanksBehind_of_count (ascii : AsciiBytes bytes)
    (template : bytes[position] = backtick)
    (inStep : ScalarLexer.counter.Stands bytes (position + 1)
      (Utf8BoundarySafeScanner.next bytes position))
    (same : ScalarLexer.counter.count bytes (Utf8BoundarySafeScanner.next bytes position) =
      ScalarLexer.counter.count bytes (position + 1)) : OnlyBlanksBehind bytes position := by
  have blanks := inStep.count_le.2 same
  intro later within behind
  refine blanks later within behind (Nat.lt_of_not_le fun beyond => ?_)
  rw [ascii.next_backtick inside template] at blanks beyond
  obtain ⟨last, after, stop, close⟩ :=
    ScalarReference.scanTemplate_closed (beyond.trans_lt within)
  obtain ⟨held, found⟩ := List.getElem?_eq_some_iff.mp close
  have blank := blanks last held after (by omega)
  rw [found] at blank
  cases blank

theorem refines_scalarLexer (ascii : AsciiBytes bytes) (template : bytes[position] = backtick →
      ScalarLexer.counter.count bytes (Utf8BoundarySafeScanner.next bytes position) ≤
        ScalarLexer.counter.count bytes (position + 1)) :
    TokenCounter.Refines Utf8BoundarySafeScanner.counter ScalarLexer.counter bytes position
      bytes[position] := by
  refine ⟨blank_scanner_of_blank, fun blank word => ?_, fun _ => ?_⟩
  · have tab : bytes[position] = 0x0B := by
      by_contra other
      cases (blank.symm.trans (blank_scanner_eq_iff.mpr other)).trans word
    have read : bytes.getD position 0 = 0x0B := (getD_eq_getElem _ _ inside).trans tab
    rw [ScalarLexer.counter_next (by rw [read]; decide), ScalarReference.next_of_vertical_tab read]
  · by_cases isTemplate : bytes[position] = backtick
    · rw [ScalarLexer.counter_next_backtick ((getD_eq_getElem _ _ inside).trans isTemplate)]
      exact template isTemplate
    · rw [ScalarLexer.counter_next (by rwa [getD_eq_getElem _ _ inside])]
      exact (ascii.count_next _ position).le

end Tokens

theorem count_of_countedAlike (ascii : AsciiBytes bytes) (alike : CountedAlike bytes) :
    ScalarLexer.counter.count bytes 0 = countLexicalTokens bytes := by
  have lone {position : Nat} (inside : position < bytes.length)
      (stands : Utf8BoundarySafeScanner.counter.Stands bytes 0 position)
      (template : bytes[position] = backtick) : OnlyBlanksBehind bytes position :=
    (alike position _ stands (getElem?_eq_getElem inside)).2 template
  refine ((TokenCounter.count_le_and_eq_iff 0 fun position inside stands => ?_).2.mpr
    fun position inside stands => ⟨?_, fun _ => ?_⟩).symm
  · refine refines_scalarLexer inside ascii fun template => ?_
    rw [(lone inside stands template).count_eq_zero (Utf8BoundarySafeScanner.lt_next bytes position)]
    exact Nat.zero_le _
  · exact blank_scanner_eq_iff.mpr (alike position _ stands (getElem?_eq_getElem inside)).1
  · by_cases template : bytes[position] = backtick
    · have blanks := lone inside stands template
      rw [blanks.count_eq_zero (TokenCounter.lt_next _ bytes position),
        blanks.count_eq_zero (TokenCounter.lt_next _ bytes position)]
    · rw [ScalarLexer.counter_next (by rwa [getD_eq_getElem _ _ inside])]
      exact ascii.count_next _ position

theorem countedAlike_of_count (ascii : AsciiBytes bytes) (inStep : TemplatesInStep bytes)
    (same : ScalarLexer.counter.count bytes 0 = countLexicalTokens bytes) : CountedAlike bytes := by
  have alike := (TokenCounter.count_le_and_eq_iff 0 fun position inside stands =>
    refines_scalarLexer inside ascii fun template => (inStep position stands
      ((getElem?_eq_getElem inside).trans (congrArg some template))).count_le.1).2.mp same.symm
  intro position byte stands found
  obtain ⟨inside, rfl⟩ := List.getElem?_eq_some_iff.mp found
  obtain ⟨blank, behind⟩ := alike position inside stands
  refine ⟨blank_scanner_eq_iff.mp blank, fun template => ?_⟩
  have word : Utf8BoundarySafeScanner.counter.blank bytes[position] = false := by
    rw [template]
    decide
  have equal := behind word
  rw [ScalarLexer.counter_next_backtick ((getD_eq_getElem _ _ inside).trans template)] at equal
  exact onlyBlanksBehind_of_count inside ascii template
    (inStep position stands (found.trans (congrArg some template))) equal

/-- With budgets that suffice, the lexer and the parser count the same tokens in an ASCII source if
no token starts with a vertical tab or a template; and only then, unless a string that is opened
in a template runs over its end, which can make up for the tokens inside. -/
theorem tokenCount_eq_countLexicalTokens {bytes : Bytes} (ascii : AsciiBytes bytes)
    {config : LexerConfig} (fits : bytes.length ≤ config.maxSourceBytes)
    (within : countLexicalTokens bytes ≤ config.maxTokens) :
    ∃ output, ScalarLexer.lex bytes config = .ok output ∧
      (CountedAlike bytes → output.tokenCount = countLexicalTokens bytes) ∧
      (TemplatesInStep bytes → output.budgetExceeded = false →
        (output.tokenCount = countLexicalTokens bytes ↔ CountedAlike bytes)) := by
  have enough (alike : CountedAlike bytes) :
      (ScalarLexer.scan config bytes 0 0 []).tokenCount = countLexicalTokens bytes := by
    have same := count_of_countedAlike ascii alike
    rw [ScalarLexer.tokenCount_scan [] (.inl (by omega)), same, Nat.zero_add]
  refine ⟨_, if_neg (Nat.not_lt.mpr fits), enough, fun inStep complete => ⟨fun same => ?_, enough⟩⟩
  rw [ScalarLexer.tokenCount_scan [] (.inr complete), Nat.zero_add] at same
  exact countedAlike_of_count ascii inStep same

theorem tokenCount_eq_countLexicalTokens_quoted :
    let bytes := utf8 "'`\x0b';"
    CountedAlike bytes ∧ ∃ output, ScalarLexer.lex bytes .default = .ok output ∧
      output.tokenCount = countLexicalTokens bytes := by
  intro bytes
  have plain : ∀ position ∈ [0, 4, 5],
      bytes[position]?.all (fun byte => byte != 0x0B && byte != backtick) := by
    decide +kernel
  have alike : CountedAlike bytes := by
    intro position byte stands found
    have listed : position ∈ [0, 4, 5] := stands.mem_of_closed (by decide +kernel) (by decide)
    have other := plain position listed
    rw [found, Option.all_some, Bool.and_eq_true, bne_iff_ne, bne_iff_ne] at other
    exact ⟨other.1, fun template => absurd template other.2⟩
  have fits : bytes.length ≤ LexerConfig.default.maxSourceBytes := by decide +kernel
  obtain ⟨output, lexed, same, -⟩ := tokenCount_eq_countLexicalTokens
    (by decide +kernel) fits (by decide +kernel)
  exact ⟨alike, output, lexed, same alike⟩

/-- A template literal is one token for the parser, and five for the lexer here. -/
theorem tokenCount_template :
    AsciiBytes (utf8 "`a b c`") ∧ countLexicalTokens (utf8 "`a b c`") = 1 ∧
      (ScalarLexer.lex (utf8 "`a b c`") .default).map (·.tokenCount) = .ok 5 := by
  decide +kernel

end FrankenEngine.Lexer
