import FrankenEngine.Lexer.SimdLexer
import Mathlib.Data.List.GetD
import Mathlib.Data.List.TakeWhile

/-!
# Parity of the lexers

The mask for one byte marks exactly the lanes that hold it. The masks for ranges
may miss lanes above one that borrows, but they mark no lane outside the range.
Where the masks agree with the classes of single bytes, both lexers find the same
tokens. The mask for white space also takes the vertical tab, which is a token of
its own for the scalar lexer: once a word of white space holds one, the scalar
lexer has counted more tokens and is never met again.
-/

set_option autoImplicit false

namespace FrankenEngine.Lexer

open Library

section Masks

open List Bool

variable {index : Nat}

variable (inside : index < 8)

include inside

theorem lane_broadcast (byte : UInt8) : lane (broadcast byte) index = byte := by
  have bytes : broadcast byte = fromLeBytes (replicate 8 byte) := by
    apply UInt64.toNat_inj.mp
    rw [broadcast, UInt64.toNat_mul, UInt8.toNat_toUInt64, fromLeBytes, UInt64.toNat_ofNat']
    simp only [replicate, leValue]
    congr 1
    show 0x0101010101010101 * byte.toNat = _
    omega
  rw [bytes, lane_fromLeBytes inside, getD_eq_getElem?_getD,
    getElem?_replicate_of_lt inside, Option.getD_some]

theorem marked_highBits : marked highBits index = true := by
  interval_cases index <;> rfl

/-!
## One byte
-/

theorem lane_lowMask : lane (~~~highBits) index = 0x7F := by
  interval_cases index <;> rfl

theorem lane_add_lowMask (word : UInt64) :
    lane ((word &&& ~~~highBits) + ~~~highBits) index = (lane word index &&& 0x7F) + 0x7F := by
  have fits : (word &&& ~~~highBits).toNat % 2 ^ (8 * index) +
      (~~~highBits).toNat % 2 ^ (8 * index) < 2 ^ (8 * index) := by
    have masked : (word &&& ~~~highBits).toNat % 2 ^ (8 * index) ≤
        (~~~highBits).toNat % 2 ^ (8 * index) := by
      rw [UInt64.toNat_and, Nat.and_mod_two_pow]
      exact Nat.and_le_right
    have half : 2 * ((~~~highBits).toNat % 2 ^ (8 * index)) < 2 ^ (8 * index) := by
      interval_cases index <;> decide
    omega
  rw [lane_add inside, if_neg (Nat.not_le.mpr fits), lane_and, lane_lowMask inside, UInt8.add_zero]

theorem marked_byteEqMask (word : UInt64) (target : UInt8) :
    marked (byteEqMask word target) index = decide (lane word index = target) := by
  have byte : ∀ difference : BitVec 8,
      (!((difference &&& 0x7F) + 0x7F).getLsbD 7 && !difference.getLsbD 7) =
        decide (difference = 0) := by
    decide
  have same : (lane word index ^^^ target).toBitVec = 0#8 ↔ lane word index = target := by
    rw [UInt8.toBitVec_xor, BitVec.xor_eq_zero_iff, UInt8.toBitVec_inj]
  simp only [byteEqMask, marked_and, marked_not inside, marked_highBits inside, Bool.and_true]
  rw [marked_eq, marked_eq, lane_add_lowMask inside, lane_xor, lane_broadcast inside]
  exact (byte _).trans (decide_eq_decide.mpr same)

/-!
## Ranges
-/

omit inside

def nonNegative (left right : BitVec 8) (borrow : Bool) : Bool :=
  !(left - right - if borrow then 1 else 0).getLsbD 7

variable (inside : index < 8)

include inside

theorem exists_marked_not_sub (left right : UInt64) :
    ∃ borrow, marked (~~~(left - right) &&& highBits) index =
      nonNegative (lane left index).toBitVec (lane right index).toBitVec borrow := by
  obtain ⟨borrow, difference⟩ := exists_lane_sub inside left right
  refine ⟨borrow, ?_⟩
  rw [marked_and, marked_highBits inside, Bool.and_true, marked_not inside, marked_eq, difference,
    nonNegative]
  cases borrow <;> rfl

theorem isAsciiDigit_of_marked {word : UInt64} (mark : marked (digitMask word) index = true) :
    isAsciiDigit (lane word index) = true := by
  have byte : ∀ (held : BitVec 8) (low high : Bool), nonNegative held 0x30 low = true →
      nonNegative 0x39 held high = true → isAsciiDigit ⟨held⟩ = true := by
    decide +kernel
  obtain ⟨low, above⟩ := exists_marked_not_sub inside word 0x3030303030303030
  obtain ⟨high, below⟩ := exists_marked_not_sub inside 0x3939393939393939 word
  have lowLane : lane 0x3030303030303030 index = 0x30 := by interval_cases index <;> rfl
  have highLane : lane 0x3939393939393939 index = 0x39 := by interval_cases index <;> rfl
  rw [digitMask, marked_and, above, below, lowLane, highLane, and_eq_true] at mark
  exact byte _ low high mark.1 mark.2

theorem isAsciiAlphabetic_of_marked {word : UInt64} (mark : marked (alphaMask word) index = true) :
    isAsciiAlphabetic (lane word index) = true := by
  have byte : ∀ (held : BitVec 8) (low high : Bool), nonNegative (held &&& ~~~0x20) 0x41 low = true →
      nonNegative 0x5A (held &&& ~~~0x20) high = true → isAsciiAlphabetic ⟨held⟩ = true := by
    decide +kernel
  have upper : lane (word &&& ~~~broadcast 0x20) index = lane word index &&& ~~~0x20 := by
    rw [lane_and]
    congr 1
    interval_cases index <;> rfl
  obtain ⟨low, above⟩ :=
    exists_marked_not_sub inside (word &&& ~~~broadcast 0x20) (broadcast 0x41)
  obtain ⟨high, below⟩ :=
    exists_marked_not_sub inside (broadcast 0x5A) (word &&& ~~~broadcast 0x20)
  simp only [alphaMask, marked_and _ _ index] at mark above below
  rw [upper, lane_broadcast inside] at above below
  rw [above, below, and_eq_true] at mark
  exact byte _ low high mark.1 mark.2

/-!
## Classes of bytes
-/

theorem isIdentContinue_of_marked {word : UInt64}
    (mark : marked (identifierContinueMask word) index = true) :
    isIdentContinue (lane word index) = true := by
  simp only [identifierContinueMask, marked_or, marked_byteEqMask inside, or_eq_true,
    decide_eq_true_eq] at mark
  simp only [isIdentContinue, or_eq_true, beq_iff_eq]
  rcases mark with ((alpha | digit) | underscore) | dollar
  · exact .inl (.inl (.inl (isAsciiAlphabetic_of_marked inside alpha)))
  · exact .inl (.inl (.inr (isAsciiDigit_of_marked inside digit)))
  · exact .inl (.inr underscore)
  · exact .inr dollar

theorem marked_whitespaceMask (word : UInt64) : marked (whitespaceMask word) index =
      (isAsciiWhitespace (lane word index) || decide (lane word index = 0x0B)) := by
  simp only [whitespaceMask, marked_or, marked_byteEqMask inside, isAsciiWhitespace, beq_eq_decide_eq]
  ac_rfl

omit inside

def isPlain (quote byte : UInt8) : Bool :=
  byte ≠ backslash && byte ≠ quote && !isNewline byte

theorem marked_interestingMask (inside : index < 8) (quote : UInt8) (word : UInt64) :
    marked (interestingMask quote word) index = !isPlain quote (lane word index) := by
  simp only [interestingMask, marked_or, marked_byteEqMask inside, isPlain, isNewline,
    beq_eq_decide_eq]
  by_cases escape : lane word index = backslash <;> by_cases close : lane word index = quote <;>
    simp [escape, close]

/-!
## Marked lanes at the beginning
-/

theorem marked_iff_and_ne_zero (inside : index < 8) (mask : UInt64) :
    marked mask index = true ↔ mask &&& (0x80 <<< UInt64.ofNat (index * 8)) ≠ 0 := by
  have single : (0x80 <<< UInt64.ofNat (index * 8) : UInt64).toBitVec =
      BitVec.twoPow 64 (8 * index + 7) := by
    interval_cases index <;> rfl
  have set : BitVec.twoPow 64 (8 * index + 7) ≠ 0#64 := by
    interval_cases index <;> decide
  rw [Ne, ← UInt64.toBitVec_inj, UInt64.toBitVec_and, single, BitVec.and_twoPow, marked]
  cases mask.toBitVec.getLsbD (8 * index + 7)
  · simp
  · exact iff_of_true rfl set

theorem marked_of_lt_matchPrefixLen {mask : UInt64} (before : index < matchPrefixLen mask) :
    index < 8 ∧ marked mask index = true := by
  have start := takeWhile_prefix (l := range swarWidth) fun count =>
    decide (mask &&& (0x80 <<< UInt64.ofNat (count * 8)) ≠ 0)
  have inside : index < 8 := before.trans_le (start.length_le.trans_eq length_range)
  have nonzero := mem_takeWhile_imp (getElem_mem before)
  rw [start.getElem before, getElem_range, decide_eq_true_eq] at nonzero
  exact ⟨inside, (marked_iff_and_ne_zero inside mask).mpr nonzero⟩

theorem not_marked_of_lt_maskFirstSet {mask : UInt64} (before : index < maskFirstSet mask) :
    index < 8 ∧ marked mask index = false := by
  unfold maskFirstSet at before
  split at before
  next none => exact ⟨before, none ▸ BitVec.getLsbD_zero⟩
  next some =>
    have low : 8 * index + 7 < mask.toBitVec.ctz.toNat := by omega
    have bounded : mask.toBitVec.ctz.toNat < 64 :=
      BitVec.ctz_lt_iff_ne_zero.mpr fun zero => some (UInt64.toBitVec_inj.mp zero)
    exact ⟨by omega, BitVec.getLsbD_false_of_lt_ctz low⟩

theorem lane_readU64Le (inside : index < 8) (input : Bytes) (offset : Nat) :
    lane (readU64Le input offset) index = input.getD (offset + index) 0 := by
  rw [readU64Le, lane_fromLeBytes inside, getD_eq_getElem?_getD, getElem?_take_of_lt inside,
    getElem?_drop, getD_eq_getElem?_getD]

end Masks

open ScalarLexer

/-!
## Runs
-/

def Run (holds : UInt8 → Bool) (input : Bytes) (index stop : Nat) : Prop :=
  ∀ position, index ≤ position → position < stop →
    ∃ inside : position < input.length, holds input[position] = true

variable {holds : UInt8 → Bool} {input : Bytes} {index stop : Nat}

theorem Run.tail (run : Run holds input index stop) : Run holds input (index + 1) stop :=
  fun position after => run position (Nat.le_of_succ_le after)

theorem Run.append {middle : Nat} (first : Run holds input index middle)
    (second : Run holds input middle stop) : Run holds input index stop := by
  intro position after before
  rcases Nat.lt_or_ge position middle with left | right
  · exact first position after left
  · exact second position right before

theorem run_self (holds : UInt8 → Bool) (input : Bytes) (index : Nat) :
    Run holds input index index :=
  fun _ after before => absurd before (Nat.not_lt.mpr after)

theorem run_skipWhile (holds : UInt8 → Bool) (input : Bytes) (index : Nat) :
    Run holds input index (skipWhile holds input index) := by
  fun_induction skipWhile holds input index with
  | case1 index inside held ih =>
    intro position after before
    rcases Nat.eq_or_lt_of_le after with rfl | later
    · exact ⟨inside, held⟩
    · exact ih position later before
  | case2 index | case3 index => exact run_self holds input index

theorem skipWhile_of_run (le : index ≤ stop) (run : Run holds input index stop) :
    skipWhile holds input index = skipWhile holds input stop := by
  obtain ⟨count, rfl⟩ := Nat.exists_eq_add_of_le le
  induction count generalizing index with
  | zero => rfl
  | succ count ih =>
    obtain ⟨inside, held⟩ := run index le_rfl (by omega)
    have next : index + (count + 1) = index + 1 + count := by omega
    rw [skipWhile, dif_pos inside, if_pos held, next]
    exact ih (by omega) (next ▸ run.tail)

theorem scanString_of_run {quote : UInt8} (le : index ≤ stop)
    (run : Run (isPlain quote) input index stop) :
    scanString quote input index = scanString quote input stop := by
  obtain ⟨count, rfl⟩ := Nat.exists_eq_add_of_le le
  induction count generalizing index with
  | zero => rfl
  | succ count ih =>
    obtain ⟨inside, plain⟩ := run index le_rfl (by omega)
    have next : index + (count + 1) = index + 1 + count := by omega
    simp only [isPlain, Bool.and_eq_true, decide_eq_true_eq, Bool.not_eq_true'] at plain
    obtain ⟨⟨escape, close⟩, newline⟩ := plain
    rw [scanString, dif_pos inside, if_neg escape, if_neg close, newline,
      if_neg Bool.false_ne_true, next]
    exact ih (by omega) (next ▸ run.tail)

/-!
## Words
-/

theorem run_of_lanes {count : Nat} (fits : index + swarWidth ≤ input.length)
    (lanes : ∀ position < count,
      position < 8 ∧ holds (lane (readU64Le input index) position) = true) :
    Run holds input index (index + count) := by
  intro position after before
  have behind : position - index < count := by omega
  obtain ⟨width, held⟩ := lanes _ behind
  have position' : index + (position - index) = position := by omega
  have inside : position < input.length := by
    have eight : swarWidth = 8 := rfl
    omega
  rw [lane_readU64Le width, position', List.getD_eq_getElem _ _ inside] at held
  exact ⟨inside, held⟩

def Sound (mask : UInt64 → UInt64) (holds : UInt8 → Bool) (input : Bytes) : Prop :=
  ∀ index position, index + swarWidth ≤ input.length → position < 8 →
    marked (mask (readU64Le input index)) position = true →
    holds (lane (readU64Le input index) position) = true

theorem run_skipWords {mask : UInt64 → UInt64} (sound : Sound mask holds input) (index : Nat) :
    Run holds input index (skipWords mask input index) := by
  fun_induction skipWords mask input index with
  | case1 index fits marks all ih =>
    refine Run.append (run_of_lanes fits fun position inside => ⟨inside, ?_⟩) ih
    have mark : marked marks position = true := by
      rw [all]
      exact marked_highBits inside
    exact sound index position fits inside mark
  | case2 index fits marks mixed =>
    refine run_of_lanes fits fun position before => ?_
    obtain ⟨inside, mark⟩ := marked_of_lt_matchPrefixLen before
    exact ⟨inside, sound index position fits inside mark⟩
  | case3 index => exact run_self holds input index

theorem skipMasked_eq {mask : UInt64 → UInt64} (sound : Sound mask holds input) (index : Nat) :
    skipMasked mask holds input index = skipWhile holds input index :=
  (skipWhile_of_run (le_skipWords mask input index) (run_skipWords sound index)).symm

theorem run_skipPlain (quote : UInt8) (input : Bytes) (index : Nat) :
    Run (isPlain quote) input index (skipPlain quote input index) := by
  have plain : ∀ {word : UInt64} {position : Nat} (inside : position < 8),
      marked (interestingMask quote word) position = false →
      isPlain quote (lane word position) = true := by
    intro word position inside unmarked
    rw [marked_interestingMask inside] at unmarked
    exact Bool.not_eq_false' .. |>.mp unmarked
  fun_induction skipPlain quote input index with
  | case1 index fits interesting none ih =>
    refine Run.append (run_of_lanes fits fun position inside => ⟨inside, plain inside ?_⟩) ih
    show marked interesting position = false
    rw [none]
    exact BitVec.getLsbD_zero
  | case2 index fits interesting some =>
    refine run_of_lanes fits fun position before => ?_
    obtain ⟨inside, unmarked⟩ := not_marked_of_lt_maskFirstSet before
    exact ⟨inside, plain inside unmarked⟩
  | case3 index => exact run_self (isPlain quote) input index

/-!
## Tokens
-/

theorem nextToken_swar (input : Bytes) (index : Nat) (byte : UInt8) :
    nextToken SwarLexer.scanners input index byte =
      nextToken scanners input index byte := by
  have identifier : SwarLexer.scanners.identifier input (index + 1) =
      scanners.identifier input (index + 1) :=
    skipMasked_eq (fun _ _ _ inside mark => isIdentContinue_of_marked inside mark) _
  have digits : SwarLexer.scanners.digits input (index + 1) =
      scanners.digits input (index + 1) :=
    skipMasked_eq (fun _ _ _ inside mark => isAsciiDigit_of_marked inside mark) _
  have string : SwarLexer.scanners.string byte input (index + 1) =
      scanners.string byte input (index + 1) :=
    (scanString_of_run (le_skipPlain byte input _) (run_skipPlain byte input _)).symm
  rw [nextToken, identifier, digits, string, nextToken]

/-- The words from an index on that the fast lexer takes for white space hold a vertical tab. -/
def PassesTab (input : Bytes) (index : Nat) : Prop :=
  ∃ position, index ≤ position ∧ position < skipWords whitespaceMask input index ∧
    input[position]? = some 0x0B

def isBlankOrTab (byte : UInt8) : Bool := isAsciiWhitespace byte || decide (byte = 0x0B)

theorem run_skipWords_whitespace (input : Bytes) (index : Nat) :
    Run isBlankOrTab input index (skipWords whitespaceMask input index) := by
  refine run_skipWords (fun index position _ inside mark => ?_) index
  rwa [marked_whitespaceMask inside] at mark

theorem skipMasked_whitespace (clean : ¬ PassesTab input index) :
    skipMasked whitespaceMask isAsciiWhitespace input index =
      skipWhile isAsciiWhitespace input index := by
  refine (skipWhile_of_run (le_skipWords _ input index) fun position after before => ?_).symm
  obtain ⟨inside, held⟩ := run_skipWords_whitespace input index position after before
  rw [isBlankOrTab, Bool.or_eq_true, decide_eq_true_eq] at held
  refine ⟨inside, held.resolve_right fun tab => clean ⟨position, after, before, ?_⟩⟩
  exact (List.getElem?_eq_getElem inside).trans (congrArg some tab)

theorem run_skipMasked_whitespace (input : Bytes) (index : Nat) :
    Run isBlankOrTab input index (skipMasked whitespaceMask isAsciiWhitespace input index) := by
  refine (run_skipWords_whitespace input index).append fun position after before => ?_
  obtain ⟨inside, held⟩ := run_skipWhile isAsciiWhitespace input _ position after before
  exact ⟨inside, Bool.or_eq_true_iff.mpr (.inl held)⟩

/-!
## The lexers
-/

def LexerOutput.stream (output : LexerOutput) : List Token × Nat × Nat × Bool :=
  (output.tokens, output.tokenCount, output.bytesScanned, output.budgetExceeded)

theorem ScalarLexer.scan_skipWhile {config : LexerConfig} {tokenCount : Nat}
    (within : tokenCount < config.maxTokens) (input : Bytes) (index : Nat) (tokens : List Token) :
    scan config input index tokenCount tokens =
      scan config input (skipWhile isAsciiWhitespace input index) tokenCount tokens := by
  fun_induction skipWhile isAsciiWhitespace input index with
  | case1 index inside blank ih =>
    rw [scan, dif_pos inside, if_neg (Nat.not_le.mpr within), if_pos blank, ih]
  | case2 => rfl
  | case3 => rfl

theorem skipWhile_stops {start : Nat} (here : start = skipWhile holds input index)
    (inside : start < input.length) : holds input[start] = false := by
  subst here
  fun_induction skipWhile holds input index with
  | case1 index _ _ ih => exact ih inside
  | case2 index _ stops => exact Bool.eq_false_of_not_eq_true stops
  | case3 index outside => exact absurd inside outside

/-- Where the lexers go on behind a token, and how many tokens there are before. -/
inductive Rounds (input : Bytes) : Nat → Nat → Nat → Nat → Prop where
  | here {index count : Nat} : Rounds input index count index count
  | token {index count start position tokens : Nat}
      (blanks : start = skipWhile isAsciiWhitespace input index) (inside : start < input.length)
      (rest : Rounds input (nextToken scanners input start input[start]).2 (count + 1)
        position tokens) : Rounds input index count position tokens

theorem Rounds.le {count position tokens : Nat} (rounds : Rounds input index count position tokens) :
    count ≤ tokens := by
  induction rounds with
  | here => exact le_rfl
  | token _ _ _ ih => exact Nat.le_of_succ_le ih

/-- From no place that is reached within the budget does the fast lexer pass a vertical tab. -/
def CleanFrom (config : LexerConfig) (input : Bytes) (index count : Nat) : Prop :=
  ∀ position tokens, Rounds input index count position tokens → tokens < config.maxTokens →
    ¬ PassesTab input position

/-!
## Out of step
-/

section OutOfStep

variable {config : LexerConfig}

theorem SwarLexer.le_bytesScanned (index tokenCount : Nat) (tokens : List Token)
    {output : LexerOutput} (exceeded : output.budgetExceeded = true)
    (same : (SwarLexer.scan config input index tokenCount tokens).stream = output.stream) :
    index ≤ output.bytesScanned := by
  have flags : _ = output.budgetExceeded := congrArg (·.2.2.2) same
  have bytes : _ = output.bytesScanned := congrArg (·.2.2.1) same
  fun_induction SwarLexer.scan config input index tokenCount tokens with
  | case1 => exact bytes.le
  | case2 index tokenCount tokens inside within start found token ih =>
    have blanks : index ≤ start := le_skipMasked _ _ input index
    have progress : start < token.2 := lt_nextToken _ input start input[start]
    exact (blanks.trans progress.le).trans (ih same flags bytes)
  | case3 | case4 => cases flags.trans exceeded

theorem ScalarLexer.le_tokenCount (config : LexerConfig) (input : Bytes) (index tokenCount : Nat)
    (tokens : List Token) :
    tokenCount ≤ (scan config input index tokenCount tokens).tokenCount := by
  fun_induction scan config input index tokenCount tokens with
  | case1 | case4 => exact le_rfl
  | case2 _ _ _ _ _ _ ih => exact ih
  | case3 _ _ _ _ _ _ _ ih => exact Nat.le_of_succ_le ih

theorem nextToken_vertical_tab (input : Bytes) (index : Nat) :
    nextToken scanners input index 0x0B = (.punctuation, index + 1) := by
  have operator : isTwoCharOperator 0x0B (input.getD (index + 1) 0) = false := by
    simp [isTwoCharOperator]
  rw [nextToken, operator, Bool.and_false]
  rfl

/-- The scalar lexer passes white space and vertical tabs with one token for each of these, or stops
on the way. -/
theorem ScalarLexer.scan_blanks {stop : Nat} (le : index ≤ stop)
    (run : Run isBlankOrTab input index stop) (tokenCount : Nat) (tokens : List Token) :
    (∃ tabs held, scan config input index tokenCount tokens =
        scan config input stop (tokenCount + tabs) held ∧
      ((∃ position, index ≤ position ∧ position < stop ∧ input[position]? = some 0x0B) →
        0 < tabs)) ∨
      ((scan config input index tokenCount tokens).budgetExceeded = true ∧
        (scan config input index tokenCount tokens).bytesScanned < stop) := by
  obtain ⟨count, rfl⟩ := Nat.exists_eq_add_of_le le
  induction count generalizing index tokenCount tokens with
  | zero =>
    refine .inl ⟨0, tokens, rfl, ?_⟩
    rintro ⟨position, after, before, _⟩
    omega
  | succ count ih =>
    obtain ⟨inside, held⟩ := run index le_rfl (by omega)
    have next : index + (count + 1) = index + 1 + count := by omega
    have rest := fun tokenCount tokens => ih tokenCount tokens (by omega) (next ▸ run.tail)
    simp only [← next] at rest
    by_cases exceeded : config.maxTokens ≤ tokenCount
    · right
      rw [scan, dif_pos inside, if_pos exceeded]
      exact ⟨rfl, show index < _ by omega⟩
    by_cases blank : isAsciiWhitespace input[index] = true
    · rw [scan, dif_pos inside, if_neg exceeded, if_pos blank]
      refine (rest tokenCount tokens).imp_left fun ⟨tabs, later, same, counted⟩ => ?_
      refine ⟨tabs, later, same, fun ⟨position, after, before, tab⟩ => counted ?_⟩
      refine ⟨position, Nat.lt_of_le_of_ne after fun here => ?_, before, tab⟩
      rw [← here, List.getElem?_eq_getElem inside, Option.some_inj] at tab
      rw [tab] at blank
      cases blank
    · have tab : input[index] = 0x0B := by simpa [isBlankOrTab, blank] using held
      rw [scan, dif_pos inside, if_neg exceeded, if_neg blank, tab, nextToken_vertical_tab]
      refine (rest (tokenCount + 1) _).imp_left fun ⟨tabs, later, same, _⟩ => ?_
      refine ⟨tabs + 1, later, same.trans (by congr 1; omega), fun _ => Nat.succ_pos tabs⟩

theorem lt_add_tabs {tokenCount ahead tabs : Nat} (more : tokenCount < ahead ∨
      tokenCount ≤ ahead ∧ tokenCount < config.maxTokens ∧ PassesTab input index)
    (counted : (∃ position, index ≤ position ∧
        position < skipMasked whitespaceMask isAsciiWhitespace input index ∧
        input[position]? = some 0x0B) → 0 < tabs) : tokenCount < ahead + tabs := by
  rcases more with more | ⟨upTo, -, position, after, before, tab⟩
  · omega
  · have some := counted ⟨position, after, before.trans_le (le_skipWhile _ _ _), tab⟩
    omega

/-- Once the scalar lexer has counted more tokens up to the same place, or is about to, the lexers
end with other counts or at other places. -/
theorem stream_scan_ne (index tokenCount : Nat) (tokens : List Token) :
    ∀ ahead held, (tokenCount < ahead ∨
        tokenCount ≤ ahead ∧ tokenCount < config.maxTokens ∧ PassesTab input index) →
      (SwarLexer.scan config input index tokenCount tokens).stream ≠
        (scan config input index ahead held).stream := by
  fun_induction SwarLexer.scan config input index tokenCount tokens with
  | case1 index tokenCount tokens inside exceeded =>
    intro ahead held more same
    have counts : tokenCount = (scan config input index ahead held).tokenCount :=
      congrArg (·.2.1) same
    have enough := le_tokenCount config input index ahead held
    rw [← counts] at enough
    omega
  | case2 index tokenCount tokens inside within start found token ih =>
    intro ahead held more same
    have progress : start < token.2 := lt_nextToken _ input start input[start]
    have word : isAsciiWhitespace input[start] = false := skipWhile_stops rfl found
    rcases scan_blanks (le_skipMasked _ _ input index) (run_skipMasked_whitespace input index)
      ahead held with ⟨tabs, later, passed, counted⟩ | ⟨exceeded, stopped⟩
    · have behind := lt_add_tabs more counted
      rw [passed, scan, dif_pos found] at same
      by_cases exceeded : config.maxTokens ≤ ahead + tabs
      · rw [if_pos exceeded] at same
        exact absurd (SwarLexer.le_bytesScanned _ _ _ rfl same) (Nat.not_le.mpr progress)
      · rw [if_neg exceeded, word, if_neg Bool.false_ne_true, ← nextToken_swar] at same
        exact ih _ _ (.inl (Nat.succ_lt_succ behind)) same
    · have reached := SwarLexer.le_bytesScanned _ _ _ exceeded same
      exact absurd (stopped.trans progress) (Nat.not_lt.mpr reached)
  | case3 index tokenCount tokens inside within start done =>
    intro ahead held more same
    rcases scan_blanks (le_skipMasked _ _ input index) (run_skipMasked_whitespace input index)
      ahead held with ⟨tabs, later, passed, counted⟩ | ⟨exceeded, -⟩
    · have behind := lt_add_tabs more counted
      have enough := le_tokenCount config input start (ahead + tabs) later
      have counts : tokenCount = (scan config input index ahead held).tokenCount :=
        congrArg (·.2.1) same
      rw [← passed, ← counts] at enough
      omega
    · have flags : false = (scan config input index ahead held).budgetExceeded :=
        congrArg (·.2.2.2) same
      cases flags.trans exceeded
  | case4 index tokenCount tokens outside =>
    intro ahead held more same
    have enough := le_tokenCount config input index ahead held
    have counts : tokenCount = (scan config input index ahead held).tokenCount :=
      congrArg (·.2.1) same
    rw [← counts] at enough
    rcases more with more | ⟨-, -, position, after, before, -⟩
    · omega
    · exact outside (after.trans_lt (run_skipWords_whitespace input index position after before).1)

end OutOfStep

theorem cleanFrom_iff {config : LexerConfig} {tokenCount : Nat}
    (within : tokenCount < config.maxTokens) :
    CleanFrom config input index tokenCount ↔ ¬ PassesTab input index ∧
      ∀ start, start = skipWhile isAsciiWhitespace input index → ∀ inside : start < input.length,
        CleanFrom config input (nextToken scanners input start input[start]).2 (tokenCount + 1) := by
  constructor
  · intro clean
    exact ⟨clean index tokenCount .here within, fun start blanks inside position tokens rest =>
      clean position tokens (.token blanks inside rest)⟩
  · rintro ⟨here, later⟩ position tokens rounds
    cases rounds with
    | here => exact fun _ => here
    | token blanks inside rest => exact later _ blanks inside position tokens rest

theorem not_passesTab_of_le (outside : input.length ≤ index) : ¬ PassesTab input index := by
  rintro ⟨position, after, before, -⟩
  have inside := (run_skipWords_whitespace input index position after before).1
  omega

theorem stream_scan_iff (config : LexerConfig) (index tokenCount : Nat) (tokens : List Token) :
    (SwarLexer.scan config input index tokenCount tokens).stream =
        (scan config input index tokenCount tokens).stream ↔
      CleanFrom config input index tokenCount := by
  induction index, tokenCount, tokens using SwarLexer.scan.induct config input with
  | case1 index tokenCount tokens inside exceeded =>
    rw [SwarLexer.scan, if_pos inside, if_pos exceeded, scan, dif_pos inside, if_pos exceeded]
    exact iff_of_true rfl fun position tokens rounds within =>
      absurd (exceeded.trans rounds.le) (Nat.not_le.mpr within)
  | case2 index tokenCount tokens inside within start found token ih =>
    rw [cleanFrom_iff (Nat.not_le.mp within)]
    by_cases passes : PassesTab input index
    · exact iff_of_false (stream_scan_ne _ _ _ _ _ (.inr ⟨le_rfl, Nat.not_le.mp within, passes⟩))
        fun clean => clean.1 passes
    · have blanks : start = skipWhile isAsciiWhitespace input index := skipMasked_whitespace passes
      have stops : isAsciiWhitespace input[start] = false := skipWhile_stops blanks found
      rw [SwarLexer.scan, if_pos inside, if_neg within, dif_pos found,
        scan_skipWhile (Nat.not_le.mp within), ← blanks, scan, dif_pos found, if_neg within, stops,
        if_neg Bool.false_ne_true, ← nextToken_swar]
      refine ih.trans ⟨fun clean => ⟨passes, ?_⟩, fun clean => ?_⟩
      · rintro _ rfl _
        rwa [← nextToken_swar]
      · have later := clean.2 start rfl found
        rwa [← nextToken_swar] at later
  | case3 index tokenCount tokens inside within start done =>
    rw [cleanFrom_iff (Nat.not_le.mp within)]
    by_cases passes : PassesTab input index
    · exact iff_of_false (stream_scan_ne _ _ _ _ _ (.inr ⟨le_rfl, Nat.not_le.mp within, passes⟩))
        fun clean => clean.1 passes
    · have blanks : start = skipWhile isAsciiWhitespace input index := skipMasked_whitespace passes
      rw [SwarLexer.scan, if_pos inside, if_neg within, dif_neg done,
        scan_skipWhile (Nat.not_le.mp within), ← blanks, scan, dif_neg done]
      exact iff_of_true rfl ⟨passes, fun other same found => absurd (same ▸ found) done⟩
  | case4 index tokenCount tokens outside =>
    rw [SwarLexer.scan, if_neg outside, scan, dif_neg outside]
    refine iff_of_true rfl fun position tokens rounds _ => ?_
    have past := Nat.not_lt.mp outside
    cases rounds with
    | here => exact not_passesTab_of_le past
    | token blanks inside =>
      have after := le_skipWhile isAsciiWhitespace input index
      omega

def plainProfile : ArchCapabilityProfile where
  archFamily := .x86_64
  pointerWidth := 64
  littleEndian := true
  swarAvailable := true
  avx2Available := false
  avx512fAvailable := false
  neonAvailable := false

end FrankenEngine.Lexer
