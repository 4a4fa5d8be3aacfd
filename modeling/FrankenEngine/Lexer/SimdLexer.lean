import FrankenEngine.Library.Lanes

/-!
# The two lexers

The lexers of `simd_lexer.rs`. The reference reads a source byte by byte. The
other one classifies the eight bytes of a word at once, by a mask that has the
highest bit of a lane set where the byte belongs to a class, and falls back to
single bytes where a word is mixed or incomplete. The columns of the token
storage are one list of tokens here, positions and counts are natural numbers,
as they are bounded by the length of the input, and the profile of the machine
is a parameter.
-/

set_option autoImplicit false

namespace FrankenEngine.Lexer

open Library

inductive TokenKind where
  | identifier
  | numericLiteral
  | stringLiteral
  | unterminatedString
  | twoCharOperator
  | punctuation
  deriving DecidableEq, Repr

structure Token where
  kind : TokenKind
  start : Nat
  stop : Nat
  deriving DecidableEq, Repr

inductive LexerMode where
  | swar
  | scalar
  | differential
  deriving DecidableEq

inductive SwarFeatureGate where
  | portable
  | requireAvx2
  | requireAvx512F
  | requireNeon
  deriving DecidableEq

inductive ArchFamily where
  | x86_64
  | aarch64
  | arm
  | other
  deriving DecidableEq

inductive SwarDisableReason where
  | operatorOverride
  | parityMismatch (mismatchIndex : Nat)
  | inputBelowThreshold (inputLen threshold : Nat)
  | architectureUnsupported (pointerWidth : Nat) (littleEndian : Bool)
  | featureGateUnavailable (required : SwarFeatureGate) (archFamily : ArchFamily)
  | tokenBudgetExceeded
  deriving DecidableEq

structure LexerConfig where
  mode : LexerMode
  maxTokens : Nat
  maxSourceBytes : Nat
  swarMinInputBytes : Nat
  featureGate : SwarFeatureGate
  emitTokens : Bool
  deriving DecidableEq

def LexerConfig.default : LexerConfig where
  mode := .swar
  maxTokens := 65536
  maxSourceBytes := 1048576
  swarMinInputBytes := 64
  featureGate := .portable
  emitTokens := true

structure LexerOutput where
  actualMode : LexerMode
  swarDisableReason : Option SwarDisableReason
  tokenCount : Nat
  tokens : List Token
  bytesScanned : Nat
  budgetExceeded : Bool
  deriving DecidableEq

inductive LexerError where
  | sourceTooLarge (size max : Nat)
  deriving DecidableEq

/-!
## Bytes
-/

variable (byte : UInt8)

/-- Space, tab, line feed, form feed and carriage return. -/
def isAsciiWhitespace : Bool :=
  byte == 0x20 || byte == 0x09 || byte == 0x0A || byte == 0x0C || byte == 0x0D

def isAsciiDigit : Bool := 0x30 ≤ byte && byte ≤ 0x39

def isAsciiAlphabetic : Bool :=
  (0x41 ≤ byte && byte ≤ 0x5A) || (0x61 ≤ byte && byte ≤ 0x7A)

def isIdentStart : Bool :=
  isAsciiAlphabetic byte || byte == 0x5F || byte == 0x24

def isIdentContinue : Bool :=
  (isAsciiAlphabetic byte || isAsciiDigit byte) || byte == 0x5F || byte == 0x24

/-- `==`, `!=`, `<=`, `>=`, `&&`, `||`, `??` and `=>`. -/
def isTwoCharOperator (first second : UInt8) : Bool :=
  [(0x3D, 0x3D), (0x21, 0x3D), (0x3C, 0x3D), (0x3E, 0x3D), (0x26, 0x26), (0x7C, 0x7C),
    (0x3F, 0x3F), (0x3D, 0x3E)].contains (first, second)

def backslash : UInt8 := 0x5C

def isNewline : Bool := byte == 0x0A || byte == 0x0D

def isQuote : Bool := byte == 0x27 || byte == 0x22

/-!
## Runs of bytes
-/

def skipWhile (holds : UInt8 → Bool) (input : Bytes) (index : Nat) : Nat :=
  if inside : index < input.length then
    if holds input[index] then skipWhile holds input (index + 1) else index
  else index
  termination_by input.length - index

theorem le_skipWhile (holds : UInt8 → Bool) (input : Bytes) (index : Nat) :
    index ≤ skipWhile holds input index := by
  fun_induction skipWhile holds input index with
  | case1 index _ _ ih => exact (Nat.le_succ index).trans ih
  | case2 => exact le_rfl
  | case3 => exact le_rfl

/-- The end of a string and whether its quote was found. An escape at the end of the input leads
beyond it. -/
def scanString (quote : UInt8) (input : Bytes) (index : Nat) : Nat × Bool :=
  if inside : index < input.length then
    let current := input[index]
    if current = backslash then scanString quote input (index + 2)
    else if current = quote then (index + 1, true)
    else if isNewline current then (index, false)
    else scanString quote input (index + 1)
  else (index, false)
  termination_by input.length - index

theorem le_scanString (quote : UInt8) (input : Bytes) (index : Nat) :
    index ≤ (scanString quote input index).1 := by
  fun_induction scanString quote input index with
  | case1 index _ _ _ ih => exact (Nat.le_add_right index 2).trans ih
  | case2 => exact Nat.le_succ _
  | case3 => exact le_rfl
  | case4 index _ _ _ _ _ ih => exact (Nat.le_succ index).trans ih
  | case5 => exact le_rfl

/-!
## Tokens
-/

structure Scanners where
  identifier : Bytes → Nat → Nat
  digits : Bytes → Nat → Nat
  string : UInt8 → Bytes → Nat → Nat × Bool
  le_identifier : ∀ input index, index ≤ identifier input index
  le_digits : ∀ input index, index ≤ digits input index
  le_string : ∀ quote input index, index ≤ (string quote input index).1

/-- The kind and the end of the token that starts with the byte at an index. -/
def nextToken (scanners : Scanners) (input : Bytes) (index : Nat) (byte : UInt8) :
    TokenKind × Nat :=
  if isIdentStart byte then (.identifier, scanners.identifier input (index + 1))
  else if isAsciiDigit byte then (.numericLiteral, scanners.digits input (index + 1))
  else if isQuote byte then
    let (stop, terminated) := scanners.string byte input (index + 1)
    (if terminated then .stringLiteral else .unterminatedString, stop)
  else if index + 1 < input.length && isTwoCharOperator byte (input.getD (index + 1) 0) then
    (.twoCharOperator, index + 2)
  else (.punctuation, index + 1)

theorem lt_nextToken (scanners : Scanners) (input : Bytes) (index : Nat) (byte : UInt8) :
    index < (nextToken scanners input index byte).2 := by
  unfold nextToken
  split
  · exact scanners.le_identifier input (index + 1)
  split
  · exact scanners.le_digits input (index + 1)
  split
  · exact scanners.le_string byte input (index + 1)
  split
  · exact Nat.lt_add_of_pos_right Nat.two_pos
  · exact Nat.lt_succ_self index

def pushEmittedToken (config : LexerConfig) (tokens : List Token) (token : Token) : List Token :=
  if config.emitTokens then tokens ++ [token] else tokens

namespace ScalarLexer

def scanners : Scanners where
  identifier := skipWhile isIdentContinue
  digits := skipWhile isAsciiDigit
  string := scanString
  le_identifier := le_skipWhile isIdentContinue
  le_digits := le_skipWhile isAsciiDigit
  le_string := le_scanString

def scan (config : LexerConfig) (input : Bytes) (index tokenCount : Nat) (tokens : List Token) :
    LexerOutput :=
  if inside : index < input.length then
    if config.maxTokens ≤ tokenCount then
      { actualMode := .scalar
        swarDisableReason := none
        tokenCount
        tokens
        bytesScanned := index
        budgetExceeded := true }
    else if isAsciiWhitespace input[index] then scan config input (index + 1) tokenCount tokens
    else
      let token := nextToken scanners input index input[index]
      scan config input token.2 (tokenCount + 1)
        (pushEmittedToken config tokens ⟨token.1, index, token.2⟩)
  else
    { actualMode := .scalar
      swarDisableReason := none
      tokenCount
      tokens
      bytesScanned := input.length
      budgetExceeded := false }
  termination_by input.length - index
  decreasing_by
  · omega
  · have progress := lt_nextToken scanners input index input[index]
    omega

def lex (input : Bytes) (config : LexerConfig) : Except LexerError LexerOutput :=
  if config.maxSourceBytes < input.length then
    .error (.sourceTooLarge input.length config.maxSourceBytes)
  else .ok (scan config input 0 0 [])

end ScalarLexer

/-!
## Masks
-/

def swarWidth : Nat := 8

def broadcast (byte : UInt8) : UInt64 := 0x0101010101010101 * byte.toUInt64

def highBits : UInt64 := 0x8080808080808080

def matchPrefixLen (mask : UInt64) : Nat :=
  ((List.range swarWidth).takeWhile fun count =>
    mask &&& (0x80 <<< UInt64.ofNat (count * 8)) ≠ 0).length

/-- Marks the lanes that hold the byte. The sums stay below the highest bits of the lanes. -/
def byteEqMask (word : UInt64) (target : UInt8) : UInt64 :=
  let xor := word ^^^ broadcast target
  let lowMask := ~~~highBits
  let lower7 := xor &&& lowMask
  let lowerNonzero := (lower7 + lowMask) &&& highBits
  let lowerZero := ~~~lowerNonzero &&& highBits
  let highZero := ~~~xor &&& highBits
  lowerZero &&& highZero

/-- Marks white space, and the vertical tab too. -/
def whitespaceMask (word : UInt64) : UInt64 :=
  byteEqMask word 0x20 ||| byteEqMask word 0x09 ||| byteEqMask word 0x0A |||
    byteEqMask word 0x0D ||| byteEqMask word 0x0B ||| byteEqMask word 0x0C

def digitMask (word : UInt64) : UInt64 :=
  let geLow := ~~~(word - 0x3030303030303030) &&& highBits
  let leHigh := ~~~(0x3939393939393939 - word) &&& highBits
  geLow &&& leHigh

def alphaMask (word : UInt64) : UInt64 :=
  let upper := word &&& ~~~broadcast 0x20
  let geA := ~~~(upper - broadcast 0x41) &&& highBits
  let leZ := ~~~(broadcast 0x5A - upper) &&& highBits
  geA &&& leZ

def identifierContinueMask (word : UInt64) : UInt64 :=
  alphaMask word ||| digitMask word ||| byteEqMask word 0x5F ||| byteEqMask word 0x24

def maskFirstSet (mask : UInt64) : Nat :=
  if mask = 0 then 8 else mask.toBitVec.ctz.toNat / 8

/-- The next eight bytes, the first in the lowest lane, with zeros behind the input. -/
def readU64Le (input : Bytes) (offset : Nat) : UInt64 := fromLeBytes ((input.drop offset).take 8)

/-!
## Runs of words
-/

/-- Passes over the words whose lanes are all marked, and then over the marked lanes at the
beginning of the next. -/
def skipWords (mask : UInt64 → UInt64) (input : Bytes) (index : Nat) : Nat :=
  if index + swarWidth ≤ input.length then
    let marks := mask (readU64Le input index)
    if marks = highBits then skipWords mask input (index + swarWidth)
    else index + matchPrefixLen marks
  else index
  termination_by input.length - index
  decreasing_by
  have width : swarWidth = 8 := rfl
  omega

theorem le_skipWords (mask : UInt64 → UInt64) (input : Bytes) (index : Nat) :
    index ≤ skipWords mask input index := by
  fun_induction skipWords mask input index with
  | case1 index _ _ _ ih => exact (Nat.le_add_right index _).trans ih
  | case2 => exact Nat.le_add_right _ _
  | case3 => exact le_rfl

def interestingMask (quote : UInt8) (word : UInt64) : UInt64 :=
  byteEqMask word quote ||| byteEqMask word backslash |||
    (byteEqMask word 0x0A ||| byteEqMask word 0x0D)

def skipPlain (quote : UInt8) (input : Bytes) (index : Nat) : Nat :=
  if index + swarWidth ≤ input.length then
    let interesting := interestingMask quote (readU64Le input index)
    if interesting = 0 then skipPlain quote input (index + swarWidth)
    else index + maskFirstSet interesting
  else index
  termination_by input.length - index
  decreasing_by
  have width : swarWidth = 8 := rfl
  omega

theorem le_skipPlain (quote : UInt8) (input : Bytes) (index : Nat) :
    index ≤ skipPlain quote input index := by
  fun_induction skipPlain quote input index with
  | case1 index _ _ _ ih => exact (Nat.le_add_right index _).trans ih
  | case2 => exact Nat.le_add_right _ _
  | case3 => exact le_rfl

/-- Words first, then the remaining bytes. -/
def skipMasked (mask : UInt64 → UInt64) (holds : UInt8 → Bool) (input : Bytes) (index : Nat) : Nat :=
  skipWhile holds input (skipWords mask input index)

theorem le_skipMasked (mask : UInt64 → UInt64) (holds : UInt8 → Bool) (input : Bytes)
    (index : Nat) : index ≤ skipMasked mask holds input index :=
  (le_skipWords mask input index).trans (le_skipWhile holds input _)

/-!
## Fallback
-/

structure ArchCapabilityProfile where
  archFamily : ArchFamily
  pointerWidth : Nat
  littleEndian : Bool
  swarAvailable : Bool
  avx2Available : Bool
  avx512fAvailable : Bool
  neonAvailable : Bool

namespace ArchCapabilityProfile

def supportsSwar (profile : ArchCapabilityProfile) : Bool :=
  profile.swarAvailable && profile.littleEndian

def supportsFeatureGate (profile : ArchCapabilityProfile) (gate : SwarFeatureGate) : Bool :=
  profile.supportsSwar &&
    match gate with
    | .portable => true
    | .requireAvx2 => profile.archFamily = .x86_64 && profile.avx2Available
    | .requireAvx512F => profile.archFamily = .x86_64 && profile.avx512fAvailable
    | .requireNeon =>
      (profile.archFamily = .aarch64 || profile.archFamily = .arm) && profile.neonAvailable

end ArchCapabilityProfile

def evaluateSwarFallbackMatrix (inputLen : Nat) (config : LexerConfig)
    (profile : ArchCapabilityProfile) : Option SwarDisableReason :=
  if !profile.supportsSwar then
    some (.architectureUnsupported profile.pointerWidth profile.littleEndian)
  else if !profile.supportsFeatureGate config.featureGate then
    some (.featureGateUnavailable config.featureGate profile.archFamily)
  else if inputLen < config.swarMinInputBytes then
    some (.inputBelowThreshold inputLen config.swarMinInputBytes)
  else none

namespace SwarLexer

def scanners : Scanners where
  identifier := skipMasked identifierContinueMask isIdentContinue
  digits := skipMasked digitMask isAsciiDigit
  string quote input index := scanString quote input (skipPlain quote input index)
  le_identifier := le_skipMasked identifierContinueMask isIdentContinue
  le_digits := le_skipMasked digitMask isAsciiDigit
  le_string quote input index :=
    (le_skipPlain quote input index).trans (le_scanString quote input _)

def complete (input : Bytes) (tokenCount : Nat) (tokens : List Token) : LexerOutput where
  actualMode := .swar
  swarDisableReason := none
  tokenCount := tokenCount
  tokens := tokens
  bytesScanned := input.length
  budgetExceeded := false

/-- The main loop. Each round passes over white space and reads a token behind it. -/
def scan (config : LexerConfig) (input : Bytes) (index tokenCount : Nat) (tokens : List Token) :
    LexerOutput :=
  if index < input.length then
    if config.maxTokens ≤ tokenCount then
      { actualMode := .swar
        swarDisableReason := some .tokenBudgetExceeded
        tokenCount
        tokens
        bytesScanned := index
        budgetExceeded := true }
    else
      let start := skipMasked whitespaceMask isAsciiWhitespace input index
      if inside : start < input.length then
        let token := nextToken scanners input start input[start]
        scan config input token.2 (tokenCount + 1)
          (pushEmittedToken config tokens ⟨token.1, start, token.2⟩)
      else complete input tokenCount tokens
  else complete input tokenCount tokens
  termination_by input.length - index
  decreasing_by
  have blanks : index ≤ start := le_skipMasked whitespaceMask isAsciiWhitespace input index
  have progress : start < token.2 := lt_nextToken scanners input start input[start]
  show input.length - token.2 < input.length - index
  omega

def lex (profile : ArchCapabilityProfile) (input : Bytes) (config : LexerConfig) :
    Except LexerError LexerOutput :=
  if config.maxSourceBytes < input.length then
    .error (.sourceTooLarge input.length config.maxSourceBytes)
  else
    match evaluateSwarFallbackMatrix input.length config profile with
    | some reason => do
        let result ← ScalarLexer.lex input config
        .ok { result with swarDisableReason := some reason }
    | none => .ok (scan config input 0 0 [])

end SwarLexer

end FrankenEngine.Lexer
