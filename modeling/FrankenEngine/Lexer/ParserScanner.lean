import FrankenEngine.Lexer.SimdLexer
import FrankenEngine.Library.Words
import Mathlib.Data.List.GetD

/-!
# The token counters of the parser

`parser.rs` counts the tokens of a source twice: with a scanner that looks bytes
up in a table of classes and steps over whole code points, and with a reference
that tests single bytes. Both pass over white space and otherwise add one token
and go on behind it.
-/

set_option autoImplicit false

namespace FrankenEngine.Lexer

open Library

/-- What a counter takes for white space, and where the token at an index ends. -/
structure TokenCounter where
  blank : UInt8 → Bool
  next : Bytes → Nat → Nat
  lt_next : ∀ bytes index, index < next bytes index

def TokenCounter.count (counter : TokenCounter) (bytes : Bytes) (index : Nat) : Nat :=
  if inside : index < bytes.length then
    if counter.blank bytes[index] then counter.count bytes (index + 1)
    else counter.count bytes (counter.next bytes index) + 1
  else 0
  termination_by bytes.length - index
  decreasing_by
  · omega
  · have progress := counter.lt_next bytes index
    omega

/-- The positions between tokens that a counter comes to from an index. -/
inductive TokenCounter.Stands (counter : TokenCounter) (bytes : Bytes) : Nat → Nat → Prop where
  | here {index : Nat} : Stands counter bytes index index
  | blank {index position : Nat} (inside : index < bytes.length)
      (space : counter.blank bytes[index] = true)
      (rest : Stands counter bytes (index + 1) position) : Stands counter bytes index position
  | token {index position : Nat} (inside : index < bytes.length)
      (word : counter.blank bytes[index] = false)
      (rest : Stands counter bytes (counter.next bytes index) position) :
      Stands counter bytes index position

theorem TokenCounter.Stands.le {counter : TokenCounter} {bytes : Bytes}
    {index position : Nat} (stands : counter.Stands bytes index position) : index ≤ position := by
  induction stands with
  | here => exact le_rfl
  | blank _ _ _ ih => exact Nat.le_of_succ_le ih
  | token _ _ _ ih => exact (counter.lt_next _ _).le.trans ih

theorem TokenCounter.Stands.mem_of_closed {counter : TokenCounter} {bytes : Bytes}
    {positions : List Nat}
    (closed : ∀ index ∈ positions, ∀ inside : index < bytes.length,
      (if counter.blank bytes[index] then index + 1 else counter.next bytes index) ∈ positions)
    {index position : Nat} (start : index ∈ positions)
    (stands : counter.Stands bytes index position) : position ∈ positions := by
  induction stands with
  | here => exact start
  | blank inside space _ ih => exact ih (by simpa [space] using closed _ start inside)
  | token inside word _ ih => exact ih (by simpa [word] using closed _ start inside)

/-- A byte with which a token starts, counted from the beginning. -/
def TokenCounter.StartsWith (counter : TokenCounter) (bytes : Bytes) (byte : UInt8) : Prop :=
  ∃ position, counter.Stands bytes 0 position ∧ bytes[position]? = some byte

def ScalarLexer.counter : TokenCounter where
  blank := isAsciiWhitespace
  next bytes index := (nextToken scanners bytes index (bytes.getD index 0)).2
  lt_next bytes index := lt_nextToken scanners bytes index _

def lexClassWhitespace : UInt8 := 0x01

def lexClassIdentifierStart : UInt8 := 0x02

def lexClassIdentifierContinue : UInt8 := 0x04

def lexClassDigit : UInt8 := 0x08

def lexClassQuote : UInt8 := 0x10

def lexClassTwoCharOperatorLead : UInt8 := 0x20

/-- The entries of the table. Each line adds its classes to some bytes. -/
def lexClass (byte : UInt8) : UInt8 :=
  let entry (bytes : Bool) (classes : UInt8) : UInt8 := if bytes then classes else 0
  entry ([0x20, 0x09, 0x0A, 0x0D, 0x0B, 0x0C].contains byte) lexClassWhitespace |||
    entry (0x61 ≤ byte && byte ≤ 0x7A) (lexClassIdentifierStart ||| lexClassIdentifierContinue) |||
    entry (0x41 ≤ byte && byte ≤ 0x5A) (lexClassIdentifierStart ||| lexClassIdentifierContinue) |||
    entry (0x30 ≤ byte && byte ≤ 0x39) (lexClassDigit ||| lexClassIdentifierContinue) |||
    entry (byte == 0x5F) (lexClassIdentifierStart ||| lexClassIdentifierContinue) |||
    entry (byte == 0x24) (lexClassIdentifierStart ||| lexClassIdentifierContinue) |||
    entry ([0x27, 0x22].contains byte) lexClassQuote |||
    entry ([0x3D, 0x21, 0x3C, 0x3E, 0x26, 0x7C, 0x3F].contains byte) lexClassTwoCharOperatorLead

def lexHasClass (classMask byte : UInt8) : Bool := lexClass byte &&& classMask ≠ 0

def isAscii (byte : UInt8) : Bool := byte < 0x80

def backtick : UInt8 := 0x60

def utf8CodepointLenFromLead (lead : UInt8) : Nat :=
  if lead < 0x80 then 1
  else if lead &&& 0xE0 = 0xC0 then 2
  else if lead &&& 0xF0 = 0xE0 then 3
  else if lead &&& 0xF8 = 0xF0 then 4
  else 1

def isUtf8Continuation (byte : UInt8) : Bool := byte &&& 0xC0 = 0x80

variable (bytes : Bytes)

/-- Behind the code point at an index, or one byte further if there is none. -/
def advanceUtf8BoundarySafe (index : Nat) : Nat :=
  if bytes.length ≤ index then bytes.length
  else
    let width := utf8CodepointLenFromLead (bytes.getD index 0)
    if width = 1 || bytes.length < index + width then index + 1
    else if ((bytes.drop (index + 1)).take (width - 1)).all isUtf8Continuation then index + width
    else index + 1

def advance (index : Nat) : Nat :=
  if isAscii (bytes.getD index 0) then index + 1 else advanceUtf8BoundarySafe bytes index

theorem lt_advance (index : Nat) : index < advance bytes index := by
  have wide : ∀ lead, 1 ≤ utf8CodepointLenFromLead lead := by
    intro lead
    unfold utf8CodepointLenFromLead
    repeat' split
    all_goals decide
  have width := wide (bytes.getD index 0)
  by_cases inside : index < bytes.length
  · unfold advance advanceUtf8BoundarySafe
    dsimp only
    repeat' split
    all_goals omega
  · have nothing : bytes.getD index 0 = 0 := List.getD_eq_default _ _ (Nat.not_lt.mp inside)
    rw [advance, nothing, if_pos (by decide)]
    exact Nat.lt_succ_self index

/-- Behind a backslash and what it escapes, if anything. -/
def skipEscape (index : Nat) : Nat :=
  if index + 1 < bytes.length then advance bytes (index + 1) else index + 1

theorem lt_skipEscape (index : Nat) : index < skipEscape bytes index := by
  unfold skipEscape
  split
  next => exact (Nat.lt_succ_self index).trans (lt_advance bytes (index + 1))
  next => exact Nat.lt_succ_self index

namespace Utf8BoundarySafeScanner

def scanStringLiteral (quote : UInt8) (bytes : Bytes) (index : Nat) : Nat :=
  if inside : index < bytes.length then
    let current := bytes[index]
    if current = backslash then scanStringLiteral quote bytes (skipEscape bytes index)
    else if current = quote then index + 1
    else if isNewline current then index
    else scanStringLiteral quote bytes (advance bytes index)
  else index
  termination_by bytes.length - index
  decreasing_by
  · have progress := lt_skipEscape bytes index
    omega
  · have progress := lt_advance bytes index
    omega

def braceDepth (depth : UInt32) (current : UInt8) : UInt32 :=
  if current = 0x7B then saturatingAdd32 depth 1
  else if current = 0x7D then depth - 1
  else depth

def startsSubstitution (bytes : Bytes) (index : Nat) (current : UInt8) : Bool :=
  current = 0x24 && index + 1 < bytes.length && bytes.getD (index + 1) 0 = 0x7B

def scanTemplateLiteral (bytes : Bytes) (depth : UInt32) (index : Nat) : Nat :=
  if inside : index < bytes.length then
    let current := bytes[index]
    if current = backslash then scanTemplateLiteral bytes depth (skipEscape bytes index)
    else if 0 < depth then scanTemplateLiteral bytes (braceDepth depth current) (index + 1)
    else if startsSubstitution bytes index current then scanTemplateLiteral bytes 1 (index + 2)
    else if current = backtick then index + 1
    else scanTemplateLiteral bytes depth (advance bytes index)
  else index
  termination_by bytes.length - index
  decreasing_by
  · have progress := lt_skipEscape bytes index
    omega
  · omega
  · omega
  · have progress := lt_advance bytes index
    omega

theorem le_scanStringLiteral (quote : UInt8) (bytes : Bytes) (index : Nat) :
    index ≤ scanStringLiteral quote bytes index := by
  fun_induction scanStringLiteral quote bytes index with
  | case1 index _ _ _ ih => exact (lt_skipEscape bytes index).le.trans ih
  | case2 => exact Nat.le_succ _
  | case3 => exact le_rfl
  | case4 index _ _ _ _ _ ih => exact (lt_advance bytes index).le.trans ih
  | case5 => exact le_rfl

theorem le_scanTemplateLiteral (bytes : Bytes) (depth : UInt32) (index : Nat) :
    index ≤ scanTemplateLiteral bytes depth index := by
  fun_induction scanTemplateLiteral bytes depth index with
  | case1 depth index _ _ _ ih => exact (lt_skipEscape bytes index).le.trans ih
  | case2 depth index _ _ _ _ ih => exact (Nat.le_succ index).trans ih
  | case3 depth index _ _ _ _ _ ih => exact (Nat.le_add_right index 2).trans ih
  | case4 => exact Nat.le_succ _
  | case5 depth index _ _ _ _ _ _ ih => exact (lt_advance bytes index).le.trans ih
  | case6 => exact le_rfl

def next (bytes : Bytes) (index : Nat) : Nat :=
  let byte := bytes.getD index 0
  if lexHasClass lexClassIdentifierStart byte then
    skipWhile (lexHasClass lexClassIdentifierContinue) bytes (index + 1)
  else if lexHasClass lexClassDigit byte then
    skipWhile (lexHasClass lexClassDigit) bytes (index + 1)
  else if lexHasClass lexClassQuote byte then scanStringLiteral byte bytes (index + 1)
  else if byte = backtick then scanTemplateLiteral bytes 0 (index + 1)
  else if lexHasClass lexClassTwoCharOperatorLead byte && index + 1 < bytes.length &&
      isTwoCharOperator byte (bytes.getD (index + 1) 0) then index + 2
  else advance bytes index

theorem lt_next (bytes : Bytes) (index : Nat) : index < next bytes index := by
  unfold next
  dsimp only
  split
  · exact le_skipWhile _ bytes (index + 1)
  split
  · exact le_skipWhile _ bytes (index + 1)
  split
  · exact le_scanStringLiteral _ bytes (index + 1)
  split
  · exact le_scanTemplateLiteral bytes 0 (index + 1)
  split
  · exact Nat.lt_add_of_pos_right Nat.two_pos
  · exact lt_advance bytes index

def counter : TokenCounter where
  blank := lexHasClass lexClassWhitespace
  next := next
  lt_next := lt_next

end Utf8BoundarySafeScanner

def countLexicalTokens : Nat := Utf8BoundarySafeScanner.counter.count bytes 0

namespace ScalarReference

/-- The template loop of the reference, which never passes the end of the input. -/
def scanTemplate (bytes : Bytes) (depth : UInt32) (index : Nat) : Nat :=
  if inside : index < bytes.length then
    let current := bytes[index]
    if current = backslash then scanTemplate bytes depth (min (index + 2) bytes.length)
    else if 0 < depth then
      scanTemplate bytes (Utf8BoundarySafeScanner.braceDepth depth current) (index + 1)
    else if Utf8BoundarySafeScanner.startsSubstitution bytes index current then
      scanTemplate bytes 1 (index + 2)
    else if current = backtick then index + 1
    else scanTemplate bytes depth (index + 1)
  else index
  termination_by bytes.length - index

theorem le_scanTemplate (bytes : Bytes) (depth : UInt32) (index : Nat) :
    index ≤ scanTemplate bytes depth index := by
  fun_induction scanTemplate bytes depth index with
  | case1 depth index _ _ _ ih => omega
  | case2 depth index _ _ _ _ ih => exact (Nat.le_succ index).trans ih
  | case3 depth index _ _ _ _ _ ih => exact (Nat.le_add_right index 2).trans ih
  | case4 => exact Nat.le_succ _
  | case5 depth index _ _ _ _ _ _ ih => exact (Nat.le_succ index).trans ih
  | case6 => exact le_rfl

def next (bytes : Bytes) (index : Nat) : Nat :=
  let byte := bytes.getD index 0
  if isIdentStart byte then skipWhile isIdentContinue bytes (index + 1)
  else if isAsciiDigit byte then skipWhile isAsciiDigit bytes (index + 1)
  else if isQuote byte then (scanString byte bytes (index + 1)).1
  else if byte = backtick then scanTemplate bytes 0 (index + 1)
  else if index + 1 < bytes.length && isTwoCharOperator byte (bytes.getD (index + 1) 0) then
    index + 2
  else index + 1

theorem lt_next (bytes : Bytes) (index : Nat) : index < next bytes index := by
  unfold next
  dsimp only
  split
  · exact le_skipWhile _ bytes (index + 1)
  split
  · exact le_skipWhile _ bytes (index + 1)
  split
  · exact le_scanString _ bytes (index + 1)
  split
  · exact le_scanTemplate bytes 0 (index + 1)
  split
  · exact Nat.lt_add_of_pos_right Nat.two_pos
  · exact Nat.lt_succ_self index

def counter : TokenCounter where
  blank := isAsciiWhitespace
  next := next
  lt_next := lt_next

end ScalarReference

def countLexicalTokensScalarReference : Nat := ScalarReference.counter.count bytes 0

end FrankenEngine.Lexer
