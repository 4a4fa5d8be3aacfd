import FrankenEngine.Library.Digest
import FrankenEngine.Library.OrderedMap
import FrankenEngine.Library.Result

/-!
# Deterministic encoding

The typed values of the deterministic encoding, their encoder and the
offset-passing decoder, with the schema-prefixed forms. Rust's ordered map nests
the value type itself, so trees hold bare entry lists and a canonical value pairs
a tree with the key ordering that every nested map carries. Offsets are natural
numbers: the decoder never moves past the end of its buffer, so its checked
additions cannot overflow.
-/

set_option autoImplicit false

namespace FrankenEngine.Serde

open Library

inductive ValueTree where
  | u64 (value : UInt64)
  | i64 (value : Int64)
  | bool (value : Bool)
  | bytes (value : Bytes)
  | string (value : String)
  | array (items : List ValueTree)
  | map (entries : List (String × ValueTree))
  | null

namespace ValueTree

/-- Every map of the tree lists its keys in ascending order, each key once. -/
inductive Ordered : ValueTree → Prop where
  | u64 {value : UInt64} : Ordered (.u64 value)
  | i64 {value : Int64} : Ordered (.i64 value)
  | bool {value : Bool} : Ordered (.bool value)
  | bytes {value : Bytes} : Ordered (.bytes value)
  | string {value : String} : Ordered (.string value)
  | array {items : List ValueTree} : (∀ item ∈ items, Ordered item) → Ordered (.array items)
  | map {entries : List (String × ValueTree)} :
      Ascending entries → (∀ entry ∈ entries, Ordered entry.2) → Ordered (.map entries)
  | null : Ordered .null

/-- Every byte string, string, map key, array and map of the tree has a length
that a 32-bit word can hold. -/
inductive Sized : ValueTree → Prop where
  | u64 {value : UInt64} : Sized (.u64 value)
  | i64 {value : Int64} : Sized (.i64 value)
  | bool {value : Bool} : Sized (.bool value)
  | bytes {value : Bytes} : value.length < 2 ^ 32 → Sized (.bytes value)
  | string {value : String} : (utf8 value).length < 2 ^ 32 → Sized (.string value)
  | array {items : List ValueTree} :
      items.length < 2 ^ 32 → (∀ item ∈ items, Sized item) → Sized (.array items)
  | map {entries : List (String × ValueTree)} :
      entries.length < 2 ^ 32 → (∀ entry ∈ entries, (utf8 entry.1).length < 2 ^ 32) →
      (∀ entry ∈ entries, Sized entry.2) → Sized (.map entries)
  | null : Sized .null

mutual

def depth : ValueTree → Nat
  | .array items => depthOfItems items
  | .map entries => depthOfEntries entries
  | _ => 0

def depthOfItems : List ValueTree → Nat
  | [] => 0
  | item :: rest => max (depth item + 1) (depthOfItems rest)

def depthOfEntries : List (String × ValueTree) → Nat
  | [] => 0
  | (_, value) :: rest => max (depth value + 1) (depthOfEntries rest)

end

theorem depth_lt_of_mem_items {items : List ValueTree} {item : ValueTree}
    (member : item ∈ items) : item.depth < (ValueTree.array items).depth := by
  simp only [depth]
  induction items with
  | nil => cases member
  | cons head rest ih =>
    simp only [depthOfItems]
    rcases List.mem_cons.mp member with rfl | member
    · omega
    · have deeper := ih member
      omega

theorem depth_lt_of_mem_entries {entries : List (String × ValueTree)}
    {entry : String × ValueTree} (member : entry ∈ entries) :
    entry.2.depth < (ValueTree.map entries).depth := by
  simp only [depth]
  induction entries with
  | nil => cases member
  | cons head rest ih =>
    simp only [depthOfEntries]
    rcases List.mem_cons.mp member with rfl | member
    · omega
    · have deeper := ih member
      omega

end ValueTree

structure CanonicalValue where
  tree : ValueTree
  ordered : tree.Ordered

namespace CanonicalValue

def u64 (value : UInt64) : CanonicalValue := ⟨.u64 value, .u64⟩

def bytes (value : Bytes) : CanonicalValue := ⟨.bytes value, .bytes⟩

def string (value : String) : CanonicalValue := ⟨.string value, .string⟩

def null : CanonicalValue := ⟨.null, .null⟩

def array (items : List CanonicalValue) : CanonicalValue where
  tree := .array (items.map tree)
  ordered := .array fun item member => by
    obtain ⟨value, -, rfl⟩ := List.mem_map.mp member
    exact value.ordered

theorem ordered_foldl_insertEntry (entries : List (String × CanonicalValue))
    {held : List (String × ValueTree)} (ascending : Ascending held)
    (values : ∀ entry ∈ held, entry.2.Ordered) : (ValueTree.map
      (entries.foldl (fun held entry => insertEntry entry.1 entry.2.tree held) held)).Ordered := by
  induction entries generalizing held with
  | nil => exact .map ascending values
  | cons entry rest ih =>
    apply ih (ascending.insertEntry _ _)
    intro stored member
    rcases mem_insertEntry member with rfl | member
    · exact entry.2.ordered
    · exact values stored member

def map (entries : List (String × CanonicalValue)) : CanonicalValue where
  tree := .map (entries.foldl (fun held entry => insertEntry entry.1 entry.2.tree held) [])
  ordered := ordered_foldl_insertEntry entries .nil (by simp)

theorem map_tree_of_ascending {entries : List (String × CanonicalValue)}
    (ascending : Ascending entries) :
    (map entries).tree = .map (entries.map fun entry => (entry.1, entry.2.tree)) := by
  have stored (held : List (String × ValueTree))
      (below : ∀ entry ∈ held, ∀ added ∈ entries, entry.1 < added.1) :
      entries.foldl (fun held entry => insertEntry entry.1 entry.2.tree held) held =
        held ++ entries.map fun entry => (entry.1, entry.2.tree) := by
    induction entries generalizing held with
    | nil => simp
    | cons entry rest ih =>
      obtain ⟨smaller, tail⟩ := List.pairwise_cons.mp ascending
      have last := @insertEntry_above _ _ _ held entry.1 entry.2.tree
        fun present member => below present member entry (.head _)
      rw [List.foldl_cons, last, ih tail, List.append_assoc]
      · rfl
      · intro present member added later
        rcases List.mem_append.mp member with old | new
        · exact below present old added (.tail _ later)
        · rw [List.mem_singleton.mp new]
          exact smaller added later
  exact congrArg ValueTree.map (stored [] (by simp))

end CanonicalValue

/-- A schema hash is 32 bytes, never more or fewer. -/
abbrev SchemaHash := Digest

inductive SerdeError where
  | schemaMismatch (expected actual : SchemaHash)
  | unknownSchema (schemaHash : SchemaHash)
  | bufferTooShort (expected actual : Nat)
  | invalidTag (tag : UInt8) (offset : Nat)
  | invalidBoolEncoding (value : UInt8) (offset : Nat)
  | invalidUtf8 (offset : Nat)
  | duplicateKey (key : String)
  | nonLexicographicKeys (prevKey currentKey : String)
  | recursionLimitExceeded (offset : Nat)
  | trailingBytes (count : Nat)
  deriving DecidableEq

def tagU64 : UInt8 := 0x01
def tagI64 : UInt8 := 0x02
def tagBool : UInt8 := 0x03
def tagBytes : UInt8 := 0x04
def tagString : UInt8 := 0x05
def tagArray : UInt8 := 0x06
def tagMap : UInt8 := 0x07
def tagNull : UInt8 := 0x08

/-!
## Encoding
-/

/-- A length as a 32-bit big-endian word; a longer length saturates. -/
def lengthWord (length : Nat) : Bytes :=
  beBytes 4 (if length < 2 ^ 32 then length else 2 ^ 32 - 1)

mutual

def encodeInto : Bytes → ValueTree → Bytes
  | buf, .u64 value => buf ++ [tagU64] ++ beBytes 8 value.toNat
  | buf, .i64 value => buf ++ [tagI64] ++ beBytes 8 value.toUInt64.toNat
  | buf, .bool value => buf ++ [tagBool] ++ [if value then 0x01 else 0x00]
  | buf, .bytes value => buf ++ [tagBytes] ++ lengthWord value.length ++ value
  | buf, .string value =>
    buf ++ [tagString] ++ lengthWord (utf8 value).length ++ utf8 value
  | buf, .array items => encodeItems (buf ++ [tagArray] ++ lengthWord items.length) items
  | buf, .map entries => encodeEntries (buf ++ [tagMap] ++ lengthWord entries.length) entries
  | buf, .null => buf ++ [tagNull]

def encodeItems : Bytes → List ValueTree → Bytes
  | buf, [] => buf
  | buf, item :: rest => encodeItems (encodeInto buf item) rest

def encodeEntries : Bytes → List (String × ValueTree) → Bytes
  | buf, [] => buf
  | buf, (key, value) :: rest =>
    encodeEntries (encodeInto (buf ++ lengthWord (utf8 key).length ++ utf8 key) value) rest

end

/-!
## Decoding
-/

def needBytes (data : Bytes) (offset count : Nat) : Except SerdeError Unit :=
  if offset + count > data.length then .error (.bufferTooShort (offset + count) data.length)
  else .ok ()

def readWord (data : Bytes) (pos width : Nat) : Nat := ofBeBytes (window data pos width)

/-- A length word at `pos` and the text it announces: string values and map keys. -/
def readText (data : Bytes) (pos : Nat) : Except SerdeError (String × Nat) := do
  needBytes data pos 4
  let length := readWord data pos 4
  let start := pos + 4
  needBytes data start length
  match ofUtf8? (window data start length) with
  | none => .error (.invalidUtf8 start)
  | some text => .ok (text, start + length)

def checkKeyOrder (prevKey : Option String) (key : String) : Except SerdeError Unit :=
  match prevKey with
  | none => .ok ()
  | some prev =>
    if key ≤ prev then
      if key = prev then .error (.duplicateKey key)
      else .error (.nonLexicographicKeys prev key)
    else .ok ()

def decodeU64 (data : Bytes) (pos : Nat) : Except SerdeError (ValueTree × Nat) := do
  needBytes data pos 8
  .ok (.u64 (UInt64.ofNat (readWord data pos 8)), pos + 8)

def decodeI64 (data : Bytes) (pos : Nat) : Except SerdeError (ValueTree × Nat) := do
  needBytes data pos 8
  .ok (.i64 (UInt64.ofNat (readWord data pos 8)).toInt64, pos + 8)

def decodeBool (data : Bytes) (pos : Nat) : Except SerdeError (ValueTree × Nat) := do
  needBytes data pos 1
  let value := UInt8.ofNat (readWord data pos 1)
  if value = 0x00 then .ok (.bool false, pos + 1)
  else if value = 0x01 then .ok (.bool true, pos + 1)
  else .error (.invalidBoolEncoding value pos)

def decodeBytes (data : Bytes) (pos : Nat) : Except SerdeError (ValueTree × Nat) := do
  needBytes data pos 4
  let length := readWord data pos 4
  let start := pos + 4
  needBytes data start length
  .ok (.bytes (window data start length), start + length)

def decodeString (data : Bytes) (pos : Nat) : Except SerdeError (ValueTree × Nat) := do
  let (text, next) ← readText data pos
  .ok (.string text, next)

section Containers

variable (data : Bytes) (decode : Nat → Except SerdeError (ValueTree × Nat))

def decodeItems : Nat → List ValueTree → Nat → Except SerdeError (List ValueTree × Nat)
  | 0, items, cur => .ok (items, cur)
  | count + 1, items, cur => do
      let (value, next) ← decode cur
      decodeItems count (items ++ [value]) next

def decodeEntries : Nat → List (String × ValueTree) → Option String → Nat →
    Except SerdeError (List (String × ValueTree) × Nat)
  | 0, entries, _, cur => .ok (entries, cur)
  | count + 1, entries, prevKey, cur => do
      let (key, cur) ← readText data cur
      checkKeyOrder prevKey key
      let (value, next) ← decode cur
      decodeEntries count (insertEntry key value entries) (some key) next

def decodeArray (pos : Nat) : Except SerdeError (ValueTree × Nat) := do
  needBytes data pos 4
  let count := readWord data pos 4
  let cur := pos + 4
  -- each element takes at least its tag byte
  needBytes data cur count
  let (items, next) ← decodeItems decode count [] cur
  .ok (.array items, next)

def decodeMap (pos : Nat) : Except SerdeError (ValueTree × Nat) := do
  needBytes data pos 4
  let count := readWord data pos 4
  let (entries, next) ← decodeEntries data decode count [] none (pos + 4)
  .ok (.map entries, next)

def decodeTagged (tag : UInt8) (offset : Nat) : Except SerdeError (ValueTree × Nat) :=
  let pos := offset + 1
  if tag = tagU64 then decodeU64 data pos
  else if tag = tagI64 then decodeI64 data pos
  else if tag = tagBool then decodeBool data pos
  else if tag = tagBytes then decodeBytes data pos
  else if tag = tagString then decodeString data pos
  else if tag = tagArray then decodeArray data decode pos
  else if tag = tagMap then decodeMap data decode pos
  else if tag = tagNull then .ok (.null, pos)
  else .error (.invalidTag tag offset)

end Containers

/-- One value at `offset`. The first number counts the levels that may still be
entered: it is 129 less the depth that the source passes down. -/
def decodeAt (data : Bytes) : Nat → Nat → Except SerdeError (ValueTree × Nat)
  | 0, offset => .error (.recursionLimitExceeded offset)
  | levels + 1, offset =>
    match data[offset]? with
    | none => .error (.bufferTooShort (offset + 1) data.length)
    | some tag => decodeTagged data (decodeAt data levels) tag offset

/-- The source refuses depths above 128, so 129 levels can be entered. -/
def maxLevels : Nat := 129

/-!
## Decoded maps are ordered
-/

variable {decode : Nat → Except SerdeError (ValueTree × Nat)}

theorem decodeItems_forall {good : ValueTree → Prop}
    (each : ∀ {cur value next}, decode cur = .ok (value, next) → good value)
    {count cur next : Nat} {items result : List ValueTree}
    (decoded : decodeItems decode count items cur = .ok (result, next))
    (before : ∀ item ∈ items, good item) : ∀ item ∈ result, good item := by
  induction count generalizing items cur with
  | zero =>
    cases decoded
    exact before
  | succ count ih =>
    obtain ⟨⟨value, after⟩, read, rest⟩ := bind_ok decoded
    apply ih rest
    intro item member
    rcases List.mem_append.mp member with old | new
    · exact before item old
    · rw [List.mem_singleton.mp new]
      exact each read

theorem decodeEntries_forall {data : Bytes} {good : ValueTree → Prop}
    (each : ∀ {cur value next}, decode cur = .ok (value, next) → good value)
    {count cur next : Nat} {entries result : List (String × ValueTree)} {prevKey : Option String}
    (decoded : decodeEntries data decode count entries prevKey cur = .ok (result, next))
    (ascending : Ascending entries) (before : ∀ entry ∈ entries, good entry.2) :
    Ascending result ∧ ∀ entry ∈ result, good entry.2 := by
  induction count generalizing entries prevKey cur with
  | zero =>
    cases decoded
    exact ⟨ascending, before⟩
  | succ count ih =>
    obtain ⟨⟨key, afterKey⟩, _, checked⟩ := bind_ok decoded
    obtain ⟨_, _, valued⟩ := bind_ok checked
    obtain ⟨⟨value, after⟩, read, rest⟩ := bind_ok valued
    apply ih rest (ascending.insertEntry key value)
    intro entry member
    rcases mem_insertEntry member with rfl | old
    · exact each read
    · exact before entry old

theorem decodeAt_ordered {data : Bytes} {levels offset next : Nat} {value : ValueTree}
    (decoded : decodeAt data levels offset = .ok (value, next)) : value.Ordered := by
  induction levels generalizing offset value next with
  | zero => cases decoded
  | succ levels ih =>
    simp only [decodeAt] at decoded
    cases found : data[offset]? with
    | none => simp [found] at decoded
    | some tag =>
      simp only [found, decodeTagged] at decoded
      split_ifs at decoded
      · obtain ⟨_, _, read⟩ := bind_ok decoded
        cases read
        exact .u64
      · obtain ⟨_, _, read⟩ := bind_ok decoded
        cases read
        exact .i64
      · obtain ⟨_, _, read⟩ := bind_ok decoded
        dsimp only at read
        split_ifs at read <;> cases read <;> exact .bool
      · obtain ⟨_, _, sized⟩ := bind_ok decoded
        obtain ⟨_, _, read⟩ := bind_ok sized
        cases read
        exact .bytes
      · obtain ⟨_, _, read⟩ := bind_ok decoded
        cases read
        exact .string
      · obtain ⟨_, _, counted⟩ := bind_ok decoded
        obtain ⟨_, _, guarded⟩ := bind_ok counted
        obtain ⟨⟨items, after⟩, looped, read⟩ := bind_ok guarded
        cases read
        exact .array (decodeItems_forall ih looped (by simp))
      · obtain ⟨_, _, counted⟩ := bind_ok decoded
        obtain ⟨⟨entries, after⟩, looped, read⟩ := bind_ok counted
        cases read
        obtain ⟨ascending, each⟩ := decodeEntries_forall ih looped .nil (by simp)
        exact .map ascending each
      · cases decoded
        exact .null

/-!
## Whole payloads
-/

def encodeValue (value : CanonicalValue) : Bytes := encodeInto [] value.tree

def decodeFrom (data : Bytes) (offset : Nat) : Except SerdeError CanonicalValue :=
  match decoded : decodeAt data maxLevels offset with
  | .error error => .error error
  | .ok (value, consumed) =>
    if consumed < data.length then .error (.trailingBytes (data.length - consumed))
    else .ok ⟨value, decodeAt_ordered decoded⟩

def decodeValue (data : Bytes) : Except SerdeError CanonicalValue := decodeFrom data 0

def serializeWithSchema (schema : SchemaHash) (value : CanonicalValue) : Bytes :=
  encodeInto schema.bytes value.tree

def deserializeWithSchema (expectedSchema : SchemaHash) (data : Bytes) :
    Except SerdeError CanonicalValue :=
  if short : data.length < 32 then .error (.bufferTooShort 32 data.length)
  else
    let actualSchema : SchemaHash := ⟨data.take 32, by simp; omega⟩
    if actualSchema ≠ expectedSchema then
      .error (.schemaMismatch expectedSchema actualSchema)
    else decodeFrom data 32

end FrankenEngine.Serde
