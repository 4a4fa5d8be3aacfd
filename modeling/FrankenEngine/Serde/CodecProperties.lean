import FrankenEngine.Serde.Codec

/-! The decoder accepts exactly the encoder's image. Soundness says that every
accepted span is the encoding of the value read from it, completeness that an
encoding within the size and depth limits is read back from any position. -/

set_option autoImplicit false

namespace FrankenEngine.Serde

open Library Holds List

def encoding (value : ValueTree) : Bytes := encodeInto [] value

def textEncoding (text : String) : Bytes := lengthWord (utf8 text).length ++ utf8 text

def entryEncoding (entry : String × ValueTree) : Bytes := textEncoding entry.1 ++ encoding entry.2

mutual

theorem encodeInto_append (buf : Bytes) (value : ValueTree) :
    encodeInto buf value = buf ++ encoding value := by
  cases value with
  | u64 | i64 | bool | bytes | string | null => simp [encoding, encodeInto]
  | array items =>
    simp only [encoding, encodeInto]
    rw [encodeItems_append, encodeItems_append ([] ++ [tagArray] ++ _)]
    simp
  | map entries =>
    simp only [encoding, encodeInto]
    rw [encodeEntries_append, encodeEntries_append ([] ++ [tagMap] ++ _)]
    simp

theorem encodeItems_append (buf : Bytes) (items : List ValueTree) :
    encodeItems buf items = buf ++ items.flatMap encoding := by
  cases items with
  | nil => simp [encodeItems]
  | cons item rest =>
    rw [encodeItems, encodeItems_append, encodeInto_append]
    simp

theorem encodeEntries_append (buf : Bytes) (entries : List (String × ValueTree)) :
    encodeEntries buf entries = buf ++ entries.flatMap entryEncoding := by
  cases entries with
  | nil => simp [encodeEntries]
  | cons entry rest =>
    obtain ⟨key, value⟩ := entry
    rw [encodeEntries, encodeEntries_append, encodeInto_append]
    simp [entryEncoding, textEncoding]

end

theorem encoding_u64 (value : UInt64) :
    encoding (.u64 value) = [tagU64] ++ beBytes 8 value.toNat := by
  simp [encoding, encodeInto]

theorem encoding_i64 (value : Int64) :
    encoding (.i64 value) = [tagI64] ++ beBytes 8 value.toUInt64.toNat := by
  simp [encoding, encodeInto]

theorem encoding_bool (value : Bool) :
    encoding (.bool value) = [tagBool] ++ [if value then 0x01 else 0x00] := by
  simp [encoding, encodeInto]

theorem encoding_bytes (value : Bytes) :
    encoding (.bytes value) = [tagBytes] ++ (lengthWord value.length ++ value) := by
  simp [encoding, encodeInto]

theorem encoding_string (value : String) :
    encoding (.string value) = [tagString] ++ textEncoding value := by
  simp [encoding, encodeInto, textEncoding]

theorem encoding_array (items : List ValueTree) : encoding (.array items) =
      [tagArray] ++ (lengthWord items.length ++ items.flatMap encoding) := by
  rw [encoding, encodeInto, encodeItems_append]
  simp

theorem encoding_map (entries : List (String × ValueTree)) : encoding (.map entries) =
      [tagMap] ++ (lengthWord entries.length ++ entries.flatMap entryEncoding) := by
  rw [encoding, encodeInto, encodeEntries_append]
  simp

theorem encoding_null : encoding .null = [tagNull] := rfl

theorem encoding_pos (value : ValueTree) : 0 < (encoding value).length := by
  cases value with
  | u64 value => rw [encoding_u64]; simp
  | i64 value => rw [encoding_i64]; simp
  | bool value => rw [encoding_bool]; simp
  | bytes value => rw [encoding_bytes]; simp
  | string value => rw [encoding_string]; simp
  | array items => rw [encoding_array]; simp
  | map entries => rw [encoding_map]; simp
  | null => rw [encoding_null]; simp

theorem length_le_flatMap_encoding (items : List ValueTree) :
    items.length ≤ (items.flatMap encoding).length := by
  induction items with
  | nil => simp
  | cons item rest ih =>
    have nonempty := encoding_pos item
    simp only [length_cons, flatMap_cons, length_append]
    omega

variable {offset pos width next levels : Nat} {value : ValueTree} {data : Bytes}

theorem needBytes_ok_iff {count : Nat} :
    needBytes data offset count = .ok () ↔ offset + count ≤ data.length := by
  rw [needBytes, else_ok_iff, not_lt]
  exact and_iff_left rfl

theorem lengthWord_of_lt {length : Nat} (small : length < 2 ^ 32) :
    lengthWord length = beBytes 4 length := by
  rw [lengthWord, if_pos small]

@[simp] theorem length_lengthWord (length : Nat) : (lengthWord length).length = 4 := by
  simp [lengthWord]

theorem readWord_lt (data : Bytes) (inside : pos + width ≤ data.length) :
    readWord data pos width < 256 ^ width := by
  have bound := ofBeBytes_lt (window data pos width)
  rwa [length_window inside] at bound

theorem beBytes_readWord (inside : pos + width ≤ data.length) :
    beBytes width (readWord data pos width) = window data pos width := by
  have restored := beBytes_ofBeBytes (window data pos width)
  rwa [length_window inside] at restored

theorem lengthWord_readWord (inside : pos + 4 ≤ data.length) :
    lengthWord (readWord data pos 4) = window data pos 4 := by
  rw [lengthWord_of_lt (readWord_lt data inside), beBytes_readWord inside]

theorem readWord_of_holds {value : Nat} (fits : value < 256 ^ width)
    (held : Holds data pos (beBytes width value) next) : readWord data pos width = value := by
  have read := held.window_eq
  rw [length_beBytes] at read
  rw [readWord, read, ofBeBytes_beBytes_of_lt fits]

theorem holds_counted (wordInside : pos + 4 ≤ data.length)
    (inside : pos + 4 + readWord data pos 4 ≤ data.length) : Holds data pos
      (lengthWord (window data (pos + 4) (readWord data pos 4)).length ++
        window data (pos + 4) (readWord data pos 4))
      (pos + 4 + readWord data pos 4) := by
  rw [length_window inside, lengthWord_readWord wordInside]
  exact (window wordInside).append (window inside)

theorem counted_of_holds {count : Nat} {body : Bytes} (small : count < 2 ^ 32)
    (start : pos ≤ data.length) (held : Holds data pos (lengthWord count ++ body) next) :
    pos + 4 ≤ data.length ∧ readWord data pos 4 = count ∧ Holds data (pos + 4) body next := by
  obtain ⟨word, rest⟩ := held.split
  have inside := word.le_length start
  rw [lengthWord_of_lt small] at word
  exact ⟨inside, readWord_of_holds small word, rest⟩

theorem readText_sound {text : String} (read : readText data pos = .ok (text, next)) :
    Holds data pos (textEncoding text) next := by
  obtain ⟨_, wordOk, sized⟩ := bind_ok read
  obtain ⟨_, textOk, converted⟩ := bind_ok sized
  have wordInside := needBytes_ok_iff.mp wordOk
  have inside := needBytes_ok_iff.mp textOk
  cases shape : ofUtf8? (window data (pos + 4) (readWord data pos 4)) with
  | none => simp [shape] at converted
  | some found =>
    simp only [shape, Except.ok.injEq, Prod.mk.injEq] at converted
    obtain ⟨rfl, rfl⟩ := converted
    rw [textEncoding, utf8_of_ofUtf8? shape]
    exact holds_counted wordInside inside

theorem readText_complete {text : String} (small : (utf8 text).length < 2 ^ 32)
    (start : pos ≤ data.length) (held : Holds data pos (textEncoding text) next) :
    readText data pos = .ok (text, next) := by
  obtain ⟨wordInside, length, body⟩ := counted_of_holds small start held
  have bodyInside := body.le_length wordInside
  have stop := body.stop
  have shown := body.window_eq
  rw [stop] at bodyInside
  simp only [readText, length, needBytes_ok_iff.mpr wordInside, needBytes_ok_iff.mpr bodyInside, ok_bind,
    shown, ofUtf8?_utf8, stop]

section Soundness

variable {data : Bytes} {decode : Nat → Except SerdeError (ValueTree × Nat)}

def ReadsEncodings (data : Bytes) (decode : Nat → Except SerdeError (ValueTree × Nat)) : Prop :=
  ∀ {cur value next}, decode cur = .ok (value, next) → Holds data cur (encoding value) next

def Tagged (data : Bytes) (tag : UInt8) (pos : Nat) (value : ValueTree) (next : Nat) : Prop :=
  ∃ block, encoding value = [tag] ++ block ∧ Holds data pos block next

variable {next pos : Nat} {value : ValueTree}

theorem decodeItems_sound (each : ReadsEncodings data decode) {count cur : Nat}
    {items result : List ValueTree}
    (decoded : decodeItems decode count items cur = .ok (result, next)) :
    ∃ added, result = items ++ added ∧ added.length = count ∧
      Holds data cur (added.flatMap encoding) next := by
  induction count generalizing items cur with
  | zero =>
    cases decoded
    exact ⟨[], by simp, rfl, empty data _⟩
  | succ count ih =>
    obtain ⟨⟨value, after⟩, read, rest⟩ := bind_ok decoded
    obtain ⟨added, shape, length, held⟩ := ih rest
    refine ⟨value :: added, by simp [shape], by simp [length], ?_⟩
    exact (each read).append held

theorem checkKeyOrder_ok {prev key : String} {token : Unit}
    (accepted : checkKeyOrder (some prev) key = .ok token) : prev < key := by
  simp only [checkKeyOrder] at accepted
  split_ifs at accepted with low
  exact not_le.mp low

/-- The entry loop only ever inserts above the keys already present, so the
entries it adds stand behind them in the order in which they were read. -/
theorem decodeEntries_sound (each : ReadsEncodings data decode) {count cur : Nat}
    {entries result : List (String × ValueTree)} {prevKey : Option String}
    (decoded : decodeEntries data decode count entries prevKey cur = .ok (result, next))
    (below : ∀ entry ∈ entries, ∃ prev, prevKey = some prev ∧ entry.1 ≤ prev) :
    ∃ added, result = entries ++ added ∧ added.length = count ∧
      Holds data cur (added.flatMap entryEncoding) next := by
  induction count generalizing entries prevKey cur with
  | zero =>
    cases decoded
    exact ⟨[], by simp, rfl, empty data _⟩
  | succ count ih =>
    obtain ⟨⟨key, afterKey⟩, readKey, checked⟩ := bind_ok decoded
    obtain ⟨token, orderOk, valued⟩ := bind_ok checked
    obtain ⟨⟨value, after⟩, read, rest⟩ := bind_ok valued
    have above : ∀ entry ∈ entries, entry.1 < key := by
      intro entry member
      obtain ⟨prev, known, low⟩ := below entry member
      subst known
      exact lt_of_le_of_lt low (checkKeyOrder_ok orderOk)
    simp only [insertEntry_above above] at rest
    obtain ⟨added, shape, length, held⟩ := ih rest (by
      intro entry member
      refine ⟨key, rfl, ?_⟩
      rcases mem_append.mp member with old | new
      · exact le_of_lt (above entry old)
      · rw [mem_singleton.mp new])
    refine ⟨(key, value) :: added, by simp [shape], by simp [length], ?_⟩
    exact ((readText_sound readKey).append (each read)).append held

theorem holds_word64 (inside : pos + 8 ≤ data.length) :
    Holds data pos (beBytes 8 (UInt64.ofNat (readWord data pos 8)).toNat) (pos + 8) := by
  have fits : readWord data pos 8 < 2 ^ 64 := readWord_lt data inside
  rw [UInt64.toNat_ofNat_of_lt' fits, beBytes_readWord inside]
  exact window inside

theorem decodeU64_sound (decoded : decodeU64 data pos = .ok (value, next)) :
    Tagged data tagU64 pos value next := by
  obtain ⟨_, wordOk, read⟩ := bind_ok decoded
  cases read
  exact ⟨_, encoding_u64 _, holds_word64 (needBytes_ok_iff.mp wordOk)⟩

theorem decodeI64_sound (decoded : decodeI64 data pos = .ok (value, next)) :
    Tagged data tagI64 pos value next := by
  obtain ⟨_, wordOk, read⟩ := bind_ok decoded
  cases read
  refine ⟨_, encoding_i64 _, ?_⟩
  exact holds_word64 (needBytes_ok_iff.mp wordOk)

theorem decodeBool_sound (decoded : decodeBool data pos = .ok (value, next)) :
    Tagged data tagBool pos value next := by
  obtain ⟨_, wordOk, read⟩ := bind_ok decoded
  have inside := needBytes_ok_iff.mp wordOk
  have held : Holds data pos [UInt8.ofNat (readWord data pos 1)] (pos + 1) := by
    have byte := window inside
    have small : readWord data pos 1 < 256 := readWord_lt data inside
    rw [← beBytes_readWord inside] at byte
    simpa [beBytes, Nat.mod_eq_of_lt small] using byte
  dsimp only at read
  split_ifs at read with zero one
  · cases read
    exact ⟨_, encoding_bool _, by simpa [zero] using held⟩
  · cases read
    exact ⟨_, encoding_bool _, by simpa [one] using held⟩

theorem decodeBytes_sound (decoded : decodeBytes data pos = .ok (value, next)) :
    Tagged data tagBytes pos value next := by
  obtain ⟨_, wordOk, sized⟩ := bind_ok decoded
  obtain ⟨_, bytesOk, read⟩ := bind_ok sized
  cases read
  exact ⟨_, encoding_bytes _, holds_counted (needBytes_ok_iff.mp wordOk) (needBytes_ok_iff.mp bytesOk)⟩

theorem decodeString_sound (decoded : decodeString data pos = .ok (value, next)) :
    Tagged data tagString pos value next := by
  obtain ⟨⟨text, after⟩, textOk, read⟩ := bind_ok decoded
  cases read
  exact ⟨_, encoding_string _, readText_sound textOk⟩

variable (each : ReadsEncodings data decode)

include each

theorem decodeArray_sound (decoded : decodeArray data decode pos = .ok (value, next)) :
    Tagged data tagArray pos value next := by
  obtain ⟨_, wordOk, counted⟩ := bind_ok decoded
  obtain ⟨_, _, guarded⟩ := bind_ok counted
  obtain ⟨⟨items, after⟩, looped, read⟩ := bind_ok guarded
  have inside := needBytes_ok_iff.mp wordOk
  cases read
  obtain ⟨added, rfl, length, held⟩ := decodeItems_sound each looped
  refine ⟨_, encoding_array _, ?_⟩
  rw [length, lengthWord_readWord inside]
  exact (window inside).append held

theorem decodeMap_sound (decoded : decodeMap data decode pos = .ok (value, next)) :
    Tagged data tagMap pos value next := by
  obtain ⟨_, wordOk, counted⟩ := bind_ok decoded
  obtain ⟨⟨entries, after⟩, looped, read⟩ := bind_ok counted
  have inside := needBytes_ok_iff.mp wordOk
  cases read
  obtain ⟨added, rfl, length, held⟩ := decodeEntries_sound each looped (by simp)
  refine ⟨_, encoding_map _, ?_⟩
  rw [length, lengthWord_readWord inside]
  exact (window inside).append held

theorem decodeTagged_sound {tag : UInt8} {offset : Nat}
    (decoded : decodeTagged data decode tag offset = .ok (value, next)) :
    Tagged data tag (offset + 1) value next := by
  simp only [decodeTagged] at decoded
  split_ifs at decoded with isU64 isI64 isBool isBytes isString isArray isMap isNull
  · exact isU64 ▸ decodeU64_sound decoded
  · exact isI64 ▸ decodeI64_sound decoded
  · exact isBool ▸ decodeBool_sound decoded
  · exact isBytes ▸ decodeBytes_sound decoded
  · exact isString ▸ decodeString_sound decoded
  · exact isArray ▸ decodeArray_sound each decoded
  · exact isMap ▸ decodeMap_sound each decoded
  · cases decoded
    exact ⟨[], by rw [isNull, encoding_null]; rfl, empty data _⟩

end Soundness

theorem decodeAt_sound (decoded : decodeAt data levels offset = .ok (value, next)) :
    Holds data offset (encoding value) next := by
  induction levels generalizing offset value next with
  | zero => cases decoded
  | succ levels ih =>
    simp only [decodeAt] at decoded
    cases found : data[offset]? with
    | none => simp [found] at decoded
    | some tag =>
      simp only [found] at decoded
      obtain ⟨block, shape, held⟩ := decodeTagged_sound ih decoded
      have tagged : Holds data offset [tag] (offset + 1) := by
        obtain ⟨inside, stored⟩ := List.getElem?_eq_some_iff.mp found
        refine ⟨?_, rfl⟩
        rw [drop_eq_getElem_cons inside, stored]
        rfl
      rw [shape]
      exact tagged.append held

theorem decodeFrom_ok {value : CanonicalValue} (decoded : decodeFrom data offset = .ok value) :
    ∃ consumed, decodeAt data maxLevels offset = .ok (value.tree, consumed) ∧
      data.length ≤ consumed := by
  unfold decodeFrom at decoded
  split at decoded
  · cases decoded
  · next tree consumed accepted =>
    split at decoded
    · cases decoded
    · next ended =>
      cases decoded
      exact ⟨consumed, accepted, by omega⟩

/-- Canonical decoding is strict: the only accepted bytes for a value are the
bytes that the encoder writes for it. -/
theorem decodeValue_strict :
    (∀ (data : Bytes) (value : CanonicalValue),
      decodeValue data = .ok value → encodeValue value = data) ∧
    ∀ (left right : Bytes) (value : CanonicalValue),
      decodeValue left = .ok value → decodeValue right = .ok value → left = right := by
  have strict : ∀ (data : Bytes) (value : CanonicalValue),
      decodeValue data = .ok value → encodeValue value = data := by
    intro data value decoded
    obtain ⟨consumed, accepted, ended⟩ := decodeFrom_ok decoded
    exact (decodeAt_sound accepted).whole ended
  refine ⟨strict, ?_⟩
  intro left right value leftDecoded rightDecoded
  exact (strict left value leftDecoded).symm.trans (strict right value rightDecoded)

def nestedSample : CanonicalValue where
  tree := .map [("a", .array [.u64 7, .bool true]), ("b", .null)]
  ordered := .map (by decide) (List.forall_mem_cons.mpr
    ⟨.array (List.forall_mem_cons.mpr ⟨.u64, List.forall_mem_singleton.mpr .bool⟩),
      List.forall_mem_singleton.mpr .null⟩)

set_option maxRecDepth 4000 in
theorem decodeValue_strict_nestedSample :
    encodeValue nestedSample = [7, 0, 0, 0, 2, 0, 0, 0, 1, 97, 6, 0, 0, 0, 2,
      1, 0, 0, 0, 0, 0, 0, 0, 7, 3, 1, 0, 0, 0, 1, 98, 8] :=
  decodeValue_strict.1 _ nestedSample rfl

section Completeness

variable {data : Bytes} {decode : Nat → Except SerdeError (ValueTree × Nat)} {next pos : Nat}

def ReadsBack (data : Bytes) (decode : Nat → Except SerdeError (ValueTree × Nat))
    (value : ValueTree) : Prop :=
  ∀ {cur next}, cur ≤ data.length → Holds data cur (encoding value) next →
    decode cur = .ok (value, next)

theorem decodeItems_complete {added : List ValueTree}
    (each : ∀ item ∈ added, ReadsBack data decode item) {cur : Nat}
    (items : List ValueTree) (start : cur ≤ data.length)
    (held : Holds data cur (added.flatMap encoding) next) :
    decodeItems decode added.length items cur = .ok (items ++ added, next) := by
  induction added generalizing items cur with
  | nil =>
    have stop := held.stop
    simp [decodeItems, stop]
  | cons item rest ih =>
    obtain ⟨first, others⟩ := held.split
    have read := each item (.head _) start first
    have tail := ih (fun other member => each other (.tail _ member)) (items ++ [item])
      (first.le_length start) others
    rw [length_cons, decodeItems, read, ok_bind]
    simpa using tail

theorem checkKeyOrder_of_lt {prevKey : Option String} {key : String}
    (above : ∀ prev, prevKey = some prev → prev < key) : checkKeyOrder prevKey key = .ok () := by
  cases prevKey with
  | none => rfl
  | some prev =>
    have low := above prev rfl
    simp only [checkKeyOrder]
    rw [if_neg (not_le.mpr low)]

theorem decodeEntries_complete {added : List (String × ValueTree)} (ascending : Ascending added)
    (small : ∀ entry ∈ added, (utf8 entry.1).length < 2 ^ 32)
    (each : ∀ entry ∈ added, ReadsBack data decode entry.2) {cur : Nat}
    {entries : List (String × ValueTree)} {prevKey : Option String}
    (above : ∀ entry ∈ added, ∀ prev, prevKey = some prev → prev < entry.1)
    (below : ∀ old ∈ entries, ∀ entry ∈ added, old.1 < entry.1) (start : cur ≤ data.length)
    (held : Holds data cur (added.flatMap entryEncoding) next) :
    decodeEntries data decode added.length entries prevKey cur = .ok (entries ++ added, next) := by
  induction added generalizing entries prevKey cur with
  | nil =>
    have stop := held.stop
    simp [decodeEntries, stop]
  | cons entry rest ih =>
    obtain ⟨key, value⟩ := entry
    obtain ⟨lowest, tailAscending⟩ := pairwise_cons.mp ascending
    obtain ⟨first, others⟩ := held.split
    obtain ⟨keyHeld, valueHeld⟩ := split first
    have keyInside := keyHeld.le_length start
    have keyRead := readText_complete (small (key, value) (.head _)) start keyHeld
    have ordered := checkKeyOrder_of_lt (above (key, value) (.head _))
    have read := each (key, value) (.head _) keyInside valueHeld
    have inserted : insertEntry key value entries = entries ++ [(key, value)] :=
      insertEntry_above fun old member => below old member (key, value) (.head _)
    have tail := ih tailAscending (fun other member => small other (.tail _ member))
      (fun other member => each other (.tail _ member))
      (fun other member prev known => Option.some.inj known ▸ lowest other member)
      (by
        intro old member other otherMember
        rcases mem_append.mp member with present | new
        · exact below old present other (.tail _ otherMember)
        · rw [mem_singleton.mp new]
          exact lowest other otherMember)
      (first.le_length start) others
    rw [length_cons, decodeEntries, keyRead, ok_bind]
    simp only [ordered, ok_bind, read, inserted]
    simpa using tail

theorem decodeArray_complete {items : List ValueTree} (few : items.length < 2 ^ 32)
    (each : ∀ item ∈ items, ReadsBack data decode item) (start : pos ≤ data.length)
    (held : Holds data pos (lengthWord items.length ++ items.flatMap encoding) next) :
    decodeArray data decode pos = .ok (.array items, next) := by
  obtain ⟨wordInside, count, body⟩ := counted_of_holds few start held
  -- the guard asks for one byte an element, and every element encodes to at least one
  have guarded : pos + 4 + items.length ≤ data.length := by
    have inside := body.le_length wordInside
    have stop := body.stop
    have tags := length_le_flatMap_encoding items
    omega
  have looped := decodeItems_complete each [] wordInside body
  simp only [decodeArray, needBytes_ok_iff.mpr wordInside, ok_bind, count, needBytes_ok_iff.mpr guarded,
    looped, nil_append]

theorem decodeMap_complete {entries : List (String × ValueTree)} (few : entries.length < 2 ^ 32)
    (ascending : Ascending entries) (small : ∀ entry ∈ entries, (utf8 entry.1).length < 2 ^ 32)
    (each : ∀ entry ∈ entries, ReadsBack data decode entry.2) (start : pos ≤ data.length)
    (held : Holds data pos (lengthWord entries.length ++ entries.flatMap entryEncoding) next) :
    decodeMap data decode pos = .ok (.map entries, next) := by
  obtain ⟨wordInside, count, body⟩ := counted_of_holds few start held
  have looped : decodeEntries data decode entries.length [] none (pos + 4) =
      .ok ([] ++ entries, next) :=
    decodeEntries_complete ascending small each (by simp) (by simp) wordInside body
  simp only [decodeMap, needBytes_ok_iff.mpr wordInside, ok_bind, count, looped, nil_append]

theorem word64_of_holds {word : UInt64} (start : pos ≤ data.length)
    (held : Holds data pos (beBytes 8 word.toNat) next) :
    needBytes data pos 8 = .ok () ∧ readWord data pos 8 = word.toNat ∧ next = pos + 8 := by
  have inside := held.le_length start
  have stop := held.stop
  rw [stop] at inside
  exact ⟨needBytes_ok_iff.mpr inside, readWord_of_holds word.toNat_lt held, stop⟩

theorem decodeU64_complete {value : UInt64} (start : pos ≤ data.length)
    (held : Holds data pos (beBytes 8 value.toNat) next) :
    decodeU64 data pos = .ok (.u64 value, next) := by
  obtain ⟨room, word, stop⟩ := word64_of_holds start held
  simp [decodeU64, room, word, stop]

theorem decodeI64_complete {value : Int64} (start : pos ≤ data.length)
    (held : Holds data pos (beBytes 8 value.toUInt64.toNat) next) :
    decodeI64 data pos = .ok (.i64 value, next) := by
  obtain ⟨room, word, stop⟩ := word64_of_holds start held
  simp [decodeI64, room, word, stop]

theorem decodeBool_complete {value : Bool} (start : pos ≤ data.length)
    (held : Holds data pos [if value then 0x01 else 0x00] next) :
    decodeBool data pos = .ok (.bool value, next) := by
  have inside := held.le_length start
  have stop := held.stop
  have shown := held.window_eq
  simp only [length_singleton] at stop shown
  rw [stop] at inside
  cases value <;> simp [decodeBool, needBytes_ok_iff.mpr inside, readWord, shown, ofBeBytes, stop]

theorem decodeBytes_complete {value : Bytes} (small : value.length < 2 ^ 32)
    (start : pos ≤ data.length) (held : Holds data pos (lengthWord value.length ++ value) next) :
    decodeBytes data pos = .ok (.bytes value, next) := by
  obtain ⟨wordInside, length, body⟩ := counted_of_holds small start held
  have bodyInside := body.le_length wordInside
  have stop := body.stop
  rw [stop] at bodyInside
  simp only [decodeBytes, needBytes_ok_iff.mpr wordInside, ok_bind, length,
    needBytes_ok_iff.mpr bodyInside, body.window_eq, stop]

end Completeness

theorem decodeAt_of_tagged (start : offset ≤ data.length)
    (held : Holds data offset (encoding value) next) {tag : UInt8} {block : Bytes}
    (shape : encoding value = [tag] ++ block)
    (accepted : offset + 1 ≤ data.length → Holds data (offset + 1) block next →
      decodeTagged data (decodeAt data levels) tag offset = .ok (value, next)) :
    decodeAt data (levels + 1) offset = .ok (value, next) := by
  rw [shape] at held
  have stored : data[offset]? = some tag := by
    have found := held.found
    have head := congrArg head? found
    simpa using head
  obtain ⟨first, rest⟩ := held.split
  simp only [decodeAt, stored, accepted (first.le_length start) rest]

/-- An encoding within the size and depth limits is read back from any offset,
whatever bytes stand before and behind it. -/
theorem decodeAt_complete (ordered : value.Ordered) (sized : value.Sized)
    (shallow : value.depth < levels) (start : offset ≤ data.length)
    (held : Holds data offset (encoding value) next) :
    decodeAt data levels offset = .ok (value, next) := by
  induction levels generalizing offset value next with
  | zero => exact absurd shallow (Nat.not_lt_zero _)
  | succ levels ih =>
    cases value with
    | u64 value => exact decodeAt_of_tagged start held (encoding_u64 value) decodeU64_complete
    | i64 value => exact decodeAt_of_tagged start held (encoding_i64 value) decodeI64_complete
    | bool value => exact decodeAt_of_tagged start held (encoding_bool value) decodeBool_complete
    | bytes value =>
      cases sized with
      | bytes small =>
        exact decodeAt_of_tagged start held (encoding_bytes value)
          (decodeBytes_complete small)
    | string value =>
      cases sized with
      | string small =>
        refine decodeAt_of_tagged start held (encoding_string value) fun inside rest => ?_
        change decodeString data (offset + 1) = _
        simp only [decodeString, readText_complete small inside rest, ok_bind]
    | array items =>
      cases ordered with
      | array itemsOrdered =>
        cases sized with
        | array few itemsSized =>
          refine decodeAt_of_tagged start held (encoding_array items)
            (decodeArray_complete few ?_)
          intro item member cur next begun itemHeld
          have deeper := ValueTree.depth_lt_of_mem_items member
          exact ih (itemsOrdered item member) (itemsSized item member) (by omega) begun
            itemHeld
    | map entries =>
      cases ordered with
      | map ascending valuesOrdered =>
        cases sized with
        | map few keysSmall valuesSized =>
          refine decodeAt_of_tagged start held (encoding_map entries)
            (decodeMap_complete few ascending keysSmall ?_)
          intro entry member cur next begun valueHeld
          have deeper := ValueTree.depth_lt_of_mem_entries member
          exact ih (valuesOrdered entry member) (valuesSized entry member) (by omega)
            begun valueHeld
    | null =>
      have shape : encoding .null = [tagNull] ++ [] := rfl
      refine decodeAt_of_tagged start held shape fun _ rest => ?_
      rw [rest.stop]
      rfl

/-- Values that the decoder reads back: ordered, and within the limits of length
words and of nesting. -/
def ValueTree.Readable (value : ValueTree) : Prop :=
  value.Ordered ∧ value.Sized ∧ value.depth ≤ 128

theorem framed_encoding : Framed ValueTree.Readable encoding := by
  rintro left right after after' ⟨leftOrdered, leftSized, leftShallow⟩
    ⟨rightOrdered, rightSized, rightShallow⟩ same
  have leftFront : (encoding left ++ after).drop 0 = encoding left ++ after := rfl
  have rightFront : (encoding left ++ after).drop 0 = encoding right ++ after' := same
  have leftRead := decodeAt_complete leftOrdered leftSized (Nat.lt_succ_of_le leftShallow)
    (Nat.zero_le _) (of_drop leftFront)
  have rightRead := decodeAt_complete rightOrdered rightSized (Nat.lt_succ_of_le rightShallow)
    (Nat.zero_le _) (of_drop rightFront)
  rw [leftRead] at rightRead
  obtain ⟨rfl, -⟩ := Prod.mk.inj (Except.ok.inj rightRead)
  exact ⟨rfl, append_cancel_left same⟩

theorem decodeFrom_complete {value : CanonicalValue} (sized : value.tree.Sized)
    (shallow : value.tree.depth ≤ 128) (start : offset ≤ data.length)
    (held : data.drop offset = encoding value.tree) : decodeFrom data offset = .ok value := by
  have block : data.drop offset = encoding value.tree ++ [] := by rw [held, append_nil]
  have accepted : decodeAt data maxLevels offset = _ :=
    decodeAt_complete value.ordered sized (Nat.lt_succ_of_le shallow) start (of_drop block)
  have ended : data.length ≤ offset + (encoding value.tree).length := by
    have sizes := congrArg length held
    rw [length_drop] at sizes
    omega
  unfold decodeFrom
  split
  · next error rejected =>
    rw [accepted] at rejected
    cases rejected
  · next tree consumed decoded =>
    rw [accepted] at decoded
    cases decoded
    rw [if_neg (by omega)]

/-- Decoding inverts encoding on every value within the limits, with and without
a schema prefix. -/
theorem decodeValue_encodeValue (value : CanonicalValue) (sized : value.tree.Sized)
    (shallow : value.tree.depth ≤ 128) :
    decodeValue (encodeValue value) = .ok value ∧
      ∀ schema : SchemaHash,
        deserializeWithSchema schema (serializeWithSchema schema value) = .ok value := by
  refine ⟨decodeFrom_complete sized shallow (Nat.zero_le _) rfl, ?_⟩
  intro schema
  have shape : serializeWithSchema schema value = schema.bytes ++ encoding value.tree :=
    encodeInto_append schema.bytes value.tree
  have long : ¬ (serializeWithSchema schema value).length < 32 := by
    rw [shape, List.length_append, schema.width]
    omega
  have prefixed : (serializeWithSchema schema value).take 32 = schema.bytes := by
    rw [shape, ← schema.width, List.take_left]
  have behind : (serializeWithSchema schema value).drop 32 = encoding value.tree := by
    rw [shape, ← schema.width, List.drop_left]
  unfold deserializeWithSchema
  rw [dif_neg long]
  simp only [prefixed]
  rw [if_neg (not_not.mpr rfl)]
  exact decodeFrom_complete sized shallow (by omega) behind

theorem decodeValue_encodeValue_nestedSample :
    decodeValue (encodeValue nestedSample) = .ok nestedSample :=
  (decodeValue_encodeValue nestedSample (.map (by decide) (by decide) (List.forall_mem_cons.mpr
      ⟨.array (by decide) (List.forall_mem_cons.mpr ⟨.u64, List.forall_mem_singleton.mpr .bool⟩),
        List.forall_mem_singleton.mpr .null⟩)) (by decide)).1

/-!
## Encodings of records

Short values are read off the front one after the other; a text in the last
place is what is left behind its length word, however long it is. So the
encoding of a record, a map whose keys are fixed, determines its values.
-/

open ValueTree

variable {left right : List (String × ValueTree)}

theorem framed_entries {after after' : Bytes} (keys : left.map Prod.fst = right.map Prod.fst)
    (leftReadable : ∀ entry ∈ left, entry.2.Readable)
    (rightReadable : ∀ entry ∈ right, entry.2.Readable)
    (same : left.flatMap entryEncoding ++ after = right.flatMap entryEncoding ++ after') :
    left = right ∧ after = after' := by
  induction left generalizing right with
  | nil =>
    obtain rfl : right = [] := map_eq_nil_iff.mp keys.symm
    exact ⟨rfl, same⟩
  | cons entry left ih =>
    cases right with
    | nil => cases keys
    | cons other right =>
      obtain ⟨key, value⟩ := entry
      obtain ⟨otherKey, otherValue⟩ := other
      obtain ⟨rfl, otherKeys⟩ := cons.inj keys
      simp only [flatMap_cons, entryEncoding, append_assoc] at same
      obtain ⟨rfl, rest⟩ := framed_encoding (leftReadable _ (.head _)) (rightReadable _ (.head _))
        (append_cancel_left same)
      obtain ⟨rfl, behind⟩ := ih otherKeys
        (fun entry member => leftReadable entry (.tail _ member))
        (fun entry member => rightReadable entry (.tail _ member)) rest
      exact ⟨rfl, behind⟩

theorem encoding_record_injective {key text text' : String}
    (keys : left.map Prod.fst = right.map Prod.fst)
    (leftReadable : ∀ entry ∈ left, entry.2.Readable)
    (rightReadable : ∀ entry ∈ right, entry.2.Readable)
    (same : encoding (.map (left ++ [(key, .string text)])) =
      encoding (.map (right ++ [(key, .string text')]))) :
    left = right ∧ text = text' := by
  have sizes : left.length = right.length := by
    simpa using congrArg length keys
  rw [encoding_map, encoding_map, length_append, length_append, sizes] at same
  simp only [flatMap_append, flatMap_singleton] at same
  have entries := append_cancel_left (append_cancel_left same)
  obtain ⟨rfl, last⟩ := framed_entries keys leftReadable rightReadable entries
  refine ⟨rfl, ?_⟩
  simp only [entryEncoding, encoding_string] at last
  have words := append_cancel_left last
  have texts := append_inj (append_cancel_left words)
    ((length_lengthWord _).trans (length_lengthWord _).symm)
  exact utf8_injective texts.2

theorem readable_u64 (value : UInt64) : (u64 value).Readable :=
  ⟨.u64, .u64, Nat.zero_le _⟩

theorem readable_bytes {value : Bytes} (short : value.length < 2 ^ 32) :
    (bytes value).Readable :=
  ⟨.bytes, .bytes short, Nat.zero_le _⟩

theorem readable_string {value : String} (short : (utf8 value).length < 2 ^ 32) :
    (string value).Readable :=
  ⟨.string, .string short, Nat.zero_le _⟩

theorem readable_null : null.Readable := ⟨.null, .null, Nat.zero_le _⟩

theorem readable_digest (digest : Digest) : (bytes digest.bytes).Readable :=
  readable_bytes (by rw [digest.width]; decide)

end FrankenEngine.Serde
