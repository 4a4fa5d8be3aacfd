import FrankenEngine.Object.Ordinary

/-!
# The order of own keys

Keys that parse as numbers come first. The parser also reads a plus sign, leading
zeros and the greatest 32-bit number, so not every such key is an array index. The
keys are in the order of ES2020 exactly if none of those stands before an index.
-/

set_option autoImplicit false

namespace FrankenEngine.Object

open Library PropertyKey List OrderedMap

section Sorting

variable {α : Type} {below earlier : α → α → Prop} [DecidableRel below] [Std.Total below]
  [IsTrans α below]

theorem pairwise_insertionSort_stable {items : List α} (arrived : items.Pairwise earlier) :
    (items.insertionSort below).Pairwise fun left right =>
      below left right ∧ (below right left → earlier left right) := by
  induction arrived with
  | nil => exact .nil
  | @cons item rest first _ ih =>
    have later : ∀ other ∈ rest.insertionSort below, earlier item other :=
      fun other member => first other ((mem_insertionSort below).mp member)
    rw [insertionSort_cons]
    generalize rest.insertionSort below = sorted at ih later
    induction ih with
    | nil => exact pairwise_singleton _ _
    | @cons next sorted above tail inner =>
      rw [orderedInsert_cons]
      split
      · next fits =>
        refine .cons ?_ (.cons above tail)
        intro other member
        refine ⟨?_, fun _ => later other member⟩
        cases member with
        | head => exact fits
        | tail _ behind => exact IsTrans.trans _ _ _ fits (above other behind).1
      · next beyond =>
        refine .cons ?_ (inner fun other member => later other (.tail _ member))
        intro other member
        cases (mem_orderedInsert below).mp member with
        | inl same =>
          subst same
          exact ⟨(total_of below other next).resolve_left beyond, fun fits => absurd fits beyond⟩
        | inr behind => exact above other behind

omit [DecidableRel below] [Std.Total below] [IsTrans α below] in
theorem filter_append_filter_not {test : α → Bool} {items : List α}
    (falling : items.Pairwise fun left right => test right = true → test left = true) :
    items.filter test ++ items.filter (fun item => !test item) = items := by
  induction falling with
  | nil => rfl
  | @cons item rest first _ ih =>
    cases passes : test item with
    | true => simp [passes, ih]
    | false =>
      have empty : rest.filter test = [] := by
        refine filter_eq_nil_iff.mpr fun other member held => ?_
        cases passes.symm.trans (first other member held)
      rw [empty, nil_append] at ih
      simp [passes, empty, ih]

end Sorting

/-- The decimal text of an integer below `2 ^ 32 - 1`. -/
def PropertyKey.IsIndex (key : PropertyKey) : Prop := ∃ n < 2 ^ 32 - 1, key = .string n.repr

def PropertyKey.numeral? (key : PropertyKey) : Option (Nat × PropertyKey) :=
  match key with
  | .string text => (parseU32 text).map (·, key)
  | .symbol _ => none

theorem parseU32_repr {n : Nat} (small : n < 2 ^ 32) : parseU32 n.repr = some n := by
  have digits : ∀ digit ∈ Nat.toDigits 10 n, digit.isDigit = true := fun digit member =>
    Nat.isDigit_of_mem_toDigits (by decide) (by decide) member
  have value : (Nat.toDigits 10 n).foldl
      (fun value digit => 10 * value + (digit.toNat - '0'.toNat)) 0 = n :=
    Nat.ofDigitChars_ten_toDigits
  unfold parseU32
  rw [Nat.toList_repr]
  split
  next rest unsigned =>
    rw [unsigned] at digits
    cases digits '+' (.head _)
  next => simp_all

theorem numeral?_eq_some_iff {key : PropertyKey} {pair : Nat × PropertyKey} :
    key.numeral? = some pair ↔
      ∃ text, key = .string text ∧ parseU32 text = some pair.1 ∧ pair.2 = key := by
  obtain ⟨n, other⟩ := pair
  cases key with
  | string text => simp [numeral?, eq_comm]
  | symbol id => simp [numeral?]

namespace OrdinaryObject

def numerals (object : OrdinaryObject) : List (Nat × PropertyKey) :=
  (object.properties.keys.filterMap PropertyKey.numeral?).insertionSort (·.1 ≤ ·.1)

def plainStrings (object : OrdinaryObject) : List PropertyKey :=
  object.properties.keys.filter fun key =>
    match key with
    | .string text => (parseU32 text).isNone
    | .symbol _ => false

def symbolKeys (object : OrdinaryObject) : List PropertyKey :=
  object.properties.keys.filter fun key =>
    match key with
    | .string _ => false
    | .symbol _ => true

variable {object : OrdinaryObject} {key : PropertyKey}

theorem ownPropertyKeys_eq : object.ownPropertyKeys =
    object.numerals.map (·.2) ++ (object.plainStrings ++ object.symbolKeys) :=
  append_assoc _ _ _

theorem mem_numerals_iff {pair : Nat × PropertyKey} :
    pair ∈ object.numerals ↔ pair.2 ∈ object.properties.keys ∧ pair.2.numeral? = some pair := by
  rw [numerals, mem_insertionSort, mem_filterMap]
  constructor
  · rintro ⟨key, held, reads⟩
    obtain ⟨_, _, _, same⟩ := numeral?_eq_some_iff.mp reads
    rw [same]
    exact ⟨held, reads⟩
  · rintro ⟨held, reads⟩
    exact ⟨pair.2, held, reads⟩

theorem mem_plainStrings_iff : key ∈ object.plainStrings ↔
    key ∈ object.properties.keys ∧ key.numeral? = none ∧ ∃ text, key = .string text := by
  rw [plainStrings, mem_filter]
  cases key with
  | string text => simp [numeral?]
  | symbol id => simp

theorem mem_symbolKeys_iff :
    key ∈ object.symbolKeys ↔ key ∈ object.properties.keys ∧ ∃ id, key = .symbol id := by
  rw [symbolKeys, mem_filter]
  cases key with
  | string | symbol => simp

theorem mem_ownPropertyKeys : key ∈ object.ownPropertyKeys ↔ key ∈ object.properties.keys := by
  rw [ownPropertyKeys_eq, mem_append, mem_append, mem_map, mem_plainStrings_iff, mem_symbolKeys_iff]
  constructor
  · rintro (⟨pair, member, rfl⟩ | ⟨held, _⟩ | ⟨held, _⟩)
    · exact (mem_numerals_iff.mp member).1
    · exact held
    · exact held
  · intro held
    cases key with
    | symbol id => exact .inr (.inr ⟨held, id, rfl⟩)
    | string text =>
      cases reads : (string text).numeral? with
      | none => exact .inr (.inl ⟨held, rfl, text, rfl⟩)
      | some pair =>
        obtain ⟨_, _, _, same⟩ := numeral?_eq_some_iff.mp reads
        exact .inl ⟨pair, mem_numerals_iff.mpr (by rw [same]; exact ⟨held, reads⟩), same⟩

theorem sorted_numerals : object.numerals.Pairwise fun left right =>
    left.1 ≤ right.1 ∧ (right.1 ≤ left.1 → left.2 < right.2) := by
  have : Std.Total fun left right : Nat × PropertyKey => left.1 ≤ right.1 :=
    ⟨fun left right => Nat.le_total left.1 right.1⟩
  have : IsTrans (Nat × PropertyKey) fun left right => left.1 ≤ right.1 :=
    ⟨fun _ _ _ => Nat.le_trans⟩
  have ascending : object.properties.keys.Pairwise (· < ·) :=
    pairwise_map.mpr object.properties.ascending
  refine pairwise_insertionSort_stable (pairwise_filterMap.mpr (ascending.imp ?_))
  intro first second before left isLeft right isRight
  obtain ⟨_, _, _, rfl⟩ := numeral?_eq_some_iff.mp isLeft
  obtain ⟨_, _, _, rfl⟩ := numeral?_eq_some_iff.mp isRight
  exact before

theorem nodup_ownPropertyKeys : object.ownPropertyKeys.Nodup := by
  rw [ownPropertyKeys_eq, nodup_append]
  refine ⟨?_, ?_, ?_⟩
  · refine pairwise_map.mpr (sorted_numerals.imp_of_mem ?_)
    intro left right isLeft isRight order same
    have reads := (mem_numerals_iff.mp isLeft).2
    rw [same, (mem_numerals_iff.mp isRight).2] at reads
    cases reads
    exact lt_irrefl _ (order.2 (Nat.le_refl _))
  · rw [nodup_append]
    refine ⟨object.properties.nodup_keys.filter _, object.properties.nodup_keys.filter _, ?_⟩
    intro left isLeft right isRight same
    obtain ⟨_, _, text, rfl⟩ := mem_plainStrings_iff.mp isLeft
    obtain ⟨_, id, rfl⟩ := mem_symbolKeys_iff.mp isRight
    cases same
  · intro left isLeft right isRight same
    obtain ⟨pair, member, rfl⟩ := mem_map.mp isLeft
    have reads := (mem_numerals_iff.mp member).2
    rw [same] at reads
    cases mem_append.mp isRight with
    | inl plain =>
      have unread := (mem_plainStrings_iff.mp plain).2.1
      cases unread.symm.trans reads
    | inr symbol =>
      obtain ⟨_, id, rfl⟩ := mem_symbolKeys_iff.mp symbol
      cases reads

/-- Each own key once: the indices by their numbers, then the other strings, then the symbols. -/
structure InKeyOrder (object : OrdinaryObject) (listed : List PropertyKey) : Prop where
  distinct : listed.Nodup
  own : ∀ key, key ∈ listed ↔ object.hasOwnProperty key = true
  order : ∃ (indices : List Nat) (others symbols : List PropertyKey),
    listed = indices.map (fun n => PropertyKey.string n.repr) ++ (others ++ symbols) ∧
      indices.Pairwise (· < ·) ∧ (∀ n ∈ indices, n < 2 ^ 32 - 1) ∧
      (∀ key ∈ others, ¬ key.IsIndex ∧ ∃ text, key = .string text) ∧
      ∀ key ∈ symbols, ∃ id, key = .symbol id

/-- A key that parses as a number but is no index comes before an index. -/
def Misplaces (object : OrdinaryObject) : Prop :=
  ∃ (text : String) (n m : Nat), object.hasOwnProperty (.string text) = true ∧ parseU32 text = some n ∧
    ¬ (PropertyKey.string text).IsIndex ∧ m < 2 ^ 32 - 1 ∧
    object.hasOwnProperty (.string m.repr) = true ∧ (n < m ∨ n = m ∧ text < m.repr)

def indexed (pair : Nat × PropertyKey) : Bool :=
  pair.1 < 2 ^ 32 - 1 ∧ pair.2 = .string pair.1.repr

theorem indexed_iff {pair : Nat × PropertyKey} (member : pair ∈ object.numerals) :
    indexed pair = true ↔ pair.2.IsIndex := by
  rw [indexed, decide_eq_true_iff]
  constructor
  · rintro ⟨small, same⟩
    exact ⟨pair.1, small, same⟩
  · rintro ⟨n, small, same⟩
    obtain ⟨text, isText, reads, _⟩ := numeral?_eq_some_iff.mp (mem_numerals_iff.mp member).2
    cases same.symm.trans isText
    cases (parseU32_repr (by omega)).symm.trans reads
    exact ⟨small, same⟩

theorem string_lt_iff {left right : String} :
    string left < .string right ↔ left < right := Sum.Lex.inl_lt_inl_iff

theorem mem_numerals_of_parse {text : String} {n : Nat}
    (held : object.hasOwnProperty (.string text) = true) (reads : parseU32 text = some n) :
    (n, string text) ∈ object.numerals :=
  mem_numerals_iff.mpr
    ⟨mem_keys_iff.mpr held, numeral?_eq_some_iff.mpr ⟨text, rfl, reads, rfl⟩⟩

/-- Among the keys that parse as numbers the indices come first. -/
def IndicesFirst (object : OrdinaryObject) : Prop :=
  object.numerals.Pairwise fun left right => indexed right = true → indexed left = true

theorem indicesFirst_iff : object.IndicesFirst ↔ ¬ object.Misplaces := by
  constructor
  · rintro first ⟨text, n, m, held, reads, plain, small, heldIndex, before⟩
    have isOther := mem_numerals_of_parse held reads
    have isIndex := mem_numerals_of_parse heldIndex (parseU32_repr (by omega))
    obtain ⟨earlier, later, split⟩ := append_of_mem isIndex
    have sorted := @sorted_numerals object
    rw [IndicesFirst, split] at first
    rw [split] at sorted
    rw [split, mem_append, mem_cons] at isOther
    rcases isOther with ahead | same | behind
    · have index := (pairwise_append.mp first).2.2 _ ahead _ (.head _)
        ((indexed_iff isIndex).mpr ⟨m, small, rfl⟩)
      exact plain ((indexed_iff (split ▸ mem_append_left _ ahead)).mp index)
    · cases same
      exact plain ⟨_, small, rfl⟩
    · have order := (pairwise_cons.mp (pairwise_append.mp sorted).2.1).1 _ behind
      rcases before with less | ⟨same, less⟩
      · exact absurd order.1 (Nat.not_le.mpr less)
      · exact lt_asymm less (string_lt_iff.mp (order.2 (Nat.le_of_eq same)))
  · intro placed
    refine sorted_numerals.imp_of_mem ?_
    intro left right isLeft isRight order index
    by_contra plain
    obtain ⟨m, small, same⟩ := (indexed_iff isRight).mp index
    obtain ⟨held, readsLeft⟩ := mem_numerals_iff.mp isLeft
    obtain ⟨heldRight, readsRight⟩ := mem_numerals_iff.mp isRight
    obtain ⟨text, isText, reads, _⟩ := numeral?_eq_some_iff.mp readsLeft
    obtain ⟨other, isOther, readsOther, _⟩ := numeral?_eq_some_iff.mp readsRight
    cases same.symm.trans isOther
    cases (parseU32_repr (by omega)).symm.trans readsOther
    rw [indexed_iff isLeft, isText] at plain
    rw [isText] at held
    rw [same] at heldRight
    refine placed ⟨text, left.1, right.1, mem_keys_iff.mp held, reads, plain, small,
      mem_keys_iff.mp heldRight, ?_⟩
    rcases Nat.lt_or_eq_of_le order.1 with less | equal
    · exact .inl less
    · have below := order.2 (Nat.le_of_eq equal.symm)
      rw [isText, same] at below
      exact .inr ⟨equal, string_lt_iff.mp below⟩

theorem IndicesFirst.inKeyOrder (first : object.IndicesFirst) :
    object.InKeyOrder object.ownPropertyKeys := by
  have index : ∀ pair ∈ object.numerals.filter indexed,
      pair.1 < 2 ^ 32 - 1 ∧ pair.2 = .string pair.1.repr := by
    intro pair kept
    exact of_decide_eq_true (mem_filter.mp kept).2
  refine ⟨nodup_ownPropertyKeys, fun key => ?_, (object.numerals.filter indexed).map (·.1),
    (object.numerals.filter fun pair => !indexed pair).map (·.2) ++ object.plainStrings,
    object.symbolKeys, ?_, ?_, ?_, ?_, ?_⟩
  · rw [mem_ownPropertyKeys, mem_keys_iff]
    rfl
  · have texts : (object.numerals.filter indexed).map (·.2) =
        ((object.numerals.filter indexed).map (·.1)).map fun n => string n.repr := by
      rw [map_map]
      exact map_congr_left fun pair kept => (index pair kept).2
    rw [← texts, append_assoc, ← append_assoc, ← map_append, filter_append_filter_not first]
    exact ownPropertyKeys_eq
  · refine pairwise_map.mpr ((sorted_numerals.filter indexed).imp_of_mem ?_)
    intro left right isLeft isRight order
    refine Nat.lt_of_le_of_ne order.1 fun same => ?_
    have below := order.2 (Nat.le_of_eq same.symm)
    rw [(index left isLeft).2, (index right isRight).2, same] at below
    exact lt_irrefl _ below
  · intro n member
    obtain ⟨pair, kept, rfl⟩ := mem_map.mp member
    exact (index pair kept).1
  · intro key member
    cases mem_append.mp member with
    | inl numeral =>
      obtain ⟨pair, kept, rfl⟩ := mem_map.mp numeral
      obtain ⟨held, other⟩ := mem_filter.mp kept
      obtain ⟨text, isText, _⟩ := numeral?_eq_some_iff.mp (mem_numerals_iff.mp held).2
      rw [← indexed_iff held]
      exact ⟨by simpa using other, text, isText⟩
    | inr plain =>
      obtain ⟨_, unread, text, rfl⟩ := mem_plainStrings_iff.mp plain
      refine ⟨?_, text, rfl⟩
      rintro ⟨n, small, same⟩
      cases same
      simp [numeral?, parseU32_repr (show n < 2 ^ 32 by omega)] at unread
  · exact fun key member => (mem_symbolKeys_iff.mp member).2

theorem InKeyOrder.indicesFirst (ordered : object.InKeyOrder object.ownPropertyKeys) :
    object.IndicesFirst := by
  obtain ⟨indices, others, symbols, listed, _, small, plain, symbol⟩ := ordered.order
  have noIndex : ∀ key ∈ others ++ symbols, ¬ key.IsIndex := by
    intro key member
    cases mem_append.mp member with
    | inl other => exact (plain key other).1
    | inr other =>
      obtain ⟨id, rfl⟩ := symbol key other
      rintro ⟨n, _, same⟩
      cases same
  have falling : object.ownPropertyKeys.Pairwise fun left right =>
      right.IsIndex → left.IsIndex := by
    rw [listed, pairwise_append]
    have isIndex : ∀ key ∈ indices.map fun n => string n.repr, key.IsIndex := by
      intro key member
      obtain ⟨n, held, rfl⟩ := mem_map.mp member
      exact ⟨n, small n held, rfl⟩
    refine ⟨pairwise_of_forall_mem_list ?_, pairwise_of_forall_mem_list ?_, ?_⟩
    · exact fun left isLeft _ _ _ => isIndex left isLeft
    · exact fun _ _ right isRight index => absurd index (noIndex right isRight)
    · exact fun left isLeft _ _ _ => isIndex left isLeft
  rw [ownPropertyKeys_eq] at falling
  refine (pairwise_map.mp (pairwise_append.mp falling).1).imp_of_mem ?_
  intro left right isLeft isRight falls
  rw [indexed_iff isLeft, indexed_iff isRight]
  exact falls

/-- The own keys are in the order of ES2020 exactly if no text that the parser takes for a number
stands before an index. -/
theorem ownPropertyKeys_inKeyOrder_iff (object : OrdinaryObject) :
    object.InKeyOrder object.ownPropertyKeys ↔ ¬ object.Misplaces := by
  rw [← indicesFirst_iff]
  exact ⟨InKeyOrder.indicesFirst, IndicesFirst.inKeyOrder⟩

/-- The key `+1` parses as the number of the index `1` and is listed before it. -/
theorem ownPropertyKeys_signed_first :
    let object := (default.insertProperty (.string "1") (.dataOf .null)).insertProperty
      (.string "+1") (.dataOf .null)
    object.ownPropertyKeys = [.string "+1", .string "1"] ∧
      ¬ object.InKeyOrder object.ownPropertyKeys := by
  intro object
  have signed : parseU32 "+1" = some 1 := by decide +kernel
  have misplaced : object.Misplaces := by
    refine ⟨"+1", 1, 1, by decide +kernel, signed, ?_, by decide, by decide +kernel,
      .inr ⟨rfl, by decide +kernel⟩⟩
    rintro ⟨n, small, same⟩
    cases (parseU32_repr (show n < 2 ^ 32 by omega)).symm.trans
      ((congrArg parseU32 (PropertyKey.string.inj same)).symm.trans signed)
    exact absurd same (by decide +kernel)
  exact ⟨by decide +kernel, fun ordered => indicesFirst_iff.mp ordered.indicesFirst misplaced⟩

end OrdinaryObject

end FrankenEngine.Object
