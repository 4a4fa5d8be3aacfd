import FrankenEngine.Bytecode.Shape

/-!
# Shapes and their transitions

A mutation leads from one skeleton to the next whatever the algebra holds. As long
as the skeletons that occur have distinct identifiers, the algebra leads from
each shape to that of the next skeleton, whether it has to intern it, finds it
interned or remembers the transition.
-/

set_option autoImplicit false

namespace FrankenEngine.Bytecode

open Library ShapeTransitionAlgebra OrderedMap List

/-- The keys are distinct and the slots are the positions. -/
structure Packed (layout : List PropertyLayoutDescriptor) : Prop where
  keys : (layout.map (·.propertyKey)).Nodup
  slots : layout.map (·.slotIndex) = range layout.length

abbrev lists (layout : List PropertyLayoutDescriptor) (key : String) : Bool :=
  layout.any (·.propertyKey = key)

def without (layout : List PropertyLayoutDescriptor) (key : String) :
    List PropertyLayoutDescriptor :=
  layout.filter (·.propertyKey ≠ key)

def renumber (layout : List PropertyLayoutDescriptor) : List PropertyLayoutDescriptor :=
  layout.zipIdx.map fun (descriptor, slotIndex) => { descriptor with slotIndex }

namespace ShapeSkeleton

def added (skeleton : ShapeSkeleton) (key : String) (attributes : PropertyAttributes) :
    PropertyLayoutDescriptor :=
  { propertyKey := key, slotIndex := skeleton.propertyLayout.length, attributes }

/-- What a mutation makes of a skeleton, unless it is refused. -/
def next (skeleton : ShapeSkeleton) : ShapeMutation → Option ShapeSkeleton
  | .addProperty key attributes =>
    if lists skeleton.propertyLayout key then none
    else some { skeleton with
      propertyLayout := skeleton.propertyLayout ++ [skeleton.added key attributes] }
  | .deleteProperty key =>
    if lists skeleton.propertyLayout key then
      some { skeleton with propertyLayout := renumber (without skeleton.propertyLayout key) }
    else none
  | .reconfigureProperty key attributes =>
    if lists skeleton.propertyLayout key then
      some { skeleton with
        propertyLayout := skeleton.propertyLayout.map fun descriptor =>
          if descriptor.propertyKey = key then { descriptor with attributes } else descriptor }
    else none
  | .writePropertyCell key => if lists skeleton.propertyLayout key then some skeleton else none
  | .writePrototype prototypeFingerprint => some { skeleton with prototypeFingerprint }

section Identity

variable (digest : ShapeSkeleton → Digest) (skeleton : ShapeSkeleton)

def describe : ShapeDescriptor :=
  makeShapeDescriptor digest skeleton.prototypeFingerprint skeleton.propertyLayout

def shapeId : Nat := (skeleton.describe digest).shapeId

theorem propertyLayout_describe :
    (skeleton.describe digest).propertyLayout = skeleton.propertyLayout := rfl

theorem prototypeFingerprint_describe :
    (skeleton.describe digest).prototypeFingerprint = skeleton.prototypeFingerprint := rfl

end Identity

end ShapeSkeleton

open ShapeSkeleton

/-!
## Layouts
-/

section Layouts

variable {layout : List PropertyLayoutDescriptor} {key : String}

theorem lists_iff : lists layout key = true ↔ key ∈ layout.map (·.propertyKey) := by
  simp [lists]

theorem keys_without : (without layout key).map (·.propertyKey) =
    (layout.map (·.propertyKey)).filter (· ≠ key) := by
  rw [without, filter_map]
  rfl

theorem length_without_eq_iff : ((without layout key).map (·.propertyKey)).length =
    layout.length ↔ lists layout key = false := by
  rw [length_map, without, length_filter_eq_length_iff, lists, any_eq_false]
  simp

theorem keys_renumber : (renumber layout).map (·.propertyKey) = layout.map (·.propertyKey) := by
  rw [renumber, map_map]
  conv_rhs => rw [← zipIdx_map_fst 0 layout, map_map]
  rfl

theorem slots_renumber : (renumber layout).map (·.slotIndex) = range (renumber layout).length := by
  rw [renumber, map_map, length_map, length_zipIdx, range_eq_range', ← zipIdx_map_snd 0 layout]
  rfl

theorem packed_without (packed : Packed layout) : Packed (renumber (without layout key)) := by
  refine ⟨?_, slots_renumber⟩
  rw [keys_renumber, keys_without]
  exact packed.keys.filter _

theorem renumber_of_packed (packed : Packed layout) : renumber layout = layout := by
  refine ext_getElem (by simp [renumber]) fun place _ inside => ?_
  have slot : layout[place].slotIndex = place := by
    simpa [inside] using congrArg (·[place]?) packed.slots
  simp only [renumber, getElem_map, getElem_zipIdx, Nat.zero_add]
  exact congrArg (fun slotIndex => { layout[place] with slotIndex }) slot.symm

variable {kept : List PropertyLayoutDescriptor} {last : PropertyLayoutDescriptor}

theorem packed_snoc_iff : Packed (kept ++ [last]) ↔
    Packed kept ∧ last.slotIndex = kept.length ∧ ¬ lists kept last.propertyKey = true := by
  rw [lists_iff]
  constructor
  · rintro ⟨keys, slots⟩
    rw [map_append, nodup_append] at keys
    rw [map_append, length_append, length_singleton, range_succ] at slots
    obtain ⟨earlier, slot⟩ := append_inj' slots rfl
    exact ⟨⟨keys.1, earlier⟩, (cons.inj slot).1,
      fun listed => keys.2.2 _ listed _ (.head _) rfl⟩
  · rintro ⟨packed, slot, absent⟩
    constructor
    · rw [map_append]
      exact packed.keys.append (nodup_singleton _) (by simpa using absent)
    · rw [map_append, length_append, length_singleton, range_succ, packed.slots, map_singleton,
        slot]

theorem without_last (packed : Packed (kept ++ [last])) :
    renumber (without (kept ++ [last]) last.propertyKey) = kept := by
  obtain ⟨packedKept, -, absent⟩ := packed_snoc_iff.mp packed
  have same : without (kept ++ [last]) last.propertyKey = kept := by
    rw [without, filter_append, filter_eq_self.mpr (by simpa using absent)]
    simp
  rw [same, renumber_of_packed packedKept]

theorem mapM_map_eq_some {A B C : Type} {source : C → A} {change : A → Option B} {result : C → B}
    {items : List C} (each : ∀ item ∈ items, change (source item) = some (result item)) :
    (items.map source).mapM change = some (items.map result) := by
  induction items with
  | nil => rfl
  | cons item rest ih =>
    obtain ⟨first, later⟩ := forall_mem_cons.mp each
    rw [map_cons, mapM_cons, first, ih later]
    rfl

/-- Every retained key has its descriptor. -/
theorem retainedLayout_without (packed : Packed layout) :
    retainedLayout layout ((without layout key).map (·.propertyKey)) =
      some (renumber (without layout key)) := by
  rw [retainedLayout, zipIdx_map]
  refine mapM_map_eq_some fun item member => ?_
  have kept : item.1 ∈ layout := mem_of_mem_filter (fst_mem_of_mem_zipIdx member)
  have found : layout.find? (·.propertyKey = item.1.propertyKey) = some item.1 := by
    cases found : layout.find? (·.propertyKey = item.1.propertyKey) with
    | none => exact absurd (find?_eq_none.mp found item.1 kept) (by simp)
    | some other =>
      have same : other.propertyKey = item.1.propertyKey := by simpa using find?_some found
      rw [inj_on_of_nodup_map packed.keys (mem_of_find?_eq_some found) kept same]
  simp [found]

/-- Deleting the last property and adding it again leads there and back. -/
theorem next_last (prototype : Option String) (packed : Packed (kept ++ [last])) :
    ShapeSkeleton.next ⟨prototype, kept ++ [last]⟩ (.deleteProperty last.propertyKey) =
        some ⟨prototype, kept⟩ ∧
      ShapeSkeleton.next ⟨prototype, kept⟩ (.addProperty last.propertyKey last.attributes) =
        some ⟨prototype, kept ++ [last]⟩ := by
  obtain ⟨-, slot, absent⟩ := packed_snoc_iff.mp packed
  constructor
  · have listed : lists (kept ++ [last]) last.propertyKey = true := by simp
    simp only [ShapeSkeleton.next, if_pos listed, without_last packed]
  · simp only [ShapeSkeleton.next, if_neg absent, added]
    rw [← slot]

theorem packed_next {base next : ShapeSkeleton} {mutation : ShapeMutation}
    (packed : Packed base.propertyLayout) (leads : base.next mutation = some next) :
    Packed next.propertyLayout := by
  cases mutation with
  | addProperty key attributes =>
    obtain ⟨absent, ⟨⟩⟩ := Option.ite_none_left_eq_some.mp leads
    exact packed_snoc_iff.mpr ⟨packed, rfl, absent⟩
  | deleteProperty key =>
    obtain ⟨-, ⟨⟩⟩ := Option.ite_none_right_eq_some.mp leads
    exact packed_without packed
  | reconfigureProperty key attributes =>
    obtain ⟨-, ⟨⟩⟩ := Option.ite_none_right_eq_some.mp leads
    have kept {A : Type} (field : PropertyLayoutDescriptor → A)
        (same : ∀ descriptor, field { descriptor with attributes } = field descriptor) :
        (base.propertyLayout.map fun descriptor =>
          if descriptor.propertyKey = key then { descriptor with attributes }
          else descriptor).map field = base.propertyLayout.map field := by
      rw [map_map]
      refine map_congr_left fun descriptor _ => ?_
      rw [Function.comp_apply]
      split
      · exact same descriptor
      · rfl
    constructor
    · rw [kept _ fun _ => rfl]
      exact packed.keys
    · rw [kept _ fun _ => rfl, length_map]
      exact packed.slots
  | writePropertyCell key =>
    obtain ⟨-, ⟨⟩⟩ := Option.ite_none_right_eq_some.mp leads
    exact packed
  | writePrototype prototypeFingerprint =>
    cases leads
    exact packed

end Layouts

/-!
## The algebra
-/

section Shapes

variable (digest : ShapeSkeleton → Digest)

def Interned (shapes : OrderedMap Nat ShapeDescriptor) (skeleton : ShapeSkeleton) : Prop :=
  shapes.get? (skeleton.shapeId digest) = some (skeleton.describe digest)

/-- The descriptor that a transition shows for an added property. -/
def Shows (base : ShapeSkeleton) (mutation : ShapeMutation) (transition : ShapeTransition) : Prop :=
  ∀ key attributes, mutation = .addProperty key attributes →
    transition.propertyLayout = some (base.added key attributes)

/-- A remembered transition leads from an interned shape to that of the next skeleton. -/
def Remembered (shapes : OrderedMap Nat ShapeDescriptor) (skeletons : Set ShapeSkeleton)
    (key : TransitionLookupKey) (transition : ShapeTransition) : Prop :=
  ∃ base ∈ skeletons, ∃ next ∈ skeletons, key.fromShapeId = base.shapeId digest ∧
    base.next key.mutation = some next ∧ transition.toShapeId = next.shapeId digest ∧
    Interned digest shapes base ∧ Interned digest shapes next ∧ Shows base key.mutation transition

structure AlgebraOk (skeletons : Set ShapeSkeleton) (algebra : ShapeTransitionAlgebra) : Prop where
  root : algebra.rootShapeId = shapeId digest ⟨none, []⟩
  rootKnown : Interned digest algebra.shapes ⟨none, []⟩
  shapes : ∀ shapeId shape, algebra.shapes.get? shapeId = some shape → ∃ skeleton ∈ skeletons,
    shapeId = skeleton.shapeId digest ∧ shape = skeleton.describe digest ∧
      Packed skeleton.propertyLayout
  index : ∀ fingerprint shapeId, algebra.shapeIndex.get? fingerprint = some shapeId →
    ∃ skeleton ∈ skeletons, fingerprint = (skeleton.describe digest).fingerprint ∧
      shapeId = skeleton.shapeId digest ∧ Interned digest algebra.shapes skeleton
  table : ∀ key transition, algebra.transitionTable.lookup key = some transition →
    Remembered digest algebra.shapes skeletons key transition

def Keeps (algebra after : ShapeTransitionAlgebra) : Prop :=
  ∀ shapeId shape, algebra.shapes.get? shapeId = some shape →
    after.shapes.get? shapeId = some shape

structure Reaches (skeletons : Set ShapeSkeleton) (algebra : ShapeTransitionAlgebra)
    (next : ShapeSkeleton) (shape : ShapeDescriptor) (after : ShapeTransitionAlgebra) : Prop where
  shape : shape = next.describe digest
  ok : AlgebraOk digest skeletons after
  keeps : Keeps algebra after
  known : Interned digest after.shapes next

variable {digest} {skeletons : Set ShapeSkeleton} {algebra : ShapeTransitionAlgebra}
  {base next : ShapeSkeleton} {mutation : ShapeMutation}

theorem shapeId_eq_of_fingerprint
    (same : (base.describe digest).fingerprint = (next.describe digest).fingerprint) :
    base.shapeId digest = next.shapeId digest := by
  change ofBeBytes ((base.describe digest).fingerprint.bytes.take 8) = _
  rw [same]
  rfl

theorem algebraOk_new (occurs : ⟨none, []⟩ ∈ skeletons) :
    AlgebraOk digest skeletons (new digest) where
  root := rfl
  rootKnown := (get?_insert _ _ _ _).trans (if_pos rfl)
  shapes := forall_get?_insert (fun _ _ found => nomatch found) ⟨_, occurs, rfl, rfl, .nil, rfl⟩
  index := forall_get?_insert (fun _ _ found => nomatch found)
    ⟨_, occurs, rfl, rfl, (get?_insert _ _ _ _).trans (if_pos rfl)⟩
  table := by
    intro key transition lookedUp
    change none = some transition at lookedUp
    cases lookedUp

theorem algebraOk_remember (ok : AlgebraOk digest skeletons algebra) {key : TransitionLookupKey}
    {transition : ShapeTransition}
    (remembered : Remembered digest algebra.shapes skeletons key transition) :
    AlgebraOk digest skeletons
      { algebra with transitionTable := (key, transition) :: algebra.transitionTable } where
  root := ok.root
  rootKnown := ok.rootKnown
  shapes := ok.shapes
  index := ok.index
  table := by
    intro other found lookedUp
    rw [lookup_cons] at lookedUp
    split at lookedUp
    next same =>
      cases lookedUp
      obtain rfl := beq_iff_eq.mp same
      exact remembered
    next => exact ok.table other found lookedUp

theorem interned_register : Interned digest (algebra.register (base.describe digest)).shapes base :=
  (get?_insert _ _ _ _).trans (if_pos rfl)

/-- Remembering a transition to the next skeleton after it has been interned. -/
theorem Reaches.record {shape : ShapeDescriptor} {after : ShapeTransitionAlgebra}
    {transition : ShapeTransition} (reached : Reaches digest skeletons algebra next shape after)
    (occurs : base ∈ skeletons) (known : Interned digest algebra.shapes base)
    (leads : base.next mutation = some next) (occursNext : next ∈ skeletons)
    (target : transition.toShapeId = shape.shapeId) (shows : Shows base mutation transition) :
    Reaches digest skeletons algebra next shape
      (after.record ⟨base.shapeId digest, mutation⟩ shape transition).2 := by
  obtain ⟨rfl, okAfter, keeps, knownNext⟩ := reached
  exact ⟨rfl, algebraOk_remember okAfter ⟨base, occurs, next, occursNext, rfl, leads, target,
    keeps _ _ known, knownNext, shows⟩, keeps, knownNext⟩

variable (ok : AlgebraOk digest skeletons algebra)

include ok

theorem AlgebraOk.packed (known : Interned digest algebra.shapes base) :
    Packed base.propertyLayout := by
  obtain ⟨skeleton, -, -, same, packed⟩ := ok.shapes _ _ known
  have layouts : base.propertyLayout = skeleton.propertyLayout :=
    congrArg ShapeDescriptor.propertyLayout same
  exact layouts ▸ packed

variable (distinct : Set.InjOn (shapeId digest) skeletons)

include distinct

theorem keeps_register (occurs : base ∈ skeletons) :
    Keeps algebra (algebra.register (base.describe digest)) := by
  intro shapeId shape found
  rw [register, get?_insert]
  split
  next same =>
    -- a shape under the same identifier is the same shape
    obtain ⟨other, occursOther, isId, rfl, -⟩ := ok.shapes shapeId shape found
    obtain rfl := distinct occursOther occurs (isId.symm.trans same)
    rfl
  next => exact found

theorem algebraOk_register (occurs : base ∈ skeletons) (packed : Packed base.propertyLayout) :
    AlgebraOk digest skeletons (algebra.register (base.describe digest)) := by
  have keeps := keeps_register ok distinct occurs
  refine ⟨ok.root, keeps _ _ ok.rootKnown, ?_, ?_, ?_⟩
  · exact forall_get?_insert ok.shapes ⟨base, occurs, rfl, rfl, packed⟩
  · refine forall_get?_insert ?_ ⟨base, occurs, rfl, rfl, interned_register⟩
    intro fingerprint shapeId found
    obtain ⟨other, occursOther, isFingerprint, isId, known⟩ := ok.index fingerprint shapeId found
    exact ⟨other, occursOther, isFingerprint, isId, keeps _ _ known⟩
  · intro key transition lookedUp
    obtain ⟨from_, occursFrom, next, occursNext, start, leads, reached, known, knownNext, shows⟩ :=
      ok.table key transition lookedUp
    exact ⟨from_, occursFrom, next, occursNext, start, leads, reached, keeps _ _ known,
      keeps _ _ knownNext, shows⟩

theorem exists_internShape (skeleton : ShapeSkeleton) : ∃ shape after,
    algebra.internShape digest skeleton.prototypeFingerprint skeleton.propertyLayout =
        some (shape, after) ∧
      (skeleton ∈ skeletons → Packed skeleton.propertyLayout →
        Reaches digest skeletons algebra skeleton shape after) := by
  have descriptor : makeShapeDescriptor digest skeleton.prototypeFingerprint
      skeleton.propertyLayout = skeleton.describe digest := rfl
  simp only [internShape, descriptor]
  cases indexed : algebra.shapeIndex.get? (skeleton.describe digest).fingerprint with
  | some existing =>
    obtain ⟨other, occursOther, same, isId, known⟩ := ok.index _ _ indexed
    have found : algebra.shapes.get? (other.shapeId digest) = some (other.describe digest) := known
    simp only [isId, found, Option.map_some]
    refine ⟨_, _, rfl, fun occurs _ => ?_⟩
    obtain rfl := distinct occursOther occurs (shapeId_eq_of_fingerprint same).symm
    exact ⟨rfl, ok, fun _ _ found => found, known⟩
  | none =>
    exact ⟨_, _, rfl, fun occurs packed => ⟨rfl, algebraOk_register ok distinct occurs packed,
      keeps_register ok distinct occurs, interned_register⟩⟩

variable (occurs : base ∈ skeletons) (known : Interned digest algebra.shapes base)
  (leads : base.next mutation = some next)

include occurs known leads

/-- A mutation that is not refused leads to the shape of the next skeleton. -/
theorem exists_mutate : ∃ outcome after,
    algebra.mutate digest (base.shapeId digest) (base.describe digest) mutation =
        some (.ok outcome, after) ∧ Shows base mutation outcome.transition ∧
      (next ∈ skeletons → Reaches digest skeletons algebra next outcome.shape after) := by
  obtain ⟨shape, after, interned, result⟩ := exists_internShape ok distinct next
  have recorded (transition : ShapeTransition) (target : transition.toShapeId = shape.shapeId)
      (shows : Shows base mutation transition) (occursNext : next ∈ skeletons) :=
    (result occursNext (packed_next (ok.packed known) leads)).record occurs known leads occursNext
      target shows
  cases mutation with
  | addProperty key attributes =>
    obtain ⟨absent, ⟨⟩⟩ := Option.ite_none_left_eq_some.mp leads
    dsimp only [added] at interned
    simp only [mutate, propertyLayout_describe, prototypeFingerprint_describe, if_neg absent,
      interned, Option.bind_eq_bind, Option.bind_some]
    have shows {transition : ShapeTransition}
        (isLayout : transition.propertyLayout = some (base.added key attributes)) :
        Shows base (.addProperty key attributes) transition := by
      rintro _ _ ⟨⟩
      exact isLayout
    exact ⟨_, _, rfl, shows rfl, recorded _ rfl (shows rfl)⟩
  | deleteProperty key =>
    obtain ⟨listed, ⟨⟩⟩ := Option.ite_none_right_eq_some.mp leads
    have shorter := mt length_without_eq_iff.mp (ne_false_of_eq_true listed)
    have retained := @retainedLayout_without _ key (ok.packed known)
    unfold without at shorter retained interned
    simp only [mutate, propertyLayout_describe, prototypeFingerprint_describe, if_neg shorter,
      retained, interned, Option.bind_eq_bind, Option.bind_some]
    exact ⟨_, _, rfl, nofun, recorded _ rfl nofun⟩
  | reconfigureProperty key attributes =>
    obtain ⟨listed, ⟨⟩⟩ := Option.ite_none_right_eq_some.mp leads
    simp only [mutate, propertyLayout_describe, prototypeFingerprint_describe, if_pos listed,
      interned, Option.bind_eq_bind, Option.bind_some]
    exact ⟨_, _, rfl, nofun, recorded _ rfl nofun⟩
  | writePropertyCell key =>
    obtain ⟨listed, ⟨⟩⟩ := Option.ite_none_right_eq_some.mp leads
    cases found : base.propertyLayout.find? (·.propertyKey = key) with
    | none => exact absurd listed (by simpa [lists] using found)
    | some descriptor =>
      simp only [mutate, propertyLayout_describe, found]
      exact ⟨_, _, rfl, nofun, fun _ => ⟨rfl, algebraOk_remember ok ⟨base, occurs, base, occurs,
        rfl, leads, rfl, known, known, nofun⟩, fun _ _ found => found, known⟩⟩
  | writePrototype prototypeFingerprint =>
    cases leads
    simp only [mutate, propertyLayout_describe, interned, Option.bind_eq_bind, Option.bind_some]
    exact ⟨_, _, rfl, nofun, recorded _ rfl nofun⟩

/-- The same holds if the transition is remembered. -/
theorem exists_applyMutation : ∃ outcome after,
    algebra.applyMutation digest (base.shapeId digest) mutation = some (.ok outcome, after) ∧
      Shows base mutation outcome.transition ∧
      (next ∈ skeletons → Reaches digest skeletons algebra next outcome.shape after) := by
  have found : algebra.shapes.get? (base.shapeId digest) = some (base.describe digest) := known
  unfold applyMutation
  cases remembered : algebra.transitionTable.lookup ⟨base.shapeId digest, mutation⟩ with
  | some existing =>
    obtain ⟨other, occursOther, after, occursAfter, start, goes, reached, -, knownAfter, shows⟩ :=
      ok.table _ _ remembered
    obtain rfl := distinct occurs occursOther start
    obtain rfl := Option.some.inj (leads.symm.trans goes)
    have target : algebra.shapes.get? existing.toShapeId = some (next.describe digest) :=
      reached ▸ knownAfter
    simp only [target]
    exact ⟨_, _, rfl, shows, fun _ => ⟨rfl, ok, fun _ _ found => found, knownAfter⟩⟩
  | none =>
    simp only [found]
    exact exists_mutate ok distinct occurs known leads

omit ok distinct occurs known leads in
theorem mutate_of_none (refused : base.next mutation = none) : ∃ error,
    algebra.mutate digest (base.shapeId digest) (base.describe digest) mutation =
      some (.error error, algebra) := by
  have absent {key : String} {found : ShapeSkeleton}
      (missing : (if lists base.propertyLayout key then some found else none) = none) :
      lists base.propertyLayout key = false := by simpa using missing
  cases mutation with
  | addProperty key attributes =>
    have listed : lists base.propertyLayout key = true := by
      simpa [ShapeSkeleton.next] using refused
    exact ⟨_, if_pos listed⟩
  | deleteProperty key => exact ⟨_, if_pos (length_without_eq_iff.mpr (absent refused))⟩
  | reconfigureProperty key attributes =>
    exact ⟨_, if_neg (Bool.eq_false_iff.mp (absent refused))⟩
  | writePropertyCell key =>
    have missing : base.propertyLayout.find? (·.propertyKey = key) = none := by
      simpa using absent refused
    simp only [mutate, propertyLayout_describe, missing]
    exact ⟨_, rfl⟩
  | writePrototype => cases refused

omit leads in
/-- A mutation that is refused changes nothing. -/
theorem applyMutation_of_none (refused : base.next mutation = none) : ∃ error,
    algebra.applyMutation digest (base.shapeId digest) mutation = some (.error error, algebra) := by
  have found : algebra.shapes.get? (base.shapeId digest) = some (base.describe digest) := known
  unfold applyMutation
  cases remembered : algebra.transitionTable.lookup ⟨base.shapeId digest, mutation⟩ with
  | some existing =>
    obtain ⟨other, occursOther, next, -, start, goes, -⟩ := ok.table _ _ remembered
    obtain rfl := distinct occurs occursOther start
    cases refused.symm.trans goes
  | none =>
    simp only [found]
    exact mutate_of_none refused

omit occurs known leads in
theorem algebraOk_applyMutation (closed : ∀ skeleton ∈ skeletons, ∀ next,
      skeleton.next mutation = some next → next ∈ skeletons) (shapeId : Nat) :
    ∃ answer after, algebra.applyMutation digest shapeId mutation = some (answer, after) ∧
      AlgebraOk digest skeletons after := by
  cases found : algebra.shapes.get? shapeId with
  | none =>
    refine ⟨.error (.unknownShape shapeId), algebra, ?_, ok⟩
    unfold applyMutation
    cases remembered : algebra.transitionTable.lookup ⟨shapeId, mutation⟩ with
    | some existing =>
      obtain ⟨base, -, _, -, start, -, -, known, -⟩ := ok.table _ _ remembered
      change shapeId = _ at start
      rw [start] at found
      cases found.symm.trans known
    | none => simp only [found]
  | some shape =>
    obtain ⟨base, occurs, rfl, rfl, -⟩ := ok.shapes _ _ found
    cases leads : base.next mutation with
    | none =>
      obtain ⟨error, refused⟩ := applyMutation_of_none ok distinct occurs found leads
      exact ⟨_, _, refused, ok⟩
    | some next =>
      obtain ⟨outcome, after, applied, -, result⟩ :=
        exists_applyMutation ok distinct occurs found leads
      exact ⟨_, _, applied, (result (closed base occurs next leads)).ok⟩

end Shapes

/-!
## Runs
-/

section Runs

variable (digest : ShapeSkeleton → Digest)

/-- No result where one of the calls panics. -/
def applyAll (algebra : ShapeTransitionAlgebra) (calls : List (Nat × ShapeMutation)) :
    Option ShapeTransitionAlgebra :=
  calls.foldlM (fun algebra call => (algebra.applyMutation digest call.1 call.2).map (·.2)) algebra

variable {digest} {skeletons : Set ShapeSkeleton}

theorem algebraOk_applyAll (distinct : Set.InjOn (shapeId digest) skeletons)
    {calls : List (Nat × ShapeMutation)} (closed : ∀ skeleton ∈ skeletons, ∀ call ∈ calls, ∀ next,
      skeleton.next call.2 = some next → next ∈ skeletons) {algebra : ShapeTransitionAlgebra}
    (ok : AlgebraOk digest skeletons algebra) :
    ∃ after, applyAll digest algebra calls = some after ∧ AlgebraOk digest skeletons after := by
  induction calls generalizing algebra with
  | nil => exact ⟨algebra, rfl, ok⟩
  | cons call rest ih =>
    obtain ⟨_, middle, applied, okMiddle⟩ := algebraOk_applyMutation ok distinct
      (fun skeleton occurs => closed skeleton occurs call (.head _)) call.1
    obtain ⟨after, run, okAfter⟩ :=
      ih (fun skeleton occurs call member => closed skeleton occurs call (.tail _ member)) okMiddle
    refine ⟨after, ?_, okAfter⟩
    rw [applyAll, foldlM_cons, applied]
    exact run

def lengthDigest (skeleton : ShapeSkeleton) : Digest :=
  ⟨UInt8.ofNat skeleton.propertyLayout.length :: List.replicate 31 0, rfl⟩

def emptyAndX : List ShapeSkeleton := [⟨none, []⟩, ⟨none, [⟨"x", 0, {}⟩]⟩]

end Runs

/-!
## Lists of property names

The machine only adds properties with default attributes, so that each of its
shapes is the layout of a list of names.
-/

def layoutOf (keys : List String) : List PropertyLayoutDescriptor :=
  keys.zipIdx.map fun (propertyKey, slotIndex) => { propertyKey, slotIndex, attributes := {} }

def nameSkeleton (keys : List String) : ShapeSkeleton := ⟨none, layoutOf keys⟩

section Names

variable (keys : List String)

theorem layoutOf_append (key : String) : layoutOf (keys ++ [key]) =
      layoutOf keys ++ [{ propertyKey := key, slotIndex := keys.length, attributes := {} }] := by
  simp [layoutOf, zipIdx_append]

theorem length_layoutOf : (layoutOf keys).length = keys.length := by
  simp [layoutOf]

theorem lists_layoutOf (key : String) : lists (layoutOf keys) key = true ↔ key ∈ keys := by
  have names : (layoutOf keys).map (·.propertyKey) = keys := by
    rw [layoutOf, map_map]
    exact zipIdx_map_fst 0 keys
  rw [lists_iff, names]

variable (digest : ShapeSkeleton → Digest)

def descriptorOf (keys : List String) : ShapeDescriptor :=
  makeShapeDescriptor digest none (layoutOf keys)

def shapeIdOf (keys : List String) : Nat := (descriptorOf digest keys).shapeId

variable {keys digest} {layouts : Set (List String)} {algebra : ShapeTransitionAlgebra}
  (ok : AlgebraOk digest (nameSkeleton '' layouts) algebra)
  (distinct : Set.InjOn (shapeIdOf digest) layouts) {name : String} (occurs : keys ∈ layouts)
  (known : algebra.shapes.get? (shapeIdOf digest keys) = some (descriptorOf digest keys))

include ok distinct occurs known

omit ok occurs known in
theorem injOn_nameSkeleton : Set.InjOn (shapeId digest) (nameSkeleton '' layouts) := by
  rintro _ ⟨one, isOne, rfl⟩ _ ⟨two, isTwo, rfl⟩ same
  rw [distinct isOne isTwo same]

theorem exists_applyMutation_add (absent : name ∉ keys) :
    ∃ outcome after, algebra.applyMutation digest (shapeIdOf digest keys) (.addProperty name {}) =
        some (.ok outcome, after) ∧
      outcome.transition.propertyLayout =
        some { propertyKey := name, slotIndex := keys.length, attributes := {} } ∧
      (keys ++ [name] ∈ layouts → Reaches digest (nameSkeleton '' layouts) algebra
        (nameSkeleton (keys ++ [name])) outcome.shape after) := by
  have leads : (nameSkeleton keys).next (.addProperty name {}) =
      some (nameSkeleton (keys ++ [name])) := by
    rw [nameSkeleton, nameSkeleton, layoutOf_append, ← length_layoutOf keys]
    exact if_neg (mt (lists_layoutOf keys name).mp absent)
  obtain ⟨outcome, after, applied, shows, result⟩ :=
    exists_applyMutation ok (injOn_nameSkeleton distinct) ⟨keys, occurs, rfl⟩ known leads
  refine ⟨outcome, after, applied, ?_, fun occursNext => result ⟨_, occursNext, rfl⟩⟩
  rw [shows name {} rfl, added, nameSkeleton, length_layoutOf]

theorem exists_applyMutation_write (listed : name ∈ keys) : ∃ outcome after,
      algebra.applyMutation digest (shapeIdOf digest keys) (.writePropertyCell name) =
        some (.ok outcome, after) ∧
      Reaches digest (nameSkeleton '' layouts) algebra (nameSkeleton keys) outcome.shape after := by
  have leads : (nameSkeleton keys).next (.writePropertyCell name) = some (nameSkeleton keys) :=
    if_pos ((lists_layoutOf keys name).mpr listed)
  obtain ⟨outcome, after, applied, -, result⟩ :=
    exists_applyMutation ok (injOn_nameSkeleton distinct) ⟨keys, occurs, rfl⟩ known leads
  exact ⟨outcome, after, applied, result ⟨keys, occurs, rfl⟩⟩

end Names

end FrankenEngine.Bytecode
