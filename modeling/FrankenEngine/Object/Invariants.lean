import FrankenEngine.Library.Result
import FrankenEngine.Object.Heap

/-!
# Essential invariants of ordinary objects

Which changes of an ordinary object the heap allows, once it is not extensible
or a property of it is not configurable. Every operation stays within them, so
every run does, and a frozen object is left as it is.
-/

set_option autoImplicit false

namespace FrankenEngine.Object

open Library OrdinaryObject PropertyDescriptor OrderedMap

def PropertyDescriptor.accessors :
    PropertyDescriptor → Option (Option ObjectHandle × Option ObjectHandle)
  | .data .. => none
  | .accessor get set _ _ => some (get, set)

structure PropertyDescriptor.Narrows (before after : PropertyDescriptor) : Prop where
  configurable : after.isConfigurable = false
  enumerable : after.isEnumerable = before.isEnumerable
  kind : after.isData = before.isData
  writable : before.isWritable = false → after.isWritable = false
  value : before.isWritable = false → after.value? = before.value?
  accessors : after.accessors = before.accessors

structure OrdinaryObject.Evolves (before after : OrdinaryObject) : Prop where
  extensible : before.extensible = false → after.extensible = false
  keys : before.extensible = false →
    ∀ key, before.getOwnProperty key = none → after.getOwnProperty key = none
  prototype : before.extensible = false → after.prototype = before.prototype
  properties : ∀ key desc, before.getOwnProperty key = some desc → desc.isConfigurable = false →
    ∃ narrowed, after.getOwnProperty key = some narrowed ∧ desc.Narrows narrowed

namespace PropertyDescriptor

variable {desc : PropertyDescriptor}

theorem Narrows.refl (locked : desc.isConfigurable = false) : desc.Narrows desc :=
  ⟨locked, rfl, rfl, id, fun _ => rfl, rfl⟩

theorem Narrows.trans {first second third : PropertyDescriptor} (early : first.Narrows second)
    (late : second.Narrows third) : first.Narrows third where
  configurable := late.configurable
  enumerable := late.enumerable.trans early.enumerable
  kind := late.kind.trans early.kind
  writable readOnly := late.writable (early.writable readOnly)
  value readOnly := (late.value (early.writable readOnly)).trans (early.value readOnly)
  accessors := late.accessors.trans early.accessors

theorem narrows_of_admits {current desc : PropertyDescriptor}
    (admitted : current.admits desc = true) : current.Narrows desc := by
  unfold admits at admitted
  split at admitted
  · cases admitted
  · next locked =>
    split at admitted
    · cases admitted
    · next enumerable =>
      split at admitted
      · cases admitted
      · next kind =>
        have sameKind : desc.isData = current.isData := (not_not.mp kind).symm
        have frame (writable : current.isWritable = false → desc.isWritable = false)
            (value : current.isWritable = false → desc.value? = current.value?)
            (accessors : desc.accessors = current.accessors) : current.Narrows desc :=
          ⟨eq_false_of_ne_true locked, not_not.mp enumerable, sameKind, writable, value, accessors⟩
        cases current with
        | data value writable =>
          cases desc with
          | data newValue newWritable =>
            refine frame ?_ ?_ rfl
            all_goals
              intro readOnly
              obtain rfl : writable = false := readOnly
              cases newWritable with
              | true => cases admitted
              | false => first
                | rfl
                | exact congrArg some (beq_iff_eq.mp admitted).symm
          | accessor => cases sameKind
        | accessor get set =>
          cases desc with
          | data => cases sameKind
          | accessor newGet newSet =>
            obtain ⟨getters, setters⟩ := of_decide_eq_true admitted
            refine frame (fun _ => rfl) (fun _ => rfl) ?_
            rw [accessors, accessors, getters, setters]

theorem Narrows.eq_of_readOnly {before after : PropertyDescriptor} (narrows : before.Narrows after)
    (locked : before.isConfigurable = false) (readOnly : before.isWritable = false) :
    after = before := by
  have writable := narrows.writable readOnly
  have value := narrows.value readOnly
  have configurable := narrows.configurable
  have enumerable := narrows.enumerable
  have accessors := narrows.accessors
  cases before with
  | data =>
    cases after with
    | data =>
      simp only [isConfigurable, isWritable, isEnumerable, value?, Option.some.injEq]
        at locked readOnly writable value configurable enumerable
      rw [locked, readOnly, writable, value, configurable, enumerable]
    | accessor => cases value
  | accessor =>
    cases after with
    | data => cases value
    | accessor =>
      simp only [isConfigurable, isEnumerable, PropertyDescriptor.accessors, Option.some.injEq,
        Prod.mk.injEq] at locked configurable enumerable accessors
      rw [locked, configurable, enumerable, accessors.1, accessors.2]

theorem narrows_setNonConfigurable (locked : desc.isConfigurable = false) :
    desc.Narrows desc.setNonConfigurable := by
  have same : desc.setNonConfigurable = desc := by
    cases desc <;> simp only [isConfigurable] at locked <;> simp only [setNonConfigurable, locked]
  rw [same]
  exact .refl locked

theorem narrows_setNonWritable (locked : desc.isConfigurable = false) :
    desc.Narrows desc.setNonWritable := by
  cases desc with
  | data => exact ⟨locked, rfl, rfl, fun _ => rfl, fun _ => rfl, rfl⟩
  | accessor => exact .refl locked

end PropertyDescriptor

namespace OrdinaryObject

variable (object : OrdinaryObject) (key : PropertyKey)

theorem getOwnProperty_insertProperty (desc : PropertyDescriptor) (other : PropertyKey) :
    (object.insertProperty key desc).getOwnProperty other =
      if other = key then some desc else object.getOwnProperty other :=
  object.properties.get?_insert key other desc

theorem Evolves.refl : object.Evolves object where
  extensible := id
  keys _ _ absent := absent
  prototype _ := rfl
  properties _ desc found locked := ⟨desc, found, .refl locked⟩

variable {object key}

theorem Evolves.trans {first second third : OrdinaryObject} (early : first.Evolves second)
    (late : second.Evolves third) : first.Evolves third where
  extensible closed := late.extensible (early.extensible closed)
  keys closed key absent := late.keys (early.extensible closed) key (early.keys closed key absent)
  prototype closed := (late.prototype (early.extensible closed)).trans (early.prototype closed)
  properties key desc found locked := by
    obtain ⟨middle, held, narrows⟩ := early.properties key desc found locked
    obtain ⟨last, kept, narrower⟩ := late.properties key middle held narrows.configurable
    exact ⟨last, kept, narrows.trans narrower⟩

theorem evolves_insertProperty {desc : PropertyDescriptor}
    (allowed : (object.properties.get? key).elim (object.extensible = true) fun current =>
      current.isConfigurable = false → current.Narrows desc) :
    object.Evolves (object.insertProperty key desc) where
  extensible := id
  keys closed other absent := by
    rw [getOwnProperty_insertProperty, if_neg, absent]
    rintro rfl
    rw [show object.properties.get? other = none from absent, Option.elim_none, closed] at allowed
    cases allowed
  prototype _ := rfl
  properties other current found locked := by
    rw [getOwnProperty_insertProperty]
    split
    next same =>
      rw [← same, show object.properties.get? other = some current from found] at allowed
      exact ⟨desc, rfl, allowed locked⟩
    next => exact ⟨current, found, .refl locked⟩

theorem evolves_defineOwnProperty (desc : PropertyDescriptor) :
    object.Evolves (object.defineOwnProperty key desc).2 := by
  unfold defineOwnProperty
  split
  next current found =>
    split
    next => exact .refl object
    next accepted =>
      refine evolves_insertProperty ?_
      rw [found]
      intro locked
      refine narrows_of_admits (eq_true_of_ne_false fun refused => ?_)
      exact accepted ⟨locked, refused⟩
  next absent =>
    split
    next opened => exact evolves_insertProperty (absent ▸ opened)
    next => exact .refl object

theorem evolves_delete : object.Evolves (object.delete key).2 := by
  unfold delete
  split
  next current found =>
    split
    next configurable =>
      refine ⟨id, fun _ other absent => ?_, fun _ => rfl, fun other desc held locked => ?_⟩
      · show (object.properties.erase key).get? other = none
        rw [get?_erase]
        split
        next => rfl
        next => exact absent
      · refine ⟨desc, ?_, .refl locked⟩
        show (object.properties.erase key).get? other = some desc
        rw [get?_erase, if_neg]
        · exact held
        · rintro rfl
          obtain rfl := Option.some.inj (found.symm.trans held)
          rw [locked] at configurable
          cases configurable
    next => exact .refl object
  next => exact .refl object

theorem evolves_close {change : PropertyDescriptor → PropertyDescriptor}
    (narrows : ∀ desc : PropertyDescriptor, desc.isConfigurable = false →
      desc.Narrows (change desc)) :
    object.Evolves { object with
      extensible := false
      properties := object.properties.mapValues change } where
  extensible _ := rfl
  keys _ other absent := by
    show (object.properties.mapValues change).get? other = none
    rw [get?_mapValues]
    exact congrArg (Option.map change) absent
  prototype _ := rfl
  properties other desc found locked := by
    refine ⟨change desc, ?_, narrows desc locked⟩
    show (object.properties.mapValues change).get? other = some (change desc)
    rw [get?_mapValues]
    exact congrArg (Option.map change) found

theorem evolves_freeze : object.Evolves object.freeze := by
  refine evolves_close fun desc locked => ?_
  have narrows := narrows_setNonConfigurable locked
  exact narrows.trans (narrows_setNonWritable narrows.configurable)

theorem evolves_sealObject : object.Evolves object.sealObject :=
  evolves_close fun _ locked => narrows_setNonConfigurable locked

theorem evolves_preventExtensions : object.Evolves object.preventExtensions where
  extensible _ := rfl
  keys _ _ absent := absent
  prototype _ := rfl
  properties _ desc found locked := ⟨desc, found, .refl locked⟩

theorem evolves_writeOwn {value : JsValue}
    (writable : ∀ desc, object.getOwnProperty key = some desc → desc.isWritable = true) :
    object.Evolves (object.writeOwn key value).2 := by
  unfold writeOwn
  split
  next held isWritable enumerable configurable found =>
    refine evolves_insertProperty ?_
    rw [found]
    intro locked
    obtain rfl : isWritable = true := writable _ found
    exact ⟨locked, rfl, rfl, nofun, nofun, rfl⟩
  next => exact .refl object
  next absent =>
    split
    next opened => exact evolves_insertProperty (absent ▸ opened)
    next => exact .refl object

theorem evolves_writePrototype (proto : Option ObjectHandle) :
    object.Evolves (object.writePrototype proto).2 := by
  unfold writePrototype
  split
  next opened =>
    refine ⟨id, fun _ _ absent => absent, fun closed => ?_, fun _ desc found locked =>
      ⟨desc, found, .refl locked⟩⟩
    rw [opened] at closed
    cases closed
  next => exact .refl object

end OrdinaryObject

namespace ObjectHeap

def Evolves (before after : ObjectHeap) : Prop :=
  ∀ (index : Nat) (object : OrdinaryObject), before.objects[index]? = some (.ordinary object) →
    ∃ evolved, after.objects[index]? = some (.ordinary evolved) ∧ object.Evolves evolved

variable (heap : ObjectHeap)

theorem Evolves.refl : heap.Evolves heap :=
  fun _ object found => ⟨object, found, .refl object⟩

variable {heap}

theorem Evolves.trans {first second third : ObjectHeap} (early : first.Evolves second)
    (late : second.Evolves third) : first.Evolves third := by
  intro index object found
  obtain ⟨middle, held, evolves⟩ := early index object found
  obtain ⟨last, kept, later⟩ := late index middle held
  exact ⟨last, kept, evolves.trans later⟩

theorem evolves_push (added : ManagedObject) : heap.Evolves (heap.push added) := by
  intro index object found
  refine ⟨object, ?_, .refl object⟩
  have inside := (List.getElem?_eq_some_iff.mp found).1
  show (heap.objects ++ [added])[index]? = _
  rw [List.getElem?_append_left inside]
  exact found

theorem get_eq_ok_iff {handle : ObjectHandle} {object : ManagedObject} :
    heap.get handle = .ok object ↔ heap.objects[handle.index.toNat]? = some object := by
  unfold get
  cases heap.objects[handle.index.toNat]? <;> simp

theorem evolves_put {handle : ObjectHandle} {written : ManagedObject}
    (evolves : ∀ object, heap.get handle = .ok (.ordinary object) →
      ∃ evolved, written = .ordinary evolved ∧ object.Evolves evolved) :
    heap.Evolves (heap.put handle written) := by
  intro index object found
  show ∃ evolved, (heap.objects.set handle.index.toNat written)[index]? = _ ∧ _
  by_cases same : handle.index.toNat = index
  · subst same
    obtain ⟨evolved, rfl, narrower⟩ := evolves object (get_eq_ok_iff.mpr found)
    have inside := (List.getElem?_eq_some_iff.mp found).1
    exact ⟨evolved, List.getElem?_set_self inside, narrower⟩
  · rw [List.getElem?_set_ne same]
    exact ⟨object, found, .refl object⟩

theorem evolves_modifyOrdinary {α : Type} {handle : ObjectHandle} {onProxy : String}
    {change : OrdinaryObject → α × OrdinaryObject}
    (evolves : ∀ object, heap.get handle = .ok (.ordinary object) →
      object.Evolves (change object).2) :
    heap.Evolves (heap.modifyOrdinary handle onProxy change).2 := by
  unfold modifyOrdinary
  split
  next => exact .refl heap
  next object found =>
    refine evolves_put fun held isHeld => ?_
    obtain rfl := ManagedObject.ordinary.inj (Except.ok.inj (found.symm.trans isHeld))
    exact ⟨_, rfl, evolves object found⟩
  next => exact .refl heap

variable (handle : ObjectHandle)

theorem evolves_revokeProxy : heap.Evolves (heap.revokeProxy handle).2 := by
  unfold revokeProxy
  split
  next => exact .refl heap
  next proxy found =>
    refine evolves_put fun held isHeld => ?_
    cases found.symm.trans isHeld
  next => exact .refl heap

theorem evolves_defineProperty (key : PropertyKey) (desc : PropertyDescriptor) :
    heap.Evolves (heap.defineProperty handle key desc).2 :=
  evolves_modifyOrdinary fun _ _ => evolves_defineOwnProperty desc

variable (props : List (PropertyKey × PropertyDescriptor))

theorem evolves_defineProperties : heap.Evolves (heap.defineProperties handle props).2 := by
  induction props generalizing heap with
  | nil => exact .refl heap
  | cons prop rest ih =>
    have first := heap.evolves_defineProperty handle prop.1 prop.2
    rw [defineProperties]
    split
    next defined => rwa [defined] at first
    next defined => rwa [defined] at first
    next defined =>
      rw [defined] at first
      exact first.trans ih

theorem evolves_defineEach : heap.Evolves (heap.defineEach handle props).2 := by
  induction props generalizing heap with
  | nil => exact .refl heap
  | cons prop rest ih =>
    have first := heap.evolves_defineProperty handle prop.1 prop.2
    rw [defineEach]
    split
    next defined => rwa [defined] at first
    next defined =>
      rw [defined] at first
      exact first.trans ih

theorem setVisit_receiver {handle : ObjectHandle} {key : PropertyKey} {object : OrdinaryObject}
    {desc : PropertyDescriptor} (held : object.getOwnProperty key = some desc) :
    setVisit handle key handle (.ordinary object) = .ok (.stop desc.isWritable) := by
  rw [setVisit, held]
  cases desc with
  | data value writable =>
    cases writable <;> simp [isAccessor, isWritable]
  | accessor => simp [isAccessor, isWritable]

theorem writable_of_walk {handle : ObjectHandle} {key : PropertyKey} {fuel : Nat}
    (walked : heap.walkChain (setVisit handle key) true (fuel + 1) [] (some handle) = .ok true)
    {object : OrdinaryObject} (found : heap.get handle = .ok (.ordinary object))
    {desc : PropertyDescriptor} (held : object.getOwnProperty key = some desc) :
    desc.isWritable = true := by
  rw [walkChain, if_neg List.not_mem_nil, found, ok_bind, setVisit_receiver held, ok_bind] at walked
  exact Except.ok.inj walked

theorem evolves_setProperty (key : PropertyKey) (value : JsValue) :
    heap.Evolves (heap.setProperty handle key value).2 := by
  unfold setProperty
  split
  next => exact .refl heap
  next => exact .refl heap
  next walked =>
    refine evolves_modifyOrdinary fun object found => ?_
    exact evolves_writeOwn fun desc held => writable_of_walk walked found held

theorem evolves_setPrototypeOf (proto : Option ObjectHandle) :
    heap.Evolves (heap.setPrototypeOf handle proto).2 := by
  unfold setPrototypeOf
  split
  next => exact .refl heap
  next =>
    exact evolves_modifyOrdinary fun _ _ => evolves_writePrototype proto

theorem evolves_setEach (target : ObjectHandle) (props : List (PropertyKey × JsValue)) :
    heap.Evolves (heap.setEach target props).2 := by
  induction props generalizing heap with
  | nil => exact .refl heap
  | cons prop rest ih =>
    have first := heap.evolves_setProperty target prop.1 prop.2
    rw [setEach]
    split
    next written => rwa [written] at first
    next written =>
      rw [written] at first
      exact first.trans ih

theorem evolves_assign (target : ObjectHandle) (sources : List ObjectHandle) :
    heap.Evolves (heap.assign target sources).2 := by
  unfold assign
  split
  next => exact .refl heap
  next => exact evolves_setEach target _

theorem evolves_spreadInto (target source : ObjectHandle) :
    heap.Evolves (heap.spreadInto target source).2 := by
  unfold spreadInto
  split
  next => exact .refl heap
  next => exact evolves_setEach target _

theorem evolves_fromEntries (entries : List (String × JsValue)) :
    heap.Evolves (heap.fromEntries entries).2 := by
  refine List.foldlRecOn (motive := heap.Evolves) entries _ (evolves_push _) ?_
  intro before evolves entry _
  exact evolves.trans (evolves_setProperty heap.nextHandle (.string entry.1) entry.2)

theorem evolves_step (op : HeapOp) : heap.Evolves (heap.step op) := by
  cases op with
  | alloc | allocPlain | allocProxy | allocCallable | allocConstructor | create =>
    exact evolves_push _
  | allocSymbol => exact .refl heap
  | createWithProperties proto properties =>
    exact (evolves_push _).trans (evolves_defineEach heap.nextHandle properties)
  | fromEntries entries => exact evolves_fromEntries entries
  | revokeProxy handle => exact evolves_revokeProxy handle
  | setProperty handle key value => exact evolves_setProperty handle key value
  | deleteProperty | reflectDeleteProperty => exact evolves_modifyOrdinary fun _ _ => evolves_delete
  | setPrototypeOf handle proto => exact evolves_setPrototypeOf handle proto
  | preventExtensions | reflectPreventExtensions =>
    exact evolves_modifyOrdinary fun _ _ => evolves_preventExtensions
  | defineProperty handle key desc => exact evolves_defineProperty handle key desc
  | defineProperties handle props => exact evolves_defineProperties handle props
  | freeze => exact evolves_modifyOrdinary fun _ _ => evolves_freeze
  | sealObject => exact evolves_modifyOrdinary fun _ _ => evolves_sealObject
  | assign target sources => exact evolves_assign target sources
  | spreadInto target source => exact evolves_spreadInto target source
  | reflectSet target key value => exact evolves_setProperty target key value
  | reflectSetPrototypeOf target proto => exact evolves_setPrototypeOf target proto
  | reflectDefineProperty target key desc => exact evolves_defineProperty target key desc

theorem evolves_run (ops : List HeapOp) : heap.Evolves (heap.run ops) := by
  induction ops generalizing heap with
  | nil => exact .refl heap
  | cons op rest ih => exact (evolves_step op).trans ih

end ObjectHeap

theorem OrdinaryObject.locked_of_isFrozen {object : OrdinaryObject}
    (frozen : object.isFrozen = true) : object.extensible = false ∧
      ∀ key desc, object.getOwnProperty key = some desc →
        desc.isConfigurable = false ∧ desc.isWritable = false := by
  unfold isFrozen at frozen
  split at frozen
  next => cases frozen
  next closed =>
    refine ⟨eq_false_of_ne_true closed, fun key desc found => ?_⟩
    have locked := List.all_eq_true.mp frozen desc (mem_values_of_get? found)
    split at locked
    next => cases locked
    next fixed =>
      refine ⟨eq_false_of_ne_true fixed, ?_⟩
      cases desc with
      | data => simpa [isWritable] using locked
      | accessor => rfl

theorem OrdinaryObject.Evolves.eq_of_isFrozen {before after : OrdinaryObject}
    (evolves : before.Evolves after) (frozen : before.isFrozen = true) :
    after.properties = before.properties ∧ after.prototype = before.prototype ∧
      after.isFrozen = true := by
  obtain ⟨closed, locked⟩ := locked_of_isFrozen frozen
  have properties : after.properties = before.properties := by
    apply ext_get?
    intro key
    cases found : before.getOwnProperty key with
    | none => exact (evolves.keys closed key found).trans found.symm
    | some desc =>
      obtain ⟨fixed, readOnly⟩ := locked key desc found
      obtain ⟨narrowed, kept, narrows⟩ := evolves.properties key desc found fixed
      rw [narrows.eq_of_readOnly fixed readOnly] at kept
      exact kept.trans found.symm
  refine ⟨properties, evolves.prototype closed, ?_⟩
  rw [← frozen, isFrozen, isFrozen, properties, closed, evolves.extensible closed]

/-- Whatever a run does, each ordinary object only evolves, and a frozen one
keeps its properties and its prototype. -/
theorem essential_invariants (heap : ObjectHeap) (ops : List HeapOp) (index : Nat)
    (object : OrdinaryObject) (found : heap.objects[index]? = some (.ordinary object)) :
    ∃ after, (heap.run ops).objects[index]? = some (.ordinary after) ∧ object.Evolves after ∧
      (object.isFrozen = true →
        after.properties = object.properties ∧ after.prototype = object.prototype ∧
          after.isFrozen = true) := by
  obtain ⟨after, kept, evolves⟩ := ObjectHeap.evolves_run ops index object found
  exact ⟨after, kept, evolves, evolves.eq_of_isFrozen⟩

def frozenPoint : OrdinaryObject :=
  (OrdinaryObject.default.insertProperty (.string "x") (.dataOf (.int 1))).freeze

def pointHeap : ObjectHeap :=
  ObjectHeap.new.run [.allocPlain, .setProperty ⟨0⟩ (.string "x") (.int 1), .freeze ⟨0⟩, .allocPlain]

/-- Writes, deletions and a new prototype leave a frozen point as it was. -/
theorem essential_invariants_frozenPoint :
    frozenPoint.isFrozen = true ∧
      ∃ after, (pointHeap.run [.setProperty ⟨0⟩ (.string "x") (.int 2),
          .deleteProperty ⟨0⟩ (.string "x"), .setPrototypeOf ⟨0⟩ (some ⟨1⟩)]).objects[0]? =
            some (.ordinary after) ∧
        after.properties = frozenPoint.properties ∧ after.prototype = frozenPoint.prototype := by
  have frozen : frozenPoint.isFrozen = true := by decide +kernel
  obtain ⟨after, kept, -, unchanged⟩ := essential_invariants pointHeap
    [.setProperty ⟨0⟩ (.string "x") (.int 2), .deleteProperty ⟨0⟩ (.string "x"),
      .setPrototypeOf ⟨0⟩ (some ⟨1⟩)] 0 frozenPoint (by decide +kernel)
  obtain ⟨properties, prototype, -⟩ := unchanged frozen
  exact ⟨frozen, after, kept, properties, prototype⟩

/-!
## Reading what was written

`set_property` decides on the whole chain whether the receiver may be written, and
writes the receiver alone. What it has written is what `get_property` then finds
first.
-/

namespace OrdinaryObject

theorem writeOwn_cases (object : OrdinaryObject) (key : PropertyKey) (value : JsValue) :
    object.writeOwn key value = (false, object) ∨
      ∃ writable enumerable configurable, object.writeOwn key value =
        (true, object.insertProperty key (.data value writable enumerable configurable)) := by
  unfold writeOwn
  split
  · exact .inr ⟨_, _, _, rfl⟩
  · exact .inl rfl
  · split
    · exact .inr ⟨true, true, true, rfl⟩
    · exact .inl rfl

end OrdinaryObject

namespace ObjectHeap

variable {heap : ObjectHeap} {handle : ObjectHandle} {key : PropertyKey}

theorem put_self {object : ManagedObject} (found : heap.get handle = .ok object) :
    heap.put handle object = heap := by
  obtain ⟨inside, held⟩ := List.getElem?_eq_some_iff.mp (get_eq_ok_iff.mp found)
  rw [put, ← held, List.set_getElem_self]

theorem get_put_self {object written : ManagedObject} (found : heap.get handle = .ok object) :
    (heap.put handle written).get handle = .ok written :=
  get_eq_ok_iff.mpr
    (List.getElem?_set_self (List.getElem?_eq_some_iff.mp (get_eq_ok_iff.mp found)).1)

theorem getProperty_own {object : OrdinaryObject} {value : JsValue}
    {writable enumerable configurable : Bool} (found : heap.get handle = .ok (.ordinary object))
    (held : object.getOwnProperty key = some (.data value writable enumerable configurable)) :
    heap.getProperty handle key = .ok value := by
  rw [getProperty, maxPrototypeChainDepth, walkChain, if_neg List.not_mem_nil, found, ok_bind,
    getVisit, held, ok_bind]

/-- The receiver is an ordinary object that has the value under the key and is otherwise as it
was, and no other object differs. -/
structure Assigned (before after : ObjectHeap) (handle : ObjectHandle) (key : PropertyKey)
    (value : JsValue) : Prop where
  symbols : after.nextSymbol = before.nextSymbol
  size : after.objects.length = before.objects.length
  others : ∀ index, index ≠ handle.index.toNat → after.objects[index]? = before.objects[index]?
  receiver : ∃ object written, before.get handle = .ok (.ordinary object) ∧
    after.get handle = .ok (.ordinary written) ∧
    written = { object with properties := written.properties } ∧
    (∀ other, other ≠ key → written.getOwnProperty other = object.getOwnProperty other) ∧
    (written.getOwnProperty key).bind (·.value?) = some value

theorem setProperty_cases (heap : ObjectHeap) (handle : ObjectHandle) (key : PropertyKey)
    (value : JsValue) :
    (∃ refused, heap.setProperty handle key value = (refused, heap) ∧ refused ≠ .ok true) ∨
      ∃ object writable enumerable configurable, heap.get handle = .ok (.ordinary object) ∧
        heap.setProperty handle key value = (.ok true, heap.put handle (.ordinary
          (object.insertProperty key (.data value writable enumerable configurable)))) := by
  unfold setProperty
  split
  · exact .inl ⟨_, rfl, by simp⟩
  · exact .inl ⟨_, rfl, by simp⟩
  · unfold modifyOrdinary
    split
    · exact .inl ⟨_, rfl, by simp⟩
    · next object found =>
      dsimp only
      obtain refused | ⟨writable, enumerable, configurable, written⟩ :=
        object.writeOwn_cases key value
      · rw [refused, put_self found]
        exact .inl ⟨_, rfl, by simp⟩
      · rw [written]
        exact .inr ⟨object, writable, enumerable, configurable, found, rfl⟩
    · exact .inl ⟨_, rfl, by simp⟩

/-- An assignment that succeeds is read back and changes nothing else; another one changes
nothing. -/
theorem setProperty_coherent (heap : ObjectHeap) (handle : ObjectHandle) (key : PropertyKey)
    (value : JsValue) :
    ((heap.setProperty handle key value).1 = .ok true →
        (heap.setProperty handle key value).2.getProperty handle key = .ok value ∧
          heap.Assigned (heap.setProperty handle key value).2 handle key value) ∧
      ((heap.setProperty handle key value).1 ≠ .ok true →
        (heap.setProperty handle key value).2 = heap) := by
  obtain ⟨refused, same, failed⟩ | ⟨object, writable, enumerable, configurable, found, same⟩ :=
    heap.setProperty_cases handle key value
  · rw [same]
    exact ⟨fun succeeded => absurd succeeded failed, fun _ => rfl⟩
  · rw [same]
    have stored := OrdinaryObject.getOwnProperty_insertProperty object key
      (.data value writable enumerable configurable)
    refine ⟨fun _ => ⟨?_, rfl, List.length_set, ?_, ?_⟩, fun failed => absurd rfl failed⟩
    · refine getProperty_own (get_put_self found) ((stored key).trans (if_pos rfl))
    · intro index other
      exact List.getElem?_set_ne other.symm
    · refine ⟨object, _, found, get_put_self found, rfl, fun other different => ?_, ?_⟩
      · rw [stored, if_neg different]
      · rw [stored, if_pos rfl]
        rfl

theorem setProperty_coherent_point :
    let heap := (new.allocPlain.2.alloc (some ⟨0⟩)).2
    ((heap.setProperty ⟨1⟩ (.string "x") (.int 1)).2.getProperty ⟨1⟩ (.string "x")) =
      .ok (.int 1) :=
  ((setProperty_coherent _ _ _ _).1 (by decide +kernel)).1

end ObjectHeap

end FrankenEngine.Object
