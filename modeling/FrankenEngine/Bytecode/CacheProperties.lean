import FrankenEngine.Bytecode.ShapeProperties
import FrankenEngine.Bytecode.Vm

/-!
# The inline cache is transparent

The shape of an object is that of its list of names, and a cache entry tells the
slot that its property has in every object of its shape. A machine with the
cache and one that looks every property up by name therefore run in step, and
neither panics on the shape algebra.
-/

set_option autoImplicit false

namespace FrankenEngine.Bytecode

open Library HeapObject List Option

section Invariants

variable (digest : ShapeSkeleton → Digest) (program : Program) (layouts : Set (List String))

/-- The keys, slots and slot map of an object describe one list of names from
the property pool, whose shape the algebra knows. -/
structure ObjectOk (algebra : ShapeTransitionAlgebra) (object : HeapObject) : Prop where
  occurs : object.keys ∈ layouts
  shape : object.shapeId = shapeIdOf digest object.keys
  known : algebra.shapes.get? object.shapeId = some (descriptorOf digest object.keys)
  slots : object.slots.length = object.keys.length
  slotOf : ∀ name slot, object.keyToSlot.get? name = some slot ↔ object.keys[slot]? = some name
  named : ∀ key ∈ object.keys, ∃ index : UInt16, program.propertyPool[index.toNat]? = some key

structure VmOk (vm : Vm) : Prop where
  algebra : AlgebraOk digest (nameSkeleton '' layouts) vm.shapeAlgebra
  objects : ∀ object ∈ vm.heap, ObjectOk digest program layouts vm.shapeAlgebra object

/-- An entry that is not for a missing property names the slot of the property in
the layout of its shape. -/
def CacheOk (cache : OrderedMap Nat InlineCacheEntry) : Prop :=
  ∀ cacheKey entry, cache.get? cacheKey = some entry → entry.slotIndex = usizeMax ∨
    ∃ keys ∈ layouts, entry.shapeId = shapeIdOf digest keys ∧
      ∀ name, program.propertyPool[entry.propertyIndex.toNat]? = some name →
        keys[entry.slotIndex]? = some name

end Invariants

section Objects

variable {digest : ShapeSkeleton → Digest} {program : Program} {layouts : Set (List String)}
  {algebra : ShapeTransitionAlgebra} {object : HeapObject} {name : String}

variable (ok : ObjectOk digest program layouts algebra object)

include ok

theorem ObjectOk.nodup : object.keys.Nodup := by
  apply nodup_iff_injective_getElem.mpr
  intro ⟨one, oneInside⟩ ⟨two, twoInside⟩ same
  have first := (ok.slotOf _ one).mpr (getElem?_eq_getElem oneInside)
  have second := (ok.slotOf _ two).mpr (getElem?_eq_getElem twoInside)
  rw [show object.keys[one] = object.keys[two] from same, second] at first
  exact Fin.ext (some_inj.mp first).symm

theorem ObjectOk.length_keys : object.keys.length ≤ 2 ^ 16 := by
  have subset : object.keys ⊆
      (range (2 ^ 16)).filterMap (program.propertyPool[·]?) := by
    intro key member
    obtain ⟨index, found⟩ := ok.named key member
    exact mem_filterMap.mpr ⟨index.toNat, mem_range.mpr index.toNat_lt, found⟩
  calc object.keys.length
      ≤ ((range (2 ^ 16)).filterMap (program.propertyPool[·]?)).length :=
        (ok.nodup.subperm subset).length_le
    _ ≤ (range (2 ^ 16)).length := length_filterMap_le _ _
    _ = 2 ^ 16 := length_range

theorem ObjectOk.loadSlot_usizeMax : object.loadSlot usizeMax = none := by
  apply getElem?_eq_none
  have bound := ok.length_keys
  rw [ok.slots]
  exact bound.trans (by decide)

theorem ObjectOk.load_of_slot {slot : Nat} (position : object.keys[slot]? = some name) :
    object.load name = (object.slots[slot]?).map fun value => (slot, value) := by
  have mapped := (ok.slotOf name slot).mpr position
  simp only [load, mapped, bind_eq_bind, bind_some]
  cases object.slots[slot]? with
  | none => rfl
  | some value => rfl

theorem ObjectOk.exists_slot (listed : name ∈ object.keys) :
    ∃ (slot : Nat) (value : Value), object.keys[slot]? = some name ∧
      object.slots[slot]? = some value := by
  obtain ⟨slot, inside, found⟩ := getElem_of_mem listed
  have slotInside : slot < object.slots.length := ok.slots ▸ inside
  exact ⟨slot, object.slots[slot], by rw [getElem?_eq_getElem inside, found],
    getElem?_eq_getElem slotInside⟩

theorem ObjectOk.get?_none (absent : name ∉ object.keys) : object.keyToSlot.get? name = none := by
  cases mapped : object.keyToSlot.get? name with
  | none => rfl
  | some slot => exact absurd (mem_of_getElem? ((ok.slotOf name slot).mp mapped)) absent

theorem ObjectOk.load_of_absent (absent : name ∉ object.keys) : object.load name = none := by
  simp only [load, ok.get?_none absent, bind_eq_bind, bind_none]

omit ok

variable {cache : OrderedMap Nat InlineCacheEntry} {propertyIndex : UInt16}

theorem refillCache_spec (ok : ObjectOk digest program layouts algebra object)
    (cacheOk : CacheOk digest program layouts cache)
    (isProperty : program.propertyPool[propertyIndex.toNat]? = some name) (cacheKey ip : Nat) :
    (refillCache cache cacheKey object propertyIndex name).1 =
        (loadByName cache ip object propertyIndex name).1 ∧
      CacheOk digest program layouts
        (refillCache cache cacheKey object propertyIndex name).2 := by
  unfold refillCache loadByName
  by_cases listed : name ∈ object.keys
  · obtain ⟨slot, value, position, found⟩ := ok.exists_slot listed
    rw [ok.load_of_slot position, found, map_some]
    refine ⟨rfl, OrderedMap.forall_get?_insert cacheOk (.inr ⟨object.keys, ok.occurs, ok.shape, ?_⟩)⟩
    intro other isOther
    rw [isProperty] at isOther
    cases isOther
    exact position
  · rw [ok.load_of_absent listed]
    exact ⟨rfl, OrderedMap.forall_get?_insert cacheOk (.inl rfl)⟩

theorem loadCached_spec (distinct : Set.InjOn (shapeIdOf digest) layouts)
    (ok : ObjectOk digest program layouts algebra object)
    (cacheOk : CacheOk digest program layouts cache)
    (isProperty : program.propertyPool[propertyIndex.toNat]? = some name) (ip : Nat) :
    (loadCached cache ip object propertyIndex name).1 =
        (loadByName cache ip object propertyIndex name).1 ∧
      CacheOk digest program layouts (loadCached cache ip object propertyIndex name).2 := by
  have refill := refillCache_spec ok cacheOk isProperty (ip % 2 ^ 32) ip
  unfold loadCached
  simp only
  cases lookedUp : cache.get? (ip % 2 ^ 32) with
  | none => exact refill
  | some entry =>
    by_cases guarded : entry.shapeId = object.shapeId ∧ entry.propertyIndex = propertyIndex
    · simp only [if_pos guarded]
      cases loaded : object.loadSlot entry.slotIndex with
      | none => exact refill
      | some value =>
        have entryOk := cacheOk _ entry lookedUp
        refine ⟨?_, OrderedMap.forall_get?_insert cacheOk entryOk⟩
        rcases entryOk with missing | ⟨keys, occurs, shape, slot⟩
        · rw [missing, ok.loadSlot_usizeMax] at loaded
          cases loaded
        · -- an entry of the same shape speaks of the object's own names
          obtain rfl := distinct ok.occurs occurs (ok.shape.symm.trans (guarded.1.symm.trans shape))
          have position := slot name (guarded.2 ▸ isProperty)
          change object.slots[entry.slotIndex]? = some value at loaded
          rw [loadByName, ok.load_of_slot position, loaded]
          rfl
    · simp only [if_neg guarded]
      exact refill

variable (ok : ObjectOk digest program layouts algebra object)

include ok

theorem ObjectOk.mono {after : ShapeTransitionAlgebra} (keeps : Keeps algebra after) :
    ObjectOk digest program layouts after object :=
  ⟨ok.occurs, ok.shape, keeps _ _ ok.known, ok.slots, ok.slotOf, ok.named⟩

theorem ObjectOk.store_listed (listed : name ∈ object.keys) (value : Value) :
    ObjectOk digest program layouts algebra
      (object.store (shapeIdOf digest object.keys) name value) := by
  obtain ⟨slot, stored, position, found⟩ := ok.exists_slot listed
  have mapped := (ok.slotOf name slot).mpr position
  have inside : slot < object.slots.length := (List.getElem?_eq_some_iff.mp found).1
  have result : object.store (shapeIdOf digest object.keys) name value =
      { object with
        shapeId := shapeIdOf digest object.keys
        slots := object.slots.set slot value
        propertyCellRevisions := object.propertyCellRevisions.insert name
          ((object.propertyCellRevisions.get? name).getD 0 + 1) } := by
    simp only [store, mapped, if_pos inside]
  rw [result]
  exact ⟨ok.occurs, rfl, ok.shape ▸ ok.known, by rw [length_set, ok.slots], ok.slotOf, ok.named⟩

omit ok

theorem getElem?_append_eq_some_iff {keys : List String} (absent : name ∉ keys) (other : String)
    (slot : Nat) : (keys ++ [name])[slot]? = some other ↔
      if other = name then slot = keys.length else keys[slot]? = some other := by
  rcases Nat.lt_trichotomy slot keys.length with inside | rfl | outside
  · rw [getElem?_append_left inside]
    by_cases same : other = name
    · rw [if_pos same, same]
      exact iff_of_false (fun found => absent (mem_of_getElem? found)) inside.ne
    · rw [if_neg same]
  · by_cases same : other = name
    · simp [same]
    · simp [same, Ne.symm same]
  · have beyond : (keys ++ [name])[slot]? = none := by
      apply getElem?_eq_none
      rw [length_append]
      exact outside
    have beyondKeys : keys[slot]? = none := getElem?_eq_none outside.le
    rw [beyond, beyondKeys]
    by_cases same : other = name
    · simp [same, outside.ne']
    · simp [same]

theorem ObjectOk.store_absent {after : ShapeTransitionAlgebra}
    (ok : ObjectOk digest program layouts algebra object) (absent : name ∉ object.keys)
    (isProperty : program.propertyPool[propertyIndex.toNat]? = some name)
    (occurs : object.keys ++ [name] ∈ layouts)
    (known : Interned digest after.shapes (nameSkeleton (object.keys ++ [name]))) (value : Value) :
    ObjectOk digest program layouts after
      (object.store (shapeIdOf digest (object.keys ++ [name])) name value) := by
  have result : object.store (shapeIdOf digest (object.keys ++ [name])) name value =
      { shapeId := shapeIdOf digest (object.keys ++ [name])
        keys := object.keys ++ [name]
        slots := object.slots ++ [value]
        keyToSlot := object.keyToSlot.insert name object.slots.length
        propertyCellRevisions := object.propertyCellRevisions.insert name
          ((object.propertyCellRevisions.get? name).getD 0 + 1) } := by
    simp only [store, ok.get?_none absent]
  rw [result]
  refine ⟨occurs, rfl, known, by simp [ok.slots], fun other slot => ?_, fun key member => ?_⟩
  · rw [getElem?_append_eq_some_iff absent, OrderedMap.get?_insert, ok.slots]
    split
    next => rw [some_inj, eq_comm]
    next => exact ok.slotOf other slot
  · rcases mem_append.mp member with before | last
    · exact ok.named key before
    · rw [mem_singleton.mp last]
      exact ⟨propertyIndex, isProperty⟩

end Objects

/-- The names that the objects of the heap were given, at each time. -/
def occurring (heap : List HeapObject) : Set (List String) :=
  { keys | keys = [] ∨ ∃ object ∈ heap, keys <+: object.keys }

theorem occurring_append (heap : List HeapObject) (object : HeapObject) :
    occurring heap ⊆ occurring (heap ++ [object]) := by
  rintro keys (empty | ⟨other, member, isPrefix⟩)
  · exact .inl empty
  · exact .inr ⟨other, mem_append_left _ member, isPrefix⟩

theorem occurring_set {heap : List HeapObject} {index : Nat} {object stored : HeapObject}
    (found : heap[index]? = some object) (grows : object.keys <+: stored.keys) :
    occurring heap ⊆ occurring (heap.set index stored) := by
  rintro keys (empty | ⟨other, member, isPrefix⟩)
  · exact .inl empty
  · obtain ⟨place, foundOther⟩ := mem_iff_getElem?.mp member
    by_cases same : index = place
    · subst same
      cases found.symm.trans foundOther
      exact .inr ⟨stored, mem_set (List.getElem?_eq_some_iff.mp found).1 _, isPrefix.trans grows⟩
    · exact .inr ⟨other, mem_of_getElem? ((getElem?_set_ne same).trans foundOther), isPrefix⟩

theorem prefix_keys_store (object : HeapObject) (shapeId : Nat) (name : String) (value : Value) :
    object.keys <+: (object.store shapeId name value).keys := by
  unfold store
  cases object.keyToSlot.get? name with
  | none => exact prefix_append _ _
  | some slot => exact prefix_rfl

section Growth

variable {digest : ShapeSkeleton → Digest} {load : Load} {program : Program} {vm : Vm}

theorem occurring_attempt {α : Type} {result : Except VmError α}
    {next : α → Except Failure ControlFlow × Vm}
    (onOk : ∀ value, result = .ok value → occurring vm.heap ⊆ occurring (next value).2.heap) :
    occurring vm.heap ⊆ occurring (attempt vm result next).2.heap := by
  cases result with
  | ok value => exact onOk value rfl
  | error error => exact .rfl

theorem heap_writeAndAdvance (vm : Vm) (ip : Nat) (dst : UInt16) (value : Value) :
    (writeAndAdvance vm ip dst value).2.heap = vm.heap := by
  unfold writeAndAdvance Vm.writeRegister
  by_cases inside : dst.toNat < vm.registers.length
  · rw [if_pos inside]
    rfl
  · rw [if_neg inside]
    rfl

/-- A store changes the algebra and the heap, and does not see the cache. -/
theorem exists_storeProperty {objectId : UInt32} {object : HeapObject}
    (found : vm.heap[objectId.toNat]? = some object) (ip : Nat) (name : String) (value : Value) :
    ∃ result after, storeProperty digest vm ip objectId object name value = (result, after) ∧
      (∀ inlineCache, storeProperty digest { vm with inlineCache } ip objectId object name value =
        (result, { after with inlineCache })) ∧ occurring vm.heap ⊆ occurring after.heap := by
  simp only [storeProperty]
  generalize vm.shapeAlgebra.applyMutation digest object.shapeId _ = applied
  cases applied with
  | none => exact ⟨_, _, rfl, fun _ => rfl, .rfl⟩
  | some returned =>
    obtain ⟨result, after⟩ := returned
    cases result with
    | error error => exact ⟨_, _, rfl, fun _ => rfl, .rfl⟩
    | ok outcome =>
      simp only
      split
      next => exact ⟨_, _, rfl, fun _ => rfl, .rfl⟩
      next =>
        exact ⟨_, _, rfl, fun _ => rfl, occurring_set found (prefix_keys_store object _ name value)⟩

theorem getObject_ok {objectId : UInt32} {object : HeapObject}
    (found : vm.getObject objectId = .ok object) : vm.heap[objectId.toNat]? = some object := by
  unfold Vm.getObject at found
  split at found
  next some => exact Except.ok.inj found ▸ some
  next => cases found

theorem occurring_executeInstruction (ip : Nat) (instruction : Instruction) : occurring vm.heap ⊆
    occurring (executeInstruction digest load program ip instruction vm).2.heap := by
  have write : ∀ {changed : Vm} dst value, occurring vm.heap ⊆ occurring changed.heap →
      occurring vm.heap ⊆ occurring (writeAndAdvance changed ip dst value).2.heap := by
    intro changed dst value grows
    rw [heap_writeAndAdvance]
    exact grows
  cases instruction with
  | loadConst dst constIndex => exact occurring_attempt fun value _ => write dst value .rfl
  | move dst src => exact occurring_attempt fun value _ => write dst value .rfl
  | add dst lhs rhs => exact occurring_attempt fun value _ => write dst _ .rfl
  | sub dst lhs rhs => exact occurring_attempt fun value _ => write dst _ .rfl
  | mul dst lhs rhs => exact occurring_attempt fun value _ => write dst _ .rfl
  | div dst lhs rhs =>
    refine occurring_attempt fun left _ => occurring_attempt fun right _ => ?_
    split
    next => exact .rfl
    next => exact write dst _ .rfl
  | newObject dst => exact write dst _ (occurring_append _ _)
  | storeProp object propertyIndex value =>
    refine occurring_attempt fun objectId _ => occurring_attempt fun name _ =>
      occurring_attempt fun stored _ => occurring_attempt fun heapObject found => ?_
    obtain ⟨_, _, own, -, grows⟩ := exists_storeProperty (getObject_ok found) ip name stored
    rw [own]
    exact grows
  | loadPropCached dst object propertyIndex =>
    exact occurring_attempt fun objectId _ => occurring_attempt fun name _ =>
      occurring_attempt fun heapObject _ => write dst _ .rfl
  | jump | ret => exact occurring_attempt fun _ _ => .rfl
  | jumpIfFalse condition target =>
    refine occurring_attempt fun value _ => ?_
    split
    next => exact .rfl
    next => exact occurring_attempt fun _ _ => .rfl

theorem occurring_executeFrom (stepBudget remaining ip steps : Nat) : occurring vm.heap ⊆
    occurring (executeFrom digest load program stepBudget remaining ip steps vm).vm.heap := by
  induction remaining generalizing ip steps vm with
  | zero => exact .rfl
  | succ remaining ih =>
    rw [executeFrom]
    cases program.instructions[ip]? with
    | none => exact .rfl
    | some instruction =>
      have grows : occurring vm.heap ⊆
          occurring (executeInstruction digest load program ip instruction vm).2.heap :=
        occurring_executeInstruction ip instruction
      simp only
      generalize executeInstruction digest load program ip instruction vm = step at grows
      obtain ⟨result, after⟩ := step
      cases result with
      | error failure => exact grows
      | ok flow =>
        cases flow with
        | next target => exact grows.trans (ih target (steps + 1))
        | ret value => exact grows

end Growth

section Steps

variable (digest : ShapeSkeleton → Digest) (program : Program) (layouts : Set (List String))

/-- One step of the reference machine and the same step of the machine with its
cache: they return the same in states that differ in the cache only. -/
structure InStep (reference cached : Except Failure ControlFlow × Vm) : Prop where
  calm : reference.1 ≠ .error .panic
  ok : occurring reference.2.heap ⊆ layouts → VmOk digest program layouts reference.2
  same : ∃ cache, cached = (reference.1, { reference.2 with inlineCache := cache }) ∧
    CacheOk digest program layouts cache

variable {digest program layouts} {vm : Vm} {cache : OrderedMap Nat InlineCacheEntry}

theorem inStep_write {changed : Vm}
    (ok : occurring changed.heap ⊆ layouts → VmOk digest program layouts changed)
    (cacheOk : CacheOk digest program layouts cache) (ip : Nat) (dst : UInt16) (value : Value) :
    InStep digest program layouts (writeAndAdvance changed ip dst value)
      (writeAndAdvance { changed with inlineCache := cache } ip dst value) := by
  unfold writeAndAdvance Vm.writeRegister
  by_cases inside : dst.toNat < changed.registers.length
  · simp only [if_pos inside, attempt]
    exact ⟨nofun, fun occurs => ⟨(ok occurs).algebra, (ok occurs).objects⟩, cache, rfl, cacheOk⟩
  · simp only [if_neg inside, attempt]
    exact ⟨nofun, ok, cache, rfl, cacheOk⟩

theorem getProperty_ok {propertyIndex : UInt16} {name : String}
    (found : program.getProperty propertyIndex = .ok name) :
    program.propertyPool[propertyIndex.toNat]? = some name := by
  unfold Program.getProperty at found
  split at found
  next some => exact Except.ok.inj found ▸ some
  next => cases found

variable (ok : VmOk digest program layouts vm)

include ok

theorem vmOk_set {after : ShapeTransitionAlgebra} {index : Nat} {stored : HeapObject}
    (okAfter : AlgebraOk digest (nameSkeleton '' layouts) after)
    (keeps : Keeps vm.shapeAlgebra after)
    (storedOk : ObjectOk digest program layouts after stored) : VmOk digest program layouts
      { vm with shapeAlgebra := after, heap := vm.heap.set index stored } where
  algebra := okAfter
  objects := by
    intro object member
    rcases mem_or_eq_of_mem_set member with before | rfl
    · exact (ok.objects object before).mono keeps
    · exact storedOk

theorem vmOk_append (occurs : occurring (vm.heap ++ [new vm.shapeAlgebra.rootShapeId]) ⊆ layouts) :
    VmOk digest program layouts
      { vm with heap := vm.heap ++ [new vm.shapeAlgebra.rootShapeId] } where
  algebra := ok.algebra
  objects := by
    intro object member
    rcases mem_append.mp member with before | last
    · exact ok.objects object before
    · rw [mem_singleton.mp last]
      exact ⟨occurs (.inl rfl), ok.algebra.root, ok.algebra.root ▸ ok.algebra.rootKnown, rfl,
        fun _ _ => iff_of_false nofun nofun, nofun⟩

variable (cacheOk : CacheOk digest program layouts cache)

include cacheOk

theorem inStep_stay {result : Except Failure ControlFlow}
    (calm : result ≠ .error .panic) :
    InStep digest program layouts (result, vm) (result, { vm with inlineCache := cache }) :=
  ⟨calm, fun _ => ok, cache, rfl, cacheOk⟩

theorem inStep_attempt {α : Type} {result : Except VmError α}
    {next nextCached : α → Except Failure ControlFlow × Vm}
    (onOk : ∀ value, result = .ok value →
      InStep digest program layouts (next value) (nextCached value)) :
    InStep digest program layouts (attempt vm result next)
      (attempt { vm with inlineCache := cache } result nextCached) := by
  cases result with
  | ok value => exact onOk value rfl
  | error error => exact inStep_stay ok cacheOk nofun

theorem inStep_jumpTo (target : UInt32) : InStep digest program layouts
      (attempt vm (program.jumpTo target) fun ip => (.ok (.next ip), vm))
      (attempt { vm with inlineCache := cache } (program.jumpTo target) fun ip =>
        (.ok (.next ip), { vm with inlineCache := cache })) :=
  inStep_attempt ok cacheOk fun _ _ => inStep_stay ok cacheOk nofun

variable (distinct : Set.InjOn (shapeIdOf digest) layouts)

include distinct

theorem inStep_storeProperty {objectId : UInt32} {object : HeapObject} {propertyIndex : UInt16}
    {name : String} (found : vm.heap[objectId.toNat]? = some object)
    (isProperty : program.propertyPool[propertyIndex.toNat]? = some name) (ip : Nat)
    (value : Value) :
    InStep digest program layouts (storeProperty digest vm ip objectId object name value)
      (storeProperty digest { vm with inlineCache := cache } ip objectId object name value) := by
  have objectOk := ok.objects object (mem_of_getElem? found)
  have known := objectOk.known
  rw [objectOk.shape] at known
  obtain ⟨_, _, own, same, -⟩ := exists_storeProperty found ip name value
  rw [same cache]
  by_cases listed : name ∈ object.keys
  · obtain ⟨slot, stored, position, -⟩ := objectOk.exists_slot listed
    have mapped := (objectOk.slotOf name slot).mpr position
    obtain ⟨outcome, after, applied, shape, okAfter, keeps⟩ :=
      exists_applyMutation_write ok.algebra distinct objectOk.occurs known listed
    have result : storeProperty digest vm ip objectId object name value =
        (.ok (.next (ip + 1)),
          { vm with
            shapeAlgebra := after
            heap := vm.heap.set objectId.toNat
              (object.store (shapeIdOf digest object.keys) name value) }) := by
      simp only [storeProperty, mapped, isSome_some, if_true, objectOk.shape, applied, shape]
      rfl
    cases own.symm.trans result
    rw [result]
    exact ⟨nofun, fun _ => vmOk_set ok okAfter keeps
      ((objectOk.mono keeps).store_listed listed value), cache, rfl, cacheOk⟩
  · have unmapped := objectOk.get?_none listed
    obtain ⟨outcome, after, applied, layout, reached⟩ :=
      exists_applyMutation_add ok.algebra distinct objectOk.occurs known listed
    have result : storeProperty digest vm ip objectId object name value =
        (.ok (.next (ip + 1)),
          { vm with
            shapeAlgebra := after
            heap := vm.heap.set objectId.toNat
              (object.store outcome.shape.shapeId name value) }) := by
      simp only [storeProperty, unmapped, isSome_none, Bool.false_eq_true, if_false,
        objectOk.shape, applied, layout, all_some, objectOk.slots, decide_true,
        Bool.true_eq_false, and_false]
    cases own.symm.trans result
    rw [result]
    have storedKeys : (object.store outcome.shape.shapeId name value).keys =
        object.keys ++ [name] := by
      simp only [store, unmapped]
    refine ⟨nofun, fun occurs => ?_, cache, rfl, cacheOk⟩
    have inside : objectId.toNat < vm.heap.length := (List.getElem?_eq_some_iff.mp found).1
    have occursNext : object.keys ++ [name] ∈ layouts :=
      occurs (.inr ⟨_, mem_set inside _, storedKeys ▸ prefix_rfl⟩)
    obtain ⟨shape, okAfter, keeps, knownNext⟩ := reached occursNext
    rw [shape]
    exact vmOk_set ok okAfter keeps
      (objectOk.store_absent listed isProperty occursNext knownNext value)

theorem inStep_executeInstruction (ip : Nat) (instruction : Instruction) : InStep digest program layouts
      (executeInstruction digest loadByName program ip instruction vm)
      (executeInstruction digest loadCached program ip instruction
        { vm with inlineCache := cache }) := by
  have write : ∀ {cache}, CacheOk digest program layouts cache → ∀ dst value,
      InStep digest program layouts (writeAndAdvance vm ip dst value)
        (writeAndAdvance { vm with inlineCache := cache } ip dst value) :=
    fun cacheOk dst value => inStep_write (fun _ => ok) cacheOk ip dst value
  cases instruction with
  | loadConst dst constIndex => exact inStep_attempt ok cacheOk fun constant _ => write cacheOk dst constant
  | move dst src => exact inStep_attempt ok cacheOk fun value _ => write cacheOk dst value
  | add dst lhs rhs => exact inStep_attempt ok cacheOk fun value _ => write cacheOk dst (.int value)
  | sub dst lhs rhs => exact inStep_attempt ok cacheOk fun value _ => write cacheOk dst (.int value)
  | mul dst lhs rhs => exact inStep_attempt ok cacheOk fun value _ => write cacheOk dst (.int value)
  | div dst lhs rhs =>
    refine inStep_attempt ok cacheOk fun left _ => inStep_attempt ok cacheOk fun right _ => ?_
    by_cases zero : right = 0
    · rw [if_pos zero, if_pos zero]
      exact inStep_stay ok cacheOk nofun
    · rw [if_neg zero, if_neg zero]
      exact write cacheOk dst (.int (left / right))
  | newObject dst =>
    exact inStep_write (vmOk_append ok) cacheOk ip dst _
  | storeProp object propertyIndex value =>
    refine inStep_attempt ok cacheOk fun objectId _ => inStep_attempt ok cacheOk fun name isName =>
      inStep_attempt ok cacheOk fun stored _ => inStep_attempt ok cacheOk fun heapObject found => ?_
    exact inStep_storeProperty ok cacheOk distinct (getObject_ok found) (getProperty_ok isName) ip
      stored
  | loadPropCached dst object propertyIndex =>
    refine inStep_attempt ok cacheOk fun objectId _ => inStep_attempt ok cacheOk fun name isName =>
      inStep_attempt ok cacheOk fun heapObject found => ?_
    have objectOk := ok.objects heapObject (mem_of_getElem? (getObject_ok found))
    obtain ⟨same, cacheOkAfter⟩ :=
      loadCached_spec distinct objectOk cacheOk (getProperty_ok isName) ip
    change InStep digest program layouts
      (writeAndAdvance vm ip dst (loadByName cache ip heapObject propertyIndex name).1)
      (writeAndAdvance
        { vm with inlineCache := (loadCached cache ip heapObject propertyIndex name).2 } ip dst
        (loadCached cache ip heapObject propertyIndex name).1)
    rw [same]
    exact write cacheOkAfter dst _
  | jump target => exact inStep_jumpTo ok cacheOk target
  | jumpIfFalse condition target =>
    refine inStep_attempt ok cacheOk fun value _ => ?_
    by_cases truthy : value.isTruthy
    · rw [if_pos truthy, if_pos truthy]
      exact inStep_stay ok cacheOk nofun
    · rw [if_neg truthy, if_neg truthy]
      exact inStep_jumpTo ok cacheOk target
  | ret src => exact inStep_attempt ok cacheOk fun value _ => inStep_stay ok cacheOk nofun

end Steps

section Runs

variable {digest : ShapeSkeleton → Digest} {program : Program} {layouts : Set (List String)}

theorem executeFrom_cached (distinct : Set.InjOn (shapeIdOf digest) layouts)
    {stepBudget remaining : Nat} {vm : Vm} {cache : OrderedMap Nat InlineCacheEntry}
    (ok : VmOk digest program layouts vm) (cacheOk : CacheOk digest program layouts cache)
    (ip steps : Nat) (occurs : occurring
      (executeFrom digest loadByName program stepBudget remaining ip steps vm).vm.heap ⊆ layouts) :
    ∃ final, executeFrom digest loadCached program stepBudget remaining ip steps
        { vm with inlineCache := cache } =
      { executeFrom digest loadByName program stepBudget remaining ip steps vm with
        vm := { (executeFrom digest loadByName program stepBudget remaining ip steps vm).vm with
          inlineCache := final } } ∧
      (executeFrom digest loadByName program stepBudget remaining ip steps vm).result ≠
        .error .panic := by
  induction remaining generalizing ip steps vm cache with
  | zero => exact ⟨cache, rfl, nofun⟩
  | succ remaining ih =>
    simp only [executeFrom] at occurs ⊢
    cases fetched : program.instructions[ip]? with
    | none => exact ⟨cache, rfl, nofun⟩
    | some instruction =>
      simp only [fetched] at occurs
      obtain ⟨calm, okAfter, after, same, afterOk⟩ :=
        inStep_executeInstruction ok cacheOk distinct ip instruction
      simp only [same]
      generalize executeInstruction digest loadByName program ip instruction vm = step at *
      obtain ⟨result, changed⟩ := step
      cases result with
      | error failure =>
        exact ⟨after, rfl, fun panics => calm (congrArg Except.error (Except.error.inj panics))⟩
      | ok flow =>
        cases flow with
        | ret value => exact ⟨after, rfl, nofun⟩
        | next target =>
          have occursNow : occurring changed.heap ⊆ layouts := fun keys held =>
            occurs (occurring_executeFrom _ _ _ _ held)
          exact ih (okAfter occursNow) afterOk target (steps + 1) occurs

theorem vmOk_initial (occurs : [] ∈ layouts) (registerCount : Nat) :
    VmOk digest program layouts (.initial digest registerCount) :=
  ⟨algebraOk_new ⟨[], occurs, rfl⟩, nofun⟩

/-- If the layouts that occur in the run have distinct shape identifiers, then
the machine ends like the one that loads by name, and never panics. -/
theorem execute_eq_executeReference (digest : ShapeSkeleton → Digest) (program : Program)
    (registerCount stepBudget : Nat)
    (distinct : Set.InjOn (shapeIdOf digest)
      (occurring (executeReference digest program registerCount stepBudget).vm.heap)) :
    (execute digest program registerCount stepBudget).result =
        (executeReference digest program registerCount stepBudget).result ∧
      (execute digest program registerCount stepBudget).steps =
        (executeReference digest program registerCount stepBudget).steps ∧
      (execute digest program registerCount stepBudget).vm.registers =
        (executeReference digest program registerCount stepBudget).vm.registers ∧
      (execute digest program registerCount stepBudget).vm.heap =
        (executeReference digest program registerCount stepBudget).vm.heap ∧
      (execute digest program registerCount stepBudget).result ≠ .error .panic := by
  have noEntries : CacheOk digest program
      (occurring (executeReference digest program registerCount stepBudget).vm.heap) .empty := nofun
  obtain ⟨final, same, calm⟩ := executeFrom_cached distinct
    (vmOk_initial (.inl rfl) registerCount) noEntries 0 0 fun _ held => held
  have run : execute digest program registerCount stepBudget = _ := same
  rw [run]
  exact ⟨rfl, rfl, rfl, rfl, calm⟩

def loadTwice : Program where
  constants := [.int 7, .bool true]
  propertyPool := ["x"]
  instructions := [.newObject 0, .loadConst 1 0, .storeProp 0 0 1, .loadPropCached 2 0 0,
    .jumpIfFalse 3 6, .ret 2, .loadConst 3 1, .jump 3]

theorem injOn_loadTwice : Set.InjOn (shapeIdOf lengthDigest)
    (occurring (executeReference lengthDigest loadTwice 4 20).vm.heap) := by
  have objects : (executeReference lengthDigest loadTwice 4 20).vm.heap.map (·.keys) = [["x"]] := by
    decide +kernel
  have short : ∀ keys ∈ occurring (executeReference lengthDigest loadTwice 4 20).vm.heap,
      keys ∈ [[], ["x"]] := by
    intro keys held
    rcases held with rfl | ⟨object, member, isPrefix⟩
    · exact .head _
    · have listed : object.keys ∈ [["x"]] := objects ▸ mem_map_of_mem member
      rw [mem_singleton.mp listed] at isPrefix
      rcases prefix_cons_iff.mp isPrefix with rfl | ⟨rest, rfl, isNil⟩
      · exact .head _
      · rw [prefix_nil.mp isNil]
        exact .tail _ (.head _)
  have apart : ∀ one ∈ [[], ["x"]], ∀ two ∈ [[], ["x"]],
      shapeIdOf lengthDigest one = shapeIdOf lengthDigest two → one = two := by decide +kernel
  intro one heldOne two heldTwo same
  exact apart one (short one heldOne) two (short two heldTwo) same

theorem execute_loadTwice :
    (execute lengthDigest loadTwice 4 20).result =
        (executeReference lengthDigest loadTwice 4 20).result ∧
      (execute lengthDigest loadTwice 4 20).result ≠ .error .panic := by
  have same := execute_eq_executeReference lengthDigest loadTwice 4 20 injOn_loadTwice
  exact ⟨same.1, same.2.2.2.2⟩

end Runs

end FrankenEngine.Bytecode
