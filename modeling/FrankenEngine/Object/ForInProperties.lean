import FrankenEngine.Object.Heap
import FrankenEngine.Object.KeyOrder

/-!
# Enumeration along the prototype chain

A name is enumerated if the first object of the chain that has it as an own
property has it enumerable. The walk remembers every key that it has seen, so
that a property hides those of the same name further up, listed or not.
-/

set_option autoImplicit false

namespace FrankenEngine.Object.ObjectHeap

/-- The names and keys so far, after a walk that found the given properties first. -/
structure Enumerated (found : PropertyKey → Option PropertyDescriptor)
    (state : List String × List PropertyKey) : Prop where
  distinct : state.1.Nodup
  seen : ∀ key, key ∈ state.2 ↔ (found key).isSome
  listed : ∀ name, name ∈ state.1 ↔ (found (.string name)).any (·.isEnumerable) = true

variable {found : PropertyKey → Option PropertyDescriptor} {state : List String × List PropertyKey}
  {object : OrdinaryObject}

variable (enumerated : Enumerated found state)

include enumerated

theorem Enumerated.enumerate {key : PropertyKey} {desc : PropertyDescriptor}
    (own : object.getOwnProperty key = some desc) :
    Enumerated (fun other => (found other).or (if other = key then some desc else none))
      (ObjectHeap.enumerate object state key) := by
  have stored : object.properties.get? key = some desc := own
  obtain ⟨distinct, seen, listed⟩ := enumerated
  unfold ObjectHeap.enumerate
  split
  next known =>
    -- The key was found before, and hides this property.
    obtain ⟨first, hides⟩ := Option.isSome_iff_exists.mp ((seen key).mp (by simpa using known))
    constructor <;> grind
  next unseen =>
    have unknown : found key = none := by simpa [seen] using unseen
    cases key with
    | symbol id => constructor <;> grind
    | string name =>
      constructor <;> grind [List.nodup_append]

theorem Enumerated.foldl {keys : List PropertyKey}
    (own : ∀ key ∈ keys, (object.getOwnProperty key).isSome) : Enumerated
      (fun other => (found other).or (if other ∈ keys then object.getOwnProperty other else none))
      (keys.foldl (ObjectHeap.enumerate object) state) := by
  induction keys generalizing found state with
  | nil => simpa using enumerated
  | cons key rest ih =>
    obtain ⟨desc, here⟩ := Option.isSome_iff_exists.mp (own key (.head _))
    have further := ih (enumerated.enumerate here) fun other member => own other (.tail _ member)
    rw [List.foldl_cons]
    convert further using 2 with other
    by_cases same : other = key
    · simp [same, here]
    · simp [same]

theorem Enumerated.ownKeys (object : OrdinaryObject) :
    Enumerated (fun key => (found key).or (object.getOwnProperty key))
      (object.ownPropertyKeys.foldl (ObjectHeap.enumerate object) state) := by
  have isOwn : ∀ key, key ∈ object.ownPropertyKeys ↔ (object.getOwnProperty key).isSome := fun key =>
    OrdinaryObject.mem_ownPropertyKeys.trans Library.OrderedMap.mem_keys_iff
  convert enumerated.foldl (fun key => (isOwn key).mp) using 3 with key
  split
  · rfl
  · next absent =>
    rw [isOwn, Option.not_isSome_iff_eq_none] at absent
    exact absent

omit enumerated

inductive Chain (heap : ObjectHeap) : Option ObjectHandle → List OrdinaryObject → Prop
  | nil : Chain heap none []
  | cons {handle : ObjectHandle} {object : OrdinaryObject} {rest : List OrdinaryObject} :
      heap.get handle = .ok (.ordinary object) → Chain heap object.prototype rest →
      Chain heap (some handle) (object :: rest)

theorem Chain.unique {heap : ObjectHeap} {current : Option ObjectHandle}
    {objects others : List OrdinaryObject} (chain : Chain heap current objects)
    (other : Chain heap current others) : objects = others := by
  induction chain generalizing others with
  | nil =>
    cases other
    rfl
  | cons held _ ih =>
    cases other with
    | cons same rest =>
      cases held.symm.trans same
      rw [ih rest]

/-- The walk meets no object twice, since what is left of the chain gets shorter. -/
theorem Chain.forInWalk_eq {heap : ObjectHeap} {current : Option ObjectHandle}
    {objects : List OrdinaryObject} (chain : Chain heap current objects) {fuel : Nat}
    {visited : List ObjectHandle} (enumerated : Enumerated found state)
    (short : objects.length ≤ fuel)
    (earlier : ∀ handle ∈ visited, ∃ longer, Chain heap (some handle) longer ∧
      objects.length < longer.length) :
    ∃ after, heap.forInWalk fuel visited state current = .ok after.1 ∧
      Enumerated (fun key => (found key).or (objects.findSome? (·.getOwnProperty key))) after := by
  induction chain generalizing fuel visited found state with
  | nil =>
    refine ⟨state, ?_, by simpa using enumerated⟩
    cases fuel <;> rfl
  | @cons handle object rest held further ih =>
    obtain ⟨fuel, rfl⟩ := Nat.exists_eq_add_one_of_ne_zero (Nat.ne_of_gt (Nat.zero_lt_of_lt short))
    have unvisited : handle ∉ visited := by
      intro member
      obtain ⟨longer, again, less⟩ := earlier handle member
      rw [again.unique (.cons held further)] at less
      exact Nat.lt_irrefl _ less
    rw [forInWalk, if_neg unvisited, held]
    have passed : ∀ other ∈ handle :: visited, ∃ longer, Chain heap (some other) longer ∧
        rest.length < longer.length := by
      intro other member
      cases member with
      | head => exact ⟨_, .cons held further, Nat.lt_succ_self _⟩
      | tail _ member =>
        obtain ⟨longer, again, less⟩ := earlier other member
        exact ⟨longer, again, Nat.lt_trans (Nat.lt_succ_self _) less⟩
    obtain ⟨after, walked, all⟩ := ih (enumerated.ownKeys object)
      (Nat.le_of_succ_le_succ short) passed
    refine ⟨after, walked, ?_⟩
    convert all using 2 with key
    rw [Option.or_assoc, List.findSome?_cons]
    cases object.getOwnProperty key <;> rfl

/-- Along a chain of ordinary objects within the depth limit, a name is enumerated once, and only
if the first object that has it as an own property has it enumerable. -/
theorem mem_forInKeys_iff {heap : ObjectHeap} {handle : ObjectHandle} {objects : List OrdinaryObject}
    (chain : Chain heap (some handle) objects) (short : objects.length ≤ maxPrototypeChainDepth) :
    ∃ names, heap.forInKeys handle = .ok names ∧ names.Nodup ∧
      ∀ name, name ∈ names ↔ ∃ desc,
        objects.findSome? (·.getOwnProperty (.string name)) = some desc ∧
          desc.isEnumerable = true := by
  have start : Enumerated (fun _ => none) ([], []) := ⟨.nil, by simp, by simp⟩
  have none : ∀ handle ∈ ([] : List ObjectHandle), ∃ longer, Chain heap (some handle) longer ∧
      objects.length < longer.length := by simp
  obtain ⟨after, walked, all⟩ := chain.forInWalk_eq start short none
  refine ⟨after.1, walked, all.distinct, fun name => ?_⟩
  rw [all.listed, Option.none_or, Option.any_eq_true]

/-- The property `x` of the receiver is not enumerable and hides the one that is inherited. -/
theorem mem_forInKeys_iff_hidden :
    let heap := (((new.allocPlain.2.setProperty ⟨0⟩ (.string "x") .null).2.alloc (some ⟨0⟩)).2
      |>.defineProperty ⟨1⟩ (.string "x") (.dataFrozen .null)).2
    ∃ names, heap.forInKeys ⟨1⟩ = .ok names ∧ "x" ∉ names := by
  intro heap
  have chain : Chain heap (some ⟨1⟩) _ := .cons rfl (.cons rfl .nil)
  obtain ⟨names, walked, -, listed⟩ := mem_forInKeys_iff chain (by decide)
  exact ⟨names, walked, by rw [listed]; decide +kernel⟩

end FrankenEngine.Object.ObjectHeap
