import FrankenEngine.Object.Invariants
import FrankenEngine.Object.KeyOrder

/-!
# Proxy invariants

The checks of `ProxyInvariantChecker` on what a trap reports about its target. Who
performs an operation on the target itself and reports that passes all of them.
The converse fails: of a property that is not configurable they compare only the
values of read-only data.
-/

set_option autoImplicit false

namespace FrankenEngine.Object

open Library OrdinaryObject ObjectHeap

def PropertyKey.display : PropertyKey → String
  | .string text => text
  | .symbol symbolId => "Symbol(" ++ symbolId.id.toNat.repr ++ ")"

namespace ProxyInvariantChecker

def refuse (message : String) : Except ObjectError Unit := .error (.typeError message)

/-- Read-only data with another value than that of read-only data. -/
def contradicts : PropertyDescriptor → PropertyDescriptor → Bool
  | .data value writable _ _, .data held heldWritable _ _ =>
    !writable && !heldWritable && !value.sameValue held
  | _, _ => false

variable (target : OrdinaryObject)

variable (key : PropertyKey)

def checkGetOwnProperty (trapResult : Option PropertyDescriptor) : Except ObjectError Unit :=
  match trapResult, target.getOwnProperty key with
  | none, none => .ok ()
  | none, some held =>
    if !held.isConfigurable then
      refuse ("proxy getOwnPropertyDescriptor: cannot report non-configurable property '" ++
        key.display ++ "' as non-existent")
    else if !target.extensible then
      refuse ("proxy getOwnPropertyDescriptor: cannot report existing property '" ++
        key.display ++ "' as non-existent on non-extensible target")
    else .ok ()
  | some desc, held =>
    if held.isNone && !target.extensible then
      refuse ("proxy getOwnPropertyDescriptor: cannot report property '" ++ key.display ++
        "' as existent on non-extensible target")
    else if desc.isConfigurable then .ok ()
    else
      match held.filter (!·.isConfigurable) with
      | some existing =>
        if contradicts desc existing then
          refuse ("proxy getOwnPropertyDescriptor: non-configurable non-writable property '" ++
            key.display ++ "' must have same value")
        else .ok ()
      | none =>
        refuse ("proxy getOwnPropertyDescriptor: cannot return non-configurable descriptor " ++
          "for property '" ++ key.display ++ "' when target property is configurable or absent")

def checkHas (trapResult : Bool) : Except ObjectError Unit :=
  if trapResult then .ok ()
  else if (target.getOwnProperty key).any (!·.isConfigurable) then
    refuse ("proxy has: cannot report non-configurable property '" ++ key.display ++
      "' as non-existent")
  else if !target.extensible && target.hasOwnProperty key then
    refuse ("proxy has: cannot report property '" ++ key.display ++
      "' as non-existent on non-extensible target")
  else .ok ()

def checkGet (trapResult : JsValue) : Except ObjectError Unit :=
  match target.getOwnProperty key with
  | some (.data value false _ false) =>
    if !trapResult.sameValue value then
      refuse ("proxy get: non-configurable non-writable property '" ++ key.display ++
        "' must return same value")
    else .ok ()
  | some (.accessor none _ _ false) =>
    if trapResult ≠ .undefined then
      refuse ("proxy get: non-configurable accessor property '" ++ key.display ++
        "' with undefined getter must return undefined")
    else .ok ()
  | _ => .ok ()

def checkSet (value : JsValue) (trapResult : Bool) : Except ObjectError Unit :=
  if !trapResult then .ok ()
  else
    match target.getOwnProperty key with
    | some (.data current false _ false) =>
      if !value.sameValue current then
        refuse ("proxy set: cannot set non-configurable non-writable property '" ++ key.display ++
          "' to different value")
      else .ok ()
    | some (.accessor _ none _ false) =>
      refuse ("proxy set: cannot set non-configurable accessor property '" ++ key.display ++
        "' with undefined setter")
    | _ => .ok ()

def checkDelete (trapResult : Bool) : Except ObjectError Unit :=
  match target.getOwnProperty key with
  | some held =>
    if !trapResult then .ok ()
    else if !held.isConfigurable then
      refuse ("proxy deleteProperty: cannot delete non-configurable property '" ++ key.display ++
        "'")
    else if !target.extensible then
      refuse ("proxy deleteProperty: cannot report existing property '" ++ key.display ++
        "' as deleted on non-extensible target")
    else .ok ()
  | none => .ok ()

def duplicate? (seen : List PropertyKey) : List PropertyKey → Option PropertyKey
  | [] => none
  | key :: rest => if key ∈ seen then some key else duplicate? (key :: seen) rest

def checkOwnKeys (trapResult : List PropertyKey) : Except ObjectError Unit :=
  match duplicate? [] trapResult with
  | some key => refuse ("proxy ownKeys: duplicate key '" ++ key.display ++ "'")
  | none =>
    match target.properties.entries.find? fun entry =>
        !entry.2.isConfigurable && entry.1 ∉ trapResult with
    | some entry =>
      refuse ("proxy ownKeys: must include non-configurable property '" ++ entry.1.display ++ "'")
    | none =>
      if target.extensible ∨ target.properties.keys ⊆ trapResult ∧
          trapResult ⊆ target.properties.keys then .ok ()
      else refuse "proxy ownKeys: non-extensible target requires exact key set"

def checkGetPrototypeOf (trapResult : Option ObjectHandle) : Except ObjectError Unit :=
  if !target.extensible ∧ trapResult ≠ target.prototype then
    refuse "proxy getPrototypeOf: non-extensible target must return same prototype"
  else .ok ()

def checkSetPrototypeOf (newProto : Option ObjectHandle) (trapResult : Bool) :
    Except ObjectError Unit :=
  if trapResult ∧ !target.extensible ∧ newProto ≠ target.prototype then
    refuse "proxy setPrototypeOf: non-extensible target can only set to current prototype"
  else .ok ()

def checkIsExtensible (trapResult : Bool) : Except ObjectError Unit :=
  if trapResult ≠ target.extensible then
    refuse "proxy isExtensible: must match target extensibility"
  else .ok ()

def checkPreventExtensions (trapResult : Bool) : Except ObjectError Unit :=
  if trapResult && target.extensible then
    refuse "proxy preventExtensions: cannot return true when target is still extensible"
  else .ok ()

def checkDefineOwnProperty (desc : PropertyDescriptor) (trapResult : Bool) :
    Except ObjectError Unit :=
  if !trapResult then .ok ()
  else if !target.hasOwnProperty key && !target.extensible then
    refuse ("proxy defineProperty: cannot add property '" ++ key.display ++
      "' to non-extensible target")
  else if desc.isConfigurable then .ok ()
  else
    match (target.getOwnProperty key).filter (!·.isConfigurable) with
    | some held =>
      if contradicts desc held then
        refuse ("proxy defineProperty: cannot change value of non-configurable non-writable " ++
          "property '" ++ key.display ++ "'")
      else .ok ()
    | none =>
      refuse ("proxy defineProperty: cannot define non-configurable property '" ++ key.display ++
        "' when target property is configurable or absent")

theorem filter_locked {desc : PropertyDescriptor} (locked : desc.isConfigurable = false) :
    (some desc).filter (!·.isConfigurable) = some desc := by
  simp [Option.filter, locked]

section Reported

variable {target : OrdinaryObject} {key : PropertyKey} {current desc : PropertyDescriptor}

theorem not_contradicts (found : target.getOwnProperty key = some current)
    (locked : current.isConfigurable = false)
    (accepted : checkGetOwnProperty target key (some desc) = .ok () ∨
      checkDefineOwnProperty target key desc true = .ok ())
    (fixed : desc.isConfigurable = false) : contradicts desc current = false := by
  have held : target.hasOwnProperty key = true := Option.isSome_iff_exists.mpr ⟨current, found⟩
  cases lies : contradicts desc current with
  | false => rfl
  | true =>
    cases accepted with
    | inl reported =>
      simp [checkGetOwnProperty, found, fixed, filter_locked locked, lies, refuse] at reported
    | inr defined =>
      simp [checkDefineOwnProperty, held, found, fixed, filter_locked locked, lies, refuse] at defined

theorem admits_iff (agrees : desc.isConfigurable = false → contradicts desc current = false) :
    current.admits desc = true ↔ desc.isConfigurable = false ∧
      desc.isEnumerable = current.isEnumerable ∧ desc.isData = current.isData ∧
      (current.isWritable = false → desc.isWritable = false) ∧
      desc.accessors = current.accessors := by
  constructor
  · intro admitted
    have narrows := PropertyDescriptor.narrows_of_admits admitted
    exact ⟨narrows.configurable, narrows.enumerable, narrows.kind, narrows.writable,
      narrows.accessors⟩
  · rintro ⟨fixed, enumerable, kind, readOnly, accessors⟩
    have same := agrees fixed
    unfold PropertyDescriptor.admits
    rw [if_neg (by simp [fixed]), if_neg (by simp [enumerable]), if_neg (by simp [kind])]
    cases current with
    | data value writable =>
      cases desc with
      | data newValue newWritable =>
        cases writable with
        | true => rfl
        | false =>
          obtain rfl : newWritable = false := readOnly rfl
          simp only [contradicts, Bool.not_false, Bool.true_and, Bool.not_eq_false'] at same
          exact beq_iff_eq.mpr (beq_iff_eq.mp same).symm
      | accessor => cases kind
    | accessor get set =>
      cases desc with
      | data => cases kind
      | accessor newGet newSet =>
        cases accessors
        simp

/-- A descriptor that passes a check for a property that is not configurable is compatible with it
exactly if it is not configurable either and agrees in its kind, in being enumerable, in its
accessors and in being read-only. -/
theorem checked_compatible_iff (found : target.getOwnProperty key = some current)
    (locked : current.isConfigurable = false)
    (accepted : checkGetOwnProperty target key (some desc) = .ok () ∨
      checkDefineOwnProperty target key desc true = .ok ()) :
    (target.defineOwnProperty key desc).1 = true ↔ desc.isConfigurable = false ∧
      desc.isEnumerable = current.isEnumerable ∧ desc.isData = current.isData ∧
      (current.isWritable = false → desc.isWritable = false) ∧
      desc.accessors = current.accessors := by
  rw [← admits_iff (not_contradicts found locked accepted), OrdinaryObject.defineOwnProperty,
    show target.properties.get? key = some current from found]
  cases admitted : current.admits desc with
  | true => simp [admitted]
  | false => simp [locked, admitted]

end Reported

def frozenOne : OrdinaryObject :=
  OrdinaryObject.default.insertProperty (.string "x") (.dataFrozen (.int 1))

theorem checked_compatible_iff_frozen :
    (frozenOne.defineOwnProperty (.string "x") (.dataFrozen (.int 1))).1 = true := by
  have found : frozenOne.getOwnProperty (.string "x") = some (.dataFrozen (.int 1)) := by
    decide +kernel
  exact (checked_compatible_iff found rfl (.inl (by decide +kernel))).mpr
    ⟨rfl, rfl, rfl, fun _ => rfl, rfl⟩

/-- A frozen property may be reported, and defined, as writable, configurable and with another
value. -/
theorem checks_accept_thawed :
    frozenOne.getOwnProperty (.string "x") = some (.data (.int 1) false false false) ∧
      checkGetOwnProperty frozenOne (.string "x") (some (.dataOf (.int 2))) = .ok () ∧
      checkDefineOwnProperty frozenOne (.string "x") (.dataOf (.int 2)) true = .ok () ∧
      frozenOne.defineOwnProperty (.string "x") (.dataOf (.int 2)) = (false, frozenOne) := by
  decide +kernel

section Honest

variable (object : OrdinaryObject) (key : PropertyKey) (desc : PropertyDescriptor)

theorem contradicts_self : contradicts desc desc = false := by
  cases desc with
  | data => simp [contradicts, JsValue.sameValue]
  | accessor => rfl

theorem checkGetOwnProperty_honest :
    checkGetOwnProperty object key (object.getOwnProperty key) = .ok () := by
  cases found : object.getOwnProperty key with
  | none => simp [checkGetOwnProperty, found]
  | some held =>
    cases locked : held.isConfigurable with
    | true => simp [checkGetOwnProperty, found, locked]
    | false =>
      simp [checkGetOwnProperty, found, locked, filter_locked locked, contradicts_self]

theorem checkHas_honest : checkHas object key (object.hasOwnProperty key) = .ok () := by
  unfold checkHas hasOwnProperty getOwnProperty
  cases object.properties.get? key with
  | none => simp
  | some held => rfl

def readValue : PropertyDescriptor → JsValue
  | .data value _ _ _ => value
  | .accessor (some getter) _ _ _ => .object getter
  | .accessor none _ _ _ => .undefined

theorem checkGet_honest {desc : PropertyDescriptor}
    (found : object.getOwnProperty key = some desc) :
    checkGet object key (readValue desc) = .ok () := by
  unfold checkGet
  rw [found]
  split
  · next same =>
    cases same
    simp [readValue, JsValue.sameValue]
  · next same =>
    cases same
    simp [readValue]
  · rfl

theorem checkDelete_honest :
    checkDelete (object.delete key).2 key (object.delete key).1 = .ok () := by
  unfold delete
  cases found : object.properties.get? key with
  | none => simp [checkDelete, getOwnProperty, found]
  | some held =>
    cases locked : held.isConfigurable with
    | true => simp [checkDelete, getOwnProperty, locked, OrderedMap.get?_erase]
    | false => simp [checkDelete, getOwnProperty, found, locked]

theorem checkDefineOwnProperty_insert :
    checkDefineOwnProperty (object.insertProperty key desc) key desc true = .ok () := by
  have found : (object.insertProperty key desc).getOwnProperty key = some desc :=
    (object.getOwnProperty_insertProperty key desc key).trans (if_pos rfl)
  have held : (object.insertProperty key desc).hasOwnProperty key = true :=
    Option.isSome_iff_exists.mpr ⟨desc, found⟩
  cases locked : desc.isConfigurable with
  | true => simp [checkDefineOwnProperty, held, locked]
  | false =>
    simp [checkDefineOwnProperty, held, found, locked, filter_locked locked, contradicts_self]

theorem checkDefineOwnProperty_honest :
    checkDefineOwnProperty (object.defineOwnProperty key desc).2 key desc
      (object.defineOwnProperty key desc).1 = .ok () := by
  have refused : ∀ target, checkDefineOwnProperty target key desc false = .ok () := fun _ => rfl
  unfold defineOwnProperty
  split <;> split
  · exact refused object
  · exact checkDefineOwnProperty_insert object key desc
  · exact checkDefineOwnProperty_insert object key desc
  · exact refused object

theorem duplicate?_eq_none {seen keys : List PropertyKey} (distinct : keys.Nodup)
    (fresh : ∀ key ∈ keys, key ∉ seen) : duplicate? seen keys = none := by
  induction keys generalizing seen with
  | nil => rfl
  | cons key rest ih =>
    obtain ⟨first, distinctRest⟩ := List.nodup_cons.mp distinct
    rw [duplicate?, if_neg (fresh key (.head _))]
    refine ih distinctRest fun other member known => ?_
    cases known with
    | head => exact first member
    | tail _ earlier => exact fresh other (.tail _ member) earlier

theorem checkOwnKeys_honest : checkOwnKeys object object.ownPropertyKeys = .ok () := by
  have complete : object.properties.entries.find? (fun entry =>
      !entry.2.isConfigurable && entry.1 ∉ object.ownPropertyKeys) = none := by
    refine List.find?_eq_none.mpr fun entry member => ?_
    have listed : entry.1 ∈ object.ownPropertyKeys :=
      mem_ownPropertyKeys.mpr (List.mem_map_of_mem member)
    simp [listed]
  have exact : object.properties.keys ⊆ object.ownPropertyKeys ∧
      object.ownPropertyKeys ⊆ object.properties.keys :=
    ⟨fun _ => mem_ownPropertyKeys.mpr, fun _ => mem_ownPropertyKeys.mp⟩
  unfold checkOwnKeys
  rw [duplicate?_eq_none nodup_ownPropertyKeys fun _ _ => List.not_mem_nil]
  rw [complete]
  exact if_pos (.inr exact)

end Honest

section OnHeap

variable {heap : ObjectHeap} {handle : ObjectHandle} {object target : OrdinaryObject}

structure Answers {α : Type} (outcome : Except ObjectError α × ObjectHeap) (handle : ObjectHandle)
    (answer : α) (target : OrdinaryObject) : Prop where
  answered : outcome.1 = .ok answer
  held : outcome.2.get handle = .ok (.ordinary target)

variable (found : heap.get handle = .ok (.ordinary object))

include found

theorem Answers.of_modifyOrdinary {α : Type} {onProxy : String} {answer : α}
    {change : OrdinaryObject → α × OrdinaryObject}
    (answers : Answers (heap.modifyOrdinary handle onProxy change) handle answer target) :
    change object = (answer, target) := by
  obtain ⟨answered, held⟩ := answers
  rw [modifyOrdinary, found] at answered held
  cases answered
  cases (get_put_self found).symm.trans held
  rfl

theorem checkPreventExtensions_honest {answer : Bool}
    (answers : Answers (heap.preventExtensions handle) handle answer target) :
    checkPreventExtensions target answer = .ok () := by
  cases answers.of_modifyOrdinary found
  rfl

theorem checkSetPrototypeOf_honest {proto : Option ObjectHandle} {answer : Bool}
    (answers : Answers (heap.setPrototypeOf handle proto) handle answer target) :
    checkSetPrototypeOf target proto answer = .ok () := by
  unfold setPrototypeOf at answers
  split at answers
  · cases answers.answered
  · have written := answers.of_modifyOrdinary found
    unfold writePrototype at written
    split at written
    · cases written
      simp [checkSetPrototypeOf]
    · cases written
      refine if_neg ?_
      rintro ⟨answered, _, other⟩
      exact other (of_decide_eq_true answered).symm

omit found

theorem checkSet_honest {key : PropertyKey} {value : JsValue} {answer : Bool}
    (answers : Answers (heap.setProperty handle key value) handle answer target) :
    checkSet target key value answer = .ok () := by
  obtain ⟨answered, held⟩ := answers
  obtain ⟨refused, same, failed⟩ | ⟨object, writable, enumerable, configurable, found, same⟩ :=
    heap.setProperty_cases handle key value
  · rw [same] at answered
    cases answer with
    | false => rfl
    | true => exact absurd answered failed
  · rw [same] at answered held
    cases answered
    cases (get_put_self found).symm.trans held
    rw [checkSet, getOwnProperty_insertProperty, if_pos rfl]
    cases writable <;> cases configurable <;> simp [JsValue.sameValue]

end OnHeap

/-- Who performs an operation on the target and reports its result passes the check of it. -/
theorem honest_accepted (object : OrdinaryObject) (key : PropertyKey) (desc : PropertyDescriptor) :
    checkDefineOwnProperty (object.defineOwnProperty key desc).2 key desc
        (object.defineOwnProperty key desc).1 = .ok () ∧
      checkDelete (object.delete key).2 key (object.delete key).1 = .ok () ∧
      (∀ held, object.getOwnProperty key = some held →
        checkGet object key (readValue held) = .ok ()) ∧
      checkHas object key (object.hasOwnProperty key) = .ok () ∧
      checkGetOwnProperty object key (object.getOwnProperty key) = .ok () ∧
      checkOwnKeys object object.ownPropertyKeys = .ok () ∧
      ∀ (heap : ObjectHeap) (handle : ObjectHandle), heap.get handle = .ok (.ordinary object) →
        (∀ answer target, Answers (heap.preventExtensions handle) handle answer target →
          checkPreventExtensions target answer = .ok ()) ∧
        (∀ proto answer target, Answers (heap.setPrototypeOf handle proto) handle answer target →
          checkSetPrototypeOf target proto answer = .ok ()) ∧
        (∀ value answer target, Answers (heap.setProperty handle key value) handle answer target →
          checkSet target key value answer = .ok ()) ∧
        (∀ answer, heap.isExtensible handle = .ok answer →
          checkIsExtensible object answer = .ok ()) ∧
        ∀ answer, heap.getPrototypeOf handle = .ok answer →
          checkGetPrototypeOf object answer = .ok () := by
  refine ⟨checkDefineOwnProperty_honest object key desc, checkDelete_honest object key,
    fun held => checkGet_honest object key, checkHas_honest object key,
    checkGetOwnProperty_honest object key, checkOwnKeys_honest object, fun heap handle found => ?_⟩
  refine ⟨fun _ _ => checkPreventExtensions_honest found,
    fun _ _ _ => checkSetPrototypeOf_honest found, fun _ _ _ => checkSet_honest, ?_, ?_⟩
  · intro answer read
    rw [ObjectHeap.isExtensible, ObjectHeap.readOrdinary, found] at read
    cases read
    simp [checkIsExtensible]
  · intro answer read
    rw [ObjectHeap.getPrototypeOf, ObjectHeap.readOrdinary, found] at read
    cases read
    simp [checkGetPrototypeOf]

end ProxyInvariantChecker

end FrankenEngine.Object
