import FrankenEngine.Library.OrderedMap
import Mathlib.Data.List.Sort
import Mathlib.Data.String.Basic
import Mathlib.Data.Sum.Order

/-!
# Ordinary objects

Property keys, descriptors and ordinary objects of `object_model.rs`. An
operation that mutates its object returns it beside its own result.
-/

set_option autoImplicit false

namespace FrankenEngine.Object

open Library

structure SymbolId where
  id : UInt32
  deriving DecidableEq, Repr

inductive PropertyKey where
  | string (text : String)
  | symbol (id : SymbolId)
  deriving Repr

def PropertyKey.rank : PropertyKey → String ⊕ₗ Nat
  | .string text => toLex (.inl text)
  | .symbol symbolId => toLex (.inr symbolId.id.toNat)

theorem PropertyKey.rank_injective : Function.Injective PropertyKey.rank := by
  intro left right same
  cases left with
  | string text =>
    cases right with
    | string other => exact congrArg _ (Sum.inl.inj (toLex.injective same))
    | symbol other => cases toLex.injective same
  | symbol symbolId =>
    cases right with
    | string other => cases toLex.injective same
    | symbol other =>
      have ids := UInt32.toNat_inj.mp (Sum.inr.inj (toLex.injective same))
      exact congrArg PropertyKey.symbol (congrArg SymbolId.mk ids)

instance : LinearOrder PropertyKey := LinearOrder.lift' PropertyKey.rank PropertyKey.rank_injective

structure ObjectHandle where
  index : UInt32
  deriving DecidableEq, Repr

inductive JsValue where
  | undefined
  | null
  | bool (value : Bool)
  | int (value : Int64)
  | str (text : String)
  | symbol (id : SymbolId)
  | object (handle : ObjectHandle)
  | function (index : UInt32)
  deriving DecidableEq

def JsValue.sameValue (left right : JsValue) : Bool := left == right

inductive PropertyDescriptor where
  | data (value : JsValue) (writable enumerable configurable : Bool)
  | accessor (get set : Option ObjectHandle) (enumerable configurable : Bool)
  deriving DecidableEq

namespace PropertyDescriptor

def dataOf (value : JsValue) : PropertyDescriptor := .data value true true true

def dataFrozen (value : JsValue) : PropertyDescriptor := .data value false false false

def isConfigurable : PropertyDescriptor → Bool
  | .data _ _ _ configurable => configurable
  | .accessor _ _ _ configurable => configurable

def isEnumerable : PropertyDescriptor → Bool
  | .data _ _ enumerable _ => enumerable
  | .accessor _ _ enumerable _ => enumerable

def isData : PropertyDescriptor → Bool
  | .data .. => true
  | .accessor .. => false

def isAccessor : PropertyDescriptor → Bool
  | .data .. => false
  | .accessor .. => true

def value? : PropertyDescriptor → Option JsValue
  | .data value _ _ _ => some value
  | .accessor .. => none

def isWritable : PropertyDescriptor → Bool
  | .data _ writable _ _ => writable
  | .accessor .. => false

def setNonConfigurable : PropertyDescriptor → PropertyDescriptor
  | .data value writable enumerable _ => .data value writable enumerable false
  | .accessor get set enumerable _ => .accessor get set enumerable false

def setNonWritable : PropertyDescriptor → PropertyDescriptor
  | .data value _ enumerable configurable => .data value false enumerable configurable
  | .accessor get set enumerable configurable => .accessor get set enumerable configurable

/-- The checks of `define_own_property` on a property that is not configurable. -/
def admits (current desc : PropertyDescriptor) : Bool :=
  if desc.isConfigurable then false
  else if desc.isEnumerable ≠ current.isEnumerable then false
  else if current.isData ≠ desc.isData then false
  else
    match current, desc with
    | .data value writable _ _, .data newValue newWritable _ _ =>
      if writable then true
      else if newWritable then false
      else value.sameValue newValue
    | .accessor get set _ _, .accessor newGet newSet _ _ => get = newGet ∧ set = newSet
    | _, _ => true

end PropertyDescriptor

inductive ObjectError where
  | typeError (message : String)
  | objectNotFound (handle : ObjectHandle)
  | proxyRevoked
  | prototypeCycleDetected
  | prototypeChainTooDeep (depth max : Nat)
  deriving DecidableEq

structure OrdinaryObject where
  prototype : Option ObjectHandle
  extensible : Bool
  properties : OrderedMap PropertyKey PropertyDescriptor
  classTag : Option String
  callable : Bool
  constructable : Bool
  deriving DecidableEq

/-- An unsigned 32-bit number as `str::parse` reads it: decimal digits behind an
optional plus sign. -/
def parseU32 (text : String) : Option Nat :=
  let digits :=
    match text.toList with
    | '+' :: rest => rest
    | chars => chars
  if digits = [] ∨ digits.any (!·.isDigit) then none
  else
    let value := digits.foldl (fun value digit => 10 * value + (digit.toNat - '0'.toNat)) 0
    if value < 2 ^ 32 then some value else none

namespace OrdinaryObject

def default : OrdinaryObject where
  prototype := none
  extensible := true
  properties := .empty
  classTag := none
  callable := false
  constructable := false

def withPrototype (proto : Option ObjectHandle) : OrdinaryObject :=
  { default with prototype := proto }

variable (object : OrdinaryObject)

variable (key : PropertyKey)

def getOwnProperty : Option PropertyDescriptor :=
  object.properties.get? key

def hasOwnProperty : Bool :=
  (object.properties.get? key).isSome

def insertProperty (desc : PropertyDescriptor) : OrdinaryObject :=
  { object with properties := object.properties.insert key desc }

def defineOwnProperty (desc : PropertyDescriptor) : Bool × OrdinaryObject :=
  match object.properties.get? key with
  | some current =>
    if current.isConfigurable = false ∧ current.admits desc = false then (false, object)
    else (true, object.insertProperty key desc)
  | none =>
    if object.extensible then (true, object.insertProperty key desc)
    else (false, object)

def delete : Bool × OrdinaryObject :=
  match object.properties.get? key with
  | some desc =>
    if desc.isConfigurable then (true, { object with properties := object.properties.erase key })
    else (false, object)
  | none => (true, object)

/-- Integer keys by their number, then the other strings, then the symbols. -/
def ownPropertyKeys : List PropertyKey :=
  let keys := object.properties.keys
  let intKeys := keys.filterMap fun key =>
    match key with
    | .string text => (parseU32 text).map (·, key)
    | .symbol _ => none
  let strKeys := keys.filter fun key =>
    match key with
    | .string text => (parseU32 text).isNone
    | .symbol _ => false
  let symKeys := keys.filter fun key =>
    match key with
    | .string _ => false
    | .symbol _ => true
  (intKeys.insertionSort (·.1 ≤ ·.1)).map (·.2) ++ strKeys ++ symKeys

def preventExtensions : OrdinaryObject :=
  { object with extensible := false }

def freeze : OrdinaryObject :=
  { object with
    extensible := false
    properties := object.properties.mapValues fun desc => desc.setNonConfigurable.setNonWritable }

def sealObject : OrdinaryObject :=
  { object with
    extensible := false
    properties := object.properties.mapValues (·.setNonConfigurable) }

def isFrozen : Bool :=
  if object.extensible then false
  else
    object.properties.values.all fun desc =>
      if desc.isConfigurable then false
      else
        match desc with
        | .data _ writable _ _ => !writable
        | .accessor .. => true

def writeOwn (value : JsValue) : Bool × OrdinaryObject :=
  match object.properties.get? key with
  | some (.data _ writable enumerable configurable) =>
    (true, object.insertProperty key (.data value writable enumerable configurable))
  | some (.accessor ..) => (false, object)
  | none =>
    if object.extensible then (true, object.insertProperty key (.dataOf value))
    else (false, object)

def writePrototype (proto : Option ObjectHandle) : Bool × OrdinaryObject :=
  if object.extensible then (true, { object with prototype := proto })
  else (object.prototype = proto, object)

/-- The enumerable data properties, as `assign` and `spread_into` collect them. -/
def enumerableValues : List (PropertyKey × JsValue) :=
  object.ownPropertyKeys.filterMap fun key =>
    (object.properties.get? key).bind fun desc =>
      if desc.isEnumerable then desc.value?.map (key, ·) else none

end OrdinaryObject

end FrankenEngine.Object
