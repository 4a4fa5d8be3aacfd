import FrankenEngine.Library.Digest
import FrankenEngine.Library.OrderedMap

/-!
# The shape-transition algebra

The registry of object shapes of `shape_transition_algebra.rs`. A shape is named
by the first eight bytes of the hash of its layout, and the algebra remembers
the shape that each mutation of a shape has led to.
-/

set_option autoImplicit false

namespace FrankenEngine.Bytecode

open Library

structure PropertyAttributes where
  writable : Bool := true
  enumerable : Bool := true
  configurable : Bool := true
  deriving DecidableEq, Repr

structure PropertyLayoutDescriptor where
  propertyKey : String
  slotIndex : Nat
  attributes : PropertyAttributes
  deriving DecidableEq, Repr

structure ShapeDescriptor where
  shapeId : Nat
  /-- The hash itself; the source keeps its hexadecimal text. -/
  fingerprint : Digest
  prototypeFingerprint : Option String
  propertyLayout : List PropertyLayoutDescriptor
  deriving DecidableEq

inductive TransitionKind where
  | addProperty
  | deleteProperty
  | reconfigureProperty
  | propertyCellWrite
  | prototypeWrite
  deriving DecidableEq, Repr

inductive InvalidatedAssumptionKind where
  | shapeGuard
  | propertyCell
  | propertyDescriptor
  | prototypeChain
  deriving DecidableEq, Repr

structure ShapeTransition where
  fromShapeId : Nat
  toShapeId : Nat
  transitionKind : TransitionKind
  propertyKey : Option String
  propertyLayout : Option PropertyLayoutDescriptor
  prototypeFingerprint : Option String
  /-- Of the receipt only what it lists as invalidated. -/
  invalidatedAssumptions : List InvalidatedAssumptionKind
  deriving DecidableEq, Repr

inductive ShapeMutation where
  | addProperty (key : String) (attributes : PropertyAttributes)
  | deleteProperty (key : String)
  | reconfigureProperty (key : String) (attributes : PropertyAttributes)
  | writePropertyCell (key : String)
  | writePrototype (prototypeFingerprint : Option String)
  deriving DecidableEq, Repr

structure ShapeMutationOutcome where
  shape : ShapeDescriptor
  transition : ShapeTransition

inductive ShapeAlgebraError where
  | unknownShape (shapeId : Nat)
  | propertyAlreadyExists (shapeId : Nat) (key : String)
  | missingProperty (shapeId : Nat) (key : String)
  deriving DecidableEq, Repr

structure ShapeSkeleton where
  prototypeFingerprint : Option String
  propertyLayout : List PropertyLayoutDescriptor
  deriving DecidableEq, Repr

structure TransitionLookupKey where
  fromShapeId : Nat
  mutation : ShapeMutation
  deriving DecidableEq, Repr

structure ShapeTransitionAlgebra where
  rootShapeId : Nat
  shapes : OrderedMap Nat ShapeDescriptor
  shapeIndex : OrderedMap Digest Nat
  /-- The source never overwrites an entry. -/
  transitionTable : List (TransitionLookupKey × ShapeTransition)

section Algebra

-- The hash of a serialized skeleton.
variable (digest : ShapeSkeleton → Digest)

def makeShapeDescriptor (prototypeFingerprint : Option String)
    (propertyLayout : List PropertyLayoutDescriptor) : ShapeDescriptor :=
  let fingerprint := digest { prototypeFingerprint, propertyLayout }
  { shapeId := ofBeBytes (fingerprint.bytes.take 8)
    fingerprint, prototypeFingerprint, propertyLayout }

namespace ShapeTransitionAlgebra

def new : ShapeTransitionAlgebra :=
  let root := makeShapeDescriptor digest none []
  { rootShapeId := root.shapeId
    shapes := OrderedMap.empty.insert root.shapeId root
    shapeIndex := OrderedMap.empty.insert root.fingerprint root.shapeId
    transitionTable := [] }

variable (algebra : ShapeTransitionAlgebra)

def register (descriptor : ShapeDescriptor) : ShapeTransitionAlgebra :=
  { algebra with
    shapeIndex := algebra.shapeIndex.insert descriptor.fingerprint descriptor.shapeId
    shapes := algebra.shapes.insert descriptor.shapeId descriptor }

/-- No result where the source panics, on an index that the registry lacks. -/
def internShape (prototypeFingerprint : Option String)
    (propertyLayout : List PropertyLayoutDescriptor) :
    Option (ShapeDescriptor × ShapeTransitionAlgebra) :=
  let descriptor := makeShapeDescriptor digest prototypeFingerprint propertyLayout
  match algebra.shapeIndex.get? descriptor.fingerprint with
  | some existing => (algebra.shapes.get? existing).map fun shape => (shape, algebra)
  | none => some (descriptor, algebra.register descriptor)

def record (key : TransitionLookupKey) (shape : ShapeDescriptor) (transition : ShapeTransition) :
    Except ShapeAlgebraError ShapeMutationOutcome × ShapeTransitionAlgebra :=
  (.ok { shape, transition },
    { algebra with transitionTable := (key, transition) :: algebra.transitionTable })

/-- The layout without a key, with the slots numbered again. No result where the
source panics, on a retained key without a descriptor. -/
def retainedLayout (layout : List PropertyLayoutDescriptor) (retained : List String) :
    Option (List PropertyLayoutDescriptor) :=
  retained.zipIdx.mapM fun (propertyKey, slotIndex) =>
    (layout.find? (·.propertyKey = propertyKey)).map fun descriptor =>
      { propertyKey, slotIndex, attributes := descriptor.attributes }

def mutate (shapeId : Nat) (base : ShapeDescriptor) (mutation : ShapeMutation) :
    Option (Except ShapeAlgebraError ShapeMutationOutcome × ShapeTransitionAlgebra) :=
  let lookupKey : TransitionLookupKey := { fromShapeId := shapeId, mutation }
  match mutation with
  | .addProperty key attributes =>
    if base.propertyLayout.any (·.propertyKey = key) then
      some (.error (.propertyAlreadyExists shapeId key), algebra)
    else do
      let descriptor : PropertyLayoutDescriptor :=
        { propertyKey := key, slotIndex := base.propertyLayout.length, attributes }
      let (shape, algebra) ← algebra.internShape digest base.prototypeFingerprint
        (base.propertyLayout ++ [descriptor])
      some (algebra.record lookupKey shape
        { fromShapeId := shapeId, toShapeId := shape.shapeId, transitionKind := .addProperty
          propertyKey := some key, propertyLayout := some descriptor
          prototypeFingerprint := base.prototypeFingerprint
          invalidatedAssumptions := [.shapeGuard, .propertyCell] })
  | .deleteProperty key =>
    let retained := (base.propertyLayout.filter (·.propertyKey ≠ key)).map (·.propertyKey)
    if retained.length = base.propertyLayout.length then
      some (.error (.missingProperty shapeId key), algebra)
    else do
      let layout ← retainedLayout base.propertyLayout retained
      let (shape, algebra) ← algebra.internShape digest base.prototypeFingerprint layout
      some (algebra.record lookupKey shape
        { fromShapeId := shapeId, toShapeId := shape.shapeId, transitionKind := .deleteProperty
          propertyKey := some key, propertyLayout := none
          prototypeFingerprint := base.prototypeFingerprint
          invalidatedAssumptions := [.shapeGuard, .propertyCell, .propertyDescriptor] })
  | .reconfigureProperty key attributes =>
    if base.propertyLayout.any (·.propertyKey = key) then do
      let (shape, algebra) ← algebra.internShape digest base.prototypeFingerprint
        (base.propertyLayout.map fun descriptor =>
          if descriptor.propertyKey = key then { descriptor with attributes } else descriptor)
      some (algebra.record lookupKey shape
        { fromShapeId := shapeId, toShapeId := shape.shapeId
          transitionKind := .reconfigureProperty, propertyKey := some key
          propertyLayout := shape.propertyLayout.find? (·.propertyKey = key)
          prototypeFingerprint := base.prototypeFingerprint
          invalidatedAssumptions := [.shapeGuard, .propertyCell, .propertyDescriptor] })
    else some (.error (.missingProperty shapeId key), algebra)
  | .writePropertyCell key =>
    match base.propertyLayout.find? (·.propertyKey = key) with
    | none => some (.error (.missingProperty shapeId key), algebra)
    | some descriptor =>
      some (algebra.record lookupKey base
        { fromShapeId := shapeId, toShapeId := base.shapeId
          transitionKind := .propertyCellWrite, propertyKey := some key
          propertyLayout := some descriptor
          prototypeFingerprint := base.prototypeFingerprint
          invalidatedAssumptions := [.propertyCell] })
  | .writePrototype prototypeFingerprint => do
      let (shape, algebra) ←
        algebra.internShape digest prototypeFingerprint base.propertyLayout
      some (algebra.record lookupKey shape
        { fromShapeId := shapeId, toShapeId := shape.shapeId, transitionKind := .prototypeWrite
          propertyKey := none, propertyLayout := none, prototypeFingerprint
          invalidatedAssumptions :=
            if prototypeFingerprint = base.prototypeFingerprint then []
            else [.shapeGuard, .prototypeChain] })

/-- No result where the source panics. -/
def applyMutation (shapeId : Nat) (mutation : ShapeMutation) :
    Option (Except ShapeAlgebraError ShapeMutationOutcome × ShapeTransitionAlgebra) :=
  match algebra.transitionTable.lookup { fromShapeId := shapeId, mutation } with
  | some existing =>
    match algebra.shapes.get? existing.toShapeId with
    | none => some (.error (.unknownShape existing.toShapeId), algebra)
    | some shape => some (.ok { shape, transition := existing }, algebra)
  | none =>
    match algebra.shapes.get? shapeId with
    | none => some (.error (.unknownShape shapeId), algebra)
    | some base => algebra.mutate digest shapeId base mutation

end ShapeTransitionAlgebra

end Algebra

end FrankenEngine.Bytecode
