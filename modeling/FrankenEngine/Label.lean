import Mathlib.Init

/-!
# Information-flow labels

The sensitivity labels of `ifc_artifacts.rs` and the order of their levels.
-/

set_option autoImplicit false

namespace FrankenEngine

inductive Label where
  | publicData
  | internal
  | confidential
  | secret
  | topSecret
  | custom (name : String) (level : UInt32)
  deriving DecidableEq, Repr

namespace Label

def level : Label → Nat
  | .publicData => 0
  | .internal => 1
  | .confidential => 2
  | .secret => 3
  | .topSecret => 4
  | .custom _ level => level.toNat

def canFlowTo (label clearance : Label) : Bool := label.level ≤ clearance.level

/-- The higher of two labels, the first where they are level. -/
def join (left right : Label) : Label := if left.level ≥ right.level then left else right

@[simp] theorem canFlowTo_self (label : Label) : label.canFlowTo label = true := by
  simp [canFlowTo]

end Label

end FrankenEngine
