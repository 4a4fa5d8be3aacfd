import FrankenEngine.Library.Digest

/-!
# Hash tiers

The content hash and the keyed authenticity hash of `hash_tiers.rs`, as
parameters: results that need more than functions say which inputs must not
collide.
-/

set_option autoImplicit false

namespace FrankenEngine

open Library

abbrev ContentHash := Digest

abbrev AuthenticityHash := Digest

structure HashTiers where
  contentHash : Bytes → ContentHash
  computeKeyed : Bytes → Bytes → AuthenticityHash

def HashTiers.CollisionFree (tiers : HashTiers) (inputs : Set Bytes) : Prop :=
  Set.InjOn tiers.contentHash inputs

end FrankenEngine
