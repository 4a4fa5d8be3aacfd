import FrankenEngine.Library.Digest
import Mathlib.Data.Finset.Sort

/-!
# Invertible Bloom lookup tables

The sketch of `anti_entropy.rs`: insertion, subtraction and peeling of a table
of cells, and the exact set difference that peeling is meant to recover. A
`BTreeSet` of hashes is a finite set, read in ascending order.
-/

set_option autoImplicit false

namespace FrankenEngine.Reconcile

open Library

inductive ReconcileError where
  | ibltSizeMismatch (localCells remoteCells : Nat)
  | peelFailed (remainingCells : Nat)
  deriving DecidableEq, Repr

structure IbltCell where
  count : Int
  keyHashXor : Digest
  checksumXor : UInt32
  deriving DecidableEq

namespace IbltCell

def empty : IbltCell := { count := 0, keyHashXor := .zero, checksumXor := 0 }

def isZero (cell : IbltCell) : Bool :=
  cell.count == 0 && cell.keyHashXor == .zero && cell.checksumXor == 0

/-- The update that insertion, removal and peeling make to a cell of the key. -/
def touch (count : Int) (keyHash : Digest) (checksum : UInt32) (cell : IbltCell) : IbltCell :=
  { count := cell.count + count
    keyHashXor := cell.keyHashXor.xor keyHash
    checksumXor := cell.checksumXor ^^^ checksum }

def subtract (cell other : IbltCell) : IbltCell :=
  { count := cell.count - other.count
    keyHashXor := cell.keyHashXor.xor other.keyHashXor
    checksumXor := cell.checksumXor ^^^ other.checksumXor }

end IbltCell

/-- The exclusive or of the eight little-endian words of the key. -/
def computeChecksum (key : Digest) : UInt32 :=
  (List.range 8).foldl (fun csum chunk => csum ^^^ key.wordAt (4 * chunk)) 0

def hashToIndex (key : Digest) (hashIdx numCells : Nat) : Nat :=
  let offset := hashIdx * 4 % 32
  let raw := key.wordAt offset
  let mixed := (raw + UInt32.ofNat hashIdx) * 0x9E3779B9
  mixed.toNat % numCells

structure Iblt where
  cells : List IbltCell
  numHashes : Nat
  deriving DecidableEq

namespace Iblt

def new (numCells numHashes : Nat) : Iblt :=
  { cells := List.replicate numCells .empty, numHashes := numHashes }

/-- One pass over the hash functions, with `count` added at each cell of the key. -/
def touchCells (count : Int) (keyHash : Digest) (iblt : Iblt) : Iblt :=
  { iblt with
    cells := (List.range iblt.numHashes).foldl
      (fun cells hashIdx => cells.modify (hashToIndex keyHash hashIdx iblt.cells.length)
        (IbltCell.touch count keyHash (computeChecksum keyHash)))
      iblt.cells }

def insert (iblt : Iblt) (keyHash : Digest) : Iblt := iblt.touchCells 1 keyHash

def remove (iblt : Iblt) (keyHash : Digest) : Iblt := iblt.touchCells (-1) keyHash

def subtract (iblt other : Iblt) : Except ReconcileError Iblt :=
  if iblt.cells.length ≠ other.cells.length ∨ iblt.numHashes ≠ other.numHashes then
    .error (.ibltSizeMismatch iblt.cells.length other.cells.length)
  else .ok { iblt with cells := List.zipWith IbltCell.subtract iblt.cells other.cells }

def build (numCells numHashes : Nat) (objectHashes : Finset Digest) : Iblt :=
  (objectHashes.sort (· ≤ ·)).foldl insert (new numCells numHashes)

structure PeelState where
  work : Iblt
  positive : List Digest
  negative : List Digest
  changed : Bool
  deriving DecidableEq

/-- The body of the scan: a cell of count one or minus one whose checksum
matches gives up its key. -/
def peelCell (state : PeelState) (i : Nat) : PeelState :=
  let cell := state.work.cells.getD i .empty
  let key := cell.keyHashXor
  if (cell.count = 1 ∨ cell.count = -1) ∧ computeChecksum key = cell.checksumXor then
    { work := state.work.touchCells (-cell.count) key
      positive := if cell.count = 1 then state.positive ++ [key] else state.positive
      negative := if cell.count = 1 then state.negative else state.negative ++ [key]
      changed := true }
  else state

def peelPass (state : PeelState) : PeelState :=
  (List.range state.work.cells.length).foldl peelCell { state with changed := false }

/-- The `while changed` loop, cut off after `passes` passes over the cells: a
key read from a cell it does not belong to can leave that cell as it is, and
then the loop of the source does not end. -/
def peelLoop : Nat → PeelState → Option PeelState
  | 0, _ => none
  | passes + 1, state =>
    if (peelPass state).changed then peelLoop passes (peelPass state)
    else some (peelPass state)

def sorted (keys : List Digest) : List Digest := keys.insertionSort (· ≤ ·)

def peelOutcome (state : PeelState) : Except ReconcileError (List Digest × List Digest) :=
  if state.work.cells.all IbltCell.isZero then .ok (sorted state.positive, sorted state.negative)
  else .error (.peelFailed (state.work.cells.countP fun cell => !cell.isZero))

def peelWithin (passes : Nat) (iblt : Iblt) :
    Option (Except ReconcileError (List Digest × List Digest)) :=
  (peelLoop passes { work := iblt, positive := [], negative := [], changed := true }).map peelOutcome

def PeelReturns (iblt : Iblt) (outcome : Except ReconcileError (List Digest × List Digest)) : Prop :=
  ∃ passes, iblt.peelWithin passes = some outcome

end Iblt

def exactDifference (ours theirs : Finset Digest) : List Digest × List Digest :=
  ((ours \ theirs).sort (· ≤ ·), (theirs \ ours).sort (· ≤ ·))

end FrankenEngine.Reconcile
