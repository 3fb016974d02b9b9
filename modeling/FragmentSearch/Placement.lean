import FragmentSearch.Decimal.Binary
import FragmentSearch.Image

namespace FragmentSearch

inductive Evidence where
  | hash (count : Nat)
  | nullGap
deriving DecidableEq

structure Placement where
  sector : Nat
  blocks : List Nat
  evidence : Evidence
deriving DecidableEq

def stepsInto (earlier later : List Nat) : Bool := earlier.any fun block => later.contains (block + 1)

namespace Placement

def count (placement : Placement) : Option Nat :=
  match placement.evidence with
  | .hash count => some count
  | .nullGap => none

def isUnique (placement : Placement) : Bool := placement.evidence = .hash 1

def isGap (placement : Placement) : Bool := placement.evidence = .nullGap

def gap (sector block : Nat) : Placement := ⟨sector, [block], .nullGap⟩

def leadsTo (last next : Placement) : Bool :=
  last.sector + sectorsPerBlock = next.sector && stepsInto last.blocks next.blocks

def atMost (a b : Placement) : Bool :=
  (compare a.sector b.sector |>.then (compare a.blocks b.blocks) |>.then (compare a.count b.count)).isLE

end Placement

inductive Weight where
  | nothing
  | reciprocal (count : Nat)
  | constant (x : Float)

inductive Score where
  | given (x : Float)
  | total (weights : List Weight)
  | joined (first second : Score) (gap : Nat) (gapWeight : Float)

def Placement.weight (gapWeight : Float) (placement : Placement) : Weight :=
  match placement.evidence with
  | .hash 0 => .nothing
  | .hash count => .reciprocal count
  | .nullGap => .constant gapWeight

def Weight.value : Weight → Float
  | .nothing => 0
  | .reciprocal count => 1 / Decimal.ofNat count
  | .constant x => x

/-- The score as a double, every sum and product rounded in the order in which it is written. -/
def Score.value : Score → Float
  | .given x => x
  | .total weights => weights.foldl (fun sum weight => sum + weight.value) 0
  | .joined first second gap gapWeight => first.value + second.value + Decimal.ofNat gap * gapWeight

end FragmentSearch
