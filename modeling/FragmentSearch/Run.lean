import FragmentSearch.Placement
import FragmentSearch.Sorted

namespace FragmentSearch

structure Run where
  source : Nat
  placements : List Placement
  score : Score
  logicalStart : Nat
  logicalEnd : Nat

def stepFrom? (earlier later : List Nat) : Option Nat := earlier.find? fun block => later.contains (block + 1)

def stepTo? (earlier later : List Nat) : Option Nat :=
  later.find? fun block => 0 < block && earlier.contains (block - 1)

/-- The block of the file at which a row of placements begins: the least block of the first that steps
into the second. -/
def firstBlock : List Placement → Nat
  | [] => 0
  | [only] => only.blocks.headD 0
  | first :: second :: _ => (stepFrom? first.blocks second.blocks).getD (first.blocks.headD 0)

/-- The block at which a row of placements, given in reverse, ends: the least block of the last that
is stepped into. -/
def lastBlock : List Placement → Nat
  | [] => 0
  | [only] => only.blocks.headD 0
  | last :: previous :: _ => (stepTo? previous.blocks last.blocks).getD (last.blocks.headD 0)

namespace Run

def ofPlacements (gapWeight : Float) (source : Nat) (placements : List Placement) : Run :=
  { source
    placements
    score := .total (placements.map (Placement.weight gapWeight))
    logicalStart := firstBlock placements
    logicalEnd := lastBlock placements.reverse }

inductive Malformed where
  | empty

def Malformed.message : Malformed → String
  | .empty => "a run needs at least one triple"

def ofPlacements? (gapWeight : Float) (source : Nat) (placements : List Placement) : Except Malformed Run :=
  if placements.isEmpty then .error .empty else .ok (ofPlacements gapWeight source placements)

def length (run : Run) : Nat := run.placements.length

def isEmpty (run : Run) : Bool := run.placements.isEmpty

def physicalStart (run : Run) : Nat := (run.placements.head?.map (·.sector)).getD 0

def physicalEnd (run : Run) : Nat := (run.placements.getLast?.map (·.sector)).getD 0

def alignment (run : Run) : Nat := FragmentSearch.alignment run.physicalStart

def hasUnique (run : Run) : Bool := run.placements.any Placement.isUnique

def leastCount (run : Run) : Option Nat := (run.placements.filterMap Placement.count).min?

def gapBlocks (run : Run) : Nat := run.placements.countP Placement.isGap

end Run

structure Settings where
  minRun : Nat := 2
  maxCount : Nat := 10
  nullGapWeight : Float := 0.25
  maxGapBlocks : Nat := 1024

def Settings.keeps (settings : Settings) (run : Run) : Bool :=
  max settings.minRun 2 ≤ run.length && run.hasUnique && run.leastCount.any (· ≤ settings.maxCount)

def alignedClasses (placements : List Placement) : List (List Placement) :=
  (List.range sectorsPerBlock).map fun c =>
    sorted Placement.atMost (placements.filter fun placement => alignment placement.sector = c)

def chains (placements : List Placement) : List (List Placement) := placements.splitBy Placement.leadsTo

def chainRuns (gapWeight : Float) (source : Nat) (placements : List Placement) : List Run :=
  (chains placements).map (Run.ofPlacements gapWeight source)

end FragmentSearch
