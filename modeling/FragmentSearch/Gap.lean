import FragmentSearch.Image
import FragmentSearch.Fault
import FragmentSearch.Run
import FragmentSearch.Sorted

namespace FragmentSearch

/-- Number of whole blocks strictly between two runs that tile one fragment and are not too far
apart. -/
def gapBetween (maxGap : Nat) (a b : Run) : Option Nat :=
  if a.isEmpty || b.isEmpty || a.source ≠ b.source || a.alignment ≠ b.alignment then none
  else if b.physicalStart ≤ a.physicalEnd || b.logicalStart ≤ a.logicalStart then none
  else if (b.logicalStart - a.logicalStart) * sectorsPerBlock ≠ b.physicalStart - a.physicalStart then none
  else
    let gap := (b.physicalStart - a.physicalEnd) / sectorsPerBlock - 1
    if a.logicalEnd + (gap + 1) ≠ b.logicalStart || maxGap < gap then none else some gap

inductive Obstacle where
  | notNull (sector : Nat)
  | unreadable (fault : ReadFault)

def Obstacle.event : Obstacle → Event
  | .notNull sector => ⟨.debug, "Gap block at sector " ++ toString sector ++ " is not null; runs stay separate"⟩
  | .unreadable fault => ⟨.warn, "Gap verification read failed, runs stay separate: " ++ fault.message⟩

structure GapCheck where
  reads : List Nat
  obstacle : Option Obstacle

def checkGap (image : Image) (sector : Nat) : Nat → GapCheck
  | 0 => ⟨[], none⟩
  | blocks + 1 =>
    match image.blockIsNull sector with
    | .ok true =>
      let rest := checkGap image (sector + sectorsPerBlock) blocks
      ⟨sector :: rest.reads, rest.obstacle⟩
    | .ok false => ⟨[sector], some (.notNull sector)⟩
    | .error fault => ⟨[sector], some (.unreadable fault)⟩

namespace Run

def gapAfter (run : Run) (blocks : Nat) : List Placement :=
  (List.range' 1 blocks).map fun k => .gap (run.physicalEnd + k * sectorsPerBlock) (run.logicalEnd + k)

def join (gapWeight : Float) (a b : Run) (gap : Nat) : Run :=
  { source := a.source
    placements := a.placements ++ a.gapAfter gap ++ b.placements
    score := .joined a.score b.score gap gapWeight
    logicalStart := a.logicalStart
    logicalEnd := b.logicalEnd }

def atMost (a b : Run) : Bool :=
  (compare a.source b.source |>.then (compare a.alignment b.alignment) |>.then
    (compare a.physicalStart b.physicalStart)).isLE

end Run

structure Attempt where
  reads : List Nat
  events : List Event
  joined : Option Run

def tryJoin (settings : Settings) (image : Image) (a b : Run) : Attempt :=
  match gapBetween settings.maxGapBlocks a b with
  | none => ⟨[], [], none⟩
  | some gap =>
    let check := checkGap image (a.physicalEnd + sectorsPerBlock) gap
    match check.obstacle with
    | some obstacle => ⟨check.reads, [obstacle.event], none⟩
    | none =>
      let message := "Merged runs at sectors " ++ toString a.physicalStart ++ " and " ++ toString b.physicalStart ++
        " across " ++ toString gap ++ " null block(s)"
      ⟨check.reads, [⟨.debug, message⟩], some (a.join settings.nullGapWeight b gap)⟩

structure Merge where
  runs : List Run
  attempts : List Attempt

def mergeFrom (attempt : Run → Run → Attempt) (previous : Run) : List Run → Merge
  | [] => ⟨[previous], []⟩
  | run :: rest =>
    let tried := attempt previous run
    match tried.joined with
    | some joined =>
      let merge := mergeFrom attempt joined rest
      ⟨merge.runs, tried :: merge.attempts⟩
    | none =>
      let merge := mergeFrom attempt run rest
      ⟨previous :: merge.runs, tried :: merge.attempts⟩

def mergeRuns (settings : Settings) (image : Image) (runs : List Run) : Merge :=
  match sorted Run.atMost runs with
  | [] => ⟨[], []⟩
  | first :: rest => mergeFrom (tryJoin settings image) first rest

def Merge.reads (merge : Merge) : List Nat := merge.attempts.flatMap (·.reads)

end FragmentSearch
