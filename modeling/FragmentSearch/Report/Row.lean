import FragmentSearch.Layout
import FragmentSearch.Search
import FragmentSearch.Sorted

namespace FragmentSearch

structure Row where
  file : String
  source : Nat
  score : Float
  physicalStart : Nat
  logicalStart : Nat
  logicalEnd : Nat
  alignment : Nat
  blocksFound : Nat
  gapBlocks : Nat
  percent : Option Float
  occupant : Occupant

def Run.found (lookup : Option LayoutLookup) (run : Run) : Except LayoutFault (Option Occupant) :=
  match lookup with
  | some find => find run.physicalStart
  | none => .ok none

def Run.occupant (lookup : Option LayoutLookup) (run : Run) : Occupant :=
  match run.found lookup with
  | .ok (some occupant) => occupant
  | _ => ⟨none, none⟩

def Run.occupantEvents (lookup : Option LayoutLookup) (run : Run) : List Event :=
  match run.found lookup with
  | .error fault =>
    [⟨.debug, "Layout lookup failed at sector " ++ toString run.physicalStart ++ ": " ++ fault.message⟩]
  | .ok _ => []

namespace Catalog

def row (catalog : Catalog) (lookup : Option LayoutLookup) (run : Run) : Row :=
  let source := catalog.source run.source
  { file := source.name
    source := run.source
    score := run.score.value
    physicalStart := run.physicalStart
    logicalStart := run.logicalStart
    logicalEnd := run.logicalEnd
    alignment := run.alignment
    blocksFound := run.length
    gapBlocks := run.gapBlocks
    percent := source.percent run.length
    occupant := run.occupant lookup }

def rowAtMost (ranked : List Nat) (a b : Row) : Bool :=
  (compare (ranked.idxOf a.source) (ranked.idxOf b.source) |>.then (compare a.source b.source) |>.then
    (compare a.logicalStart b.logicalStart) |>.then (compare a.physicalStart b.physicalStart) |>.then
    (compare a.alignment b.alignment)).isLE

def report (catalog : Catalog) (lookup : Option LayoutLookup) (runs : List Run) : List Row :=
  sorted (rowAtMost catalog.ranked) (runs.map (catalog.row lookup))

end Catalog

structure SetRow where
  file : String
  source : Nat
  score : Float
  normalized : Option Float

namespace Catalog

def setRow (catalog : Catalog) (id : Nat) : SetRow :=
  let source := catalog.source id
  let score := catalog.score id
  let share := score / Decimal.ofNat source.wholeBlocks
  { file := source.name
    source := id
    score
    normalized := if source.wholeBlocks = 0 then none else some (if share < 1.0 then share else 1.0) }

def setRowAtMost (a b : SetRow) : Bool :=
  let key (row : SetRow) : Int := Decimal.orderKey (row.normalized.getD (-1))
  (compare (key b) (key a) |>.then (compare (Decimal.orderKey b.score) (Decimal.orderKey a.score)) |>.then
    (compare a.file b.file)).isLE

def sets (catalog : Catalog) : List SetRow := sorted setRowAtMost (catalog.candidates.toList.map catalog.setRow)

end Catalog

end FragmentSearch
