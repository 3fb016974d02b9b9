import Std.Data.TreeSet
import FragmentSearch.Decimal.Binary
import FragmentSearch.Image
import FragmentSearch.Record
import FragmentSearch.Stream

namespace FragmentSearch

structure Source where
  id : Nat
  name : String
  size : Nat
deriving DecidableEq

namespace Source

def unnamed (id : Nat) : Source := ⟨id, "source-" ++ toString id, 0⟩

def blocks (source : Source) : Nat := blocksFor source.size

def wholeBlocks (source : Source) : Nat := blockOf source.size

def percent (source : Source) (found : Nat) : Option Float :=
  if source.blocks = 0 then none
  else
    let share := Decimal.ofNat found * 100.0 / Decimal.ofNat source.blocks
    some (if share < 100.0 then share else 100.0)

end Source

abbrev Candidates := Std.TreeSet Nat

structure Policy where
  includeAll : Bool := false
  maxCount : Nat := 1
  allowFlagged : Bool := false

def Policy.qualifies (policy : Policy) (provenance : Provenance) : Bool :=
  policy.includeAll ||
    (0 < provenance.count && provenance.count ≤ policy.maxCount &&
      (policy.allowFlagged || provenance.flags.isEmpty))

namespace Candidates

def qualified (policy : Policy) : Record → List Nat
  | .association association =>
    if policy.qualifies association.provenance then association.occurrences.map (·.source) else []
  | .description _ => []

def add (policy : Policy) (candidates : Candidates) (record : Record) : Candidates :=
  candidates.insertMany (qualified policy record)

def select (policy : Policy) (records : List Record) : Candidates := records.foldl (add policy) ∅

def remarks (policy : Policy) (candidates : Candidates) (record : Record) : List Event :=
  match record with
  | .association association =>
    let newcomers := (qualified policy record).filter fun source => !candidates.contains source
    newcomers.eraseDups.map fun source =>
      ⟨.debug, "Source " ++ toString source ++ " qualified by hash " ++ association.hash⟩
  | .description _ => []

def isQualifying (policy : Policy) : Record → Bool
  | .association association => policy.qualifies association.provenance
  | .description _ => false

def selectionEvents (policy : Policy) (reading : Reading Record) : List Event :=
  let summary : Event := ⟨.info, "Selected " ++ toString (select policy reading.items).size ++
    " candidate source(s) from " ++ toString (reading.items.countP (isQualifying policy)) ++ " qualifying hash(es)"⟩
  reading.log Record.streamLabel ∅ (add policy) (remarks policy) ++ (if reading.fault.isSome then [] else [summary])

end Candidates

end FragmentSearch
