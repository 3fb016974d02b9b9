import FragmentSearch.Catalog

namespace FragmentSearch

/-- Sectors by hash, and the number of different pairs of a hash and a sector. -/
structure Sightings where
  sectors : Std.TreeMap String (Std.TreeSet Nat) := ∅
  size : Nat := 0

namespace Sightings

def sectorSet (sightings : Sightings) (hash : String) : Std.TreeSet Nat := sightings.sectors[hash]?.getD ∅

def insert (sightings : Sightings) (observation : Observation) : Sightings :=
  let seen := sightings.sectorSet observation.hash
  if seen.contains observation.sector then sightings
  else { sectors := sightings.sectors.insert observation.hash (seen.insert observation.sector)
         size := sightings.size + 1 }

def ofList (observations : List Observation) : Sightings := observations.foldl insert {}

def sectorsOf (sightings : Sightings) (hash : String) : List Nat := (sightings.sectorSet hash).toList

def isEmpty (sightings : Sightings) : Bool := sightings.size = 0

end Sightings

namespace Catalog

def known (catalog : Catalog) (observations : List Observation) : List Observation :=
  observations.filter fun observation => catalog.containsHash observation.hash

def agrees (catalog : Catalog) (observation : Observation) : Bool :=
  let countAgrees := match observation.count, catalog.hashCount observation.hash with
    | some seen, some known => seen = known
    | _, _ => true
  let flagsAgree := observation.flags.isEmpty || match catalog.hashFlags observation.hash with
    | some known => known = observation.flags
    | none => true
  countAgrees && flagsAgree

def sightings (catalog : Catalog) (observations : List Observation) : Sightings :=
  Sightings.ofList (catalog.known observations)

def disagreements (catalog : Catalog) (observations : List Observation) : Nat :=
  (catalog.known observations).countP fun observation => !catalog.agrees observation

def disagreement (catalog : Catalog) (observation : Observation) : List Event :=
  if !catalog.containsHash observation.hash || catalog.agrees observation then []
  else [⟨.debug, "Hash " ++ observation.hash ++ " at sector " ++ toString observation.sector ++
    ": observed count " ++ shownOption observation.count ++ " flags '" ++ observation.flags.text ++
    "', catalog count " ++ shownOption (catalog.hashCount observation.hash) ++ " flags '" ++
    ((catalog.hashFlags observation.hash).getD Flags.none).text ++ "'"⟩]

def sightingEvents (catalog : Catalog) (reading : Reading Observation) : List Event :=
  let sightings := catalog.sightings reading.items
  let disagreements := catalog.disagreements reading.items
  let summary : Event := ⟨.info, "Indexed " ++ toString sightings.size ++ " observation(s) of " ++
    toString sightings.sectors.size ++ " distinct hash(es)"⟩
  let warning : Event := ⟨.info, toString disagreements ++
    " observation(s) disagree with the association stream on count or flags"⟩
  reading.log Observation.streamLabel () (fun _ _ => ()) (fun _ => catalog.disagreement) ++
    (if reading.fault.isSome then [] else if disagreements = 0 then [summary] else [summary, warning])

end Catalog

end FragmentSearch
