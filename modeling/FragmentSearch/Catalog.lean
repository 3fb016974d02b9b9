import Std.Data.TreeMap
import FragmentSearch.Candidates

namespace FragmentSearch

abbrev BlockSet := Std.TreeSet Nat

structure HashEntry where
  count : Nat
  flags : Flags
  places : Std.TreeMap Nat BlockSet

structure Standing where
  hashes : Std.TreeSet String := ∅
  score : Float := 0

structure Catalog where
  candidates : Candidates
  entries : Std.TreeMap String HashEntry := ∅
  standings : Std.TreeMap Nat Standing := ∅
  sources : Std.TreeMap Nat Source := ∅

def rarity (count : Nat) : Float := if count = 0 then 0 else 1 / Decimal.ofNat count

def Standing.add (hash : String) (count : Nat) (standing : Standing) : Standing :=
  { hashes := standing.hashes.insert hash, score := standing.score + rarity count }

namespace Catalog

def relevant (catalog : Catalog) (association : Association) : List Occurrence :=
  association.occurrences.filter fun occurrence => catalog.candidates.contains occurrence.source

def placesOf (occurrences : List Occurrence) : Std.TreeMap Nat BlockSet :=
  occurrences.foldl (fun places o => places.alter o.source fun set => some ((set.getD ∅).insert o.block)) ∅

def credit (hash : String) (count : Nat) (standings : Std.TreeMap Nat Standing) (occurrences : List Occurrence) :
    Std.TreeMap Nat Standing :=
  occurrences.foldl (fun standings o => standings.alter o.source fun s => some ((s.getD {}).add hash count)) standings

def isRepeated (catalog : Catalog) (association : Association) : Bool :=
  !(catalog.relevant association).isEmpty && catalog.entries.contains association.hash

def addAssociation (catalog : Catalog) (association : Association) : Catalog :=
  let occurrences := catalog.relevant association
  if occurrences.isEmpty || catalog.entries.contains association.hash then catalog
  else
    let count := association.provenance.count
    { catalog with
      entries := catalog.entries.insert association.hash ⟨count, association.provenance.flags, placesOf occurrences⟩
      standings := credit association.hash count catalog.standings occurrences }

def addDescription (localSize : String → Nat) (catalog : Catalog) (description : Description) : Catalog :=
  if catalog.candidates.contains description.source then
    let size := description.size.getD (localSize description.name)
    let source : Source := ⟨description.source, description.name, size⟩
    { catalog with sources := catalog.sources.insert description.source source }
  else catalog

def add (localSize : String → Nat) (catalog : Catalog) : Record → Catalog
  | .association association => catalog.addAssociation association
  | .description description => catalog.addDescription localSize description

def load (localSize : String → Nat) (candidates : Candidates) (records : List Record) : Catalog :=
  records.foldl (add localSize) { candidates }

def isEmpty (catalog : Catalog) : Bool := catalog.candidates.isEmpty

def containsHash (catalog : Catalog) (hash : String) : Bool := catalog.entries.contains hash

def hashCount (catalog : Catalog) (hash : String) : Option Nat := catalog.entries[hash]?.map (·.count)

def hashFlags (catalog : Catalog) (hash : String) : Option Flags := catalog.entries[hash]?.map (·.flags)

def fileBlocks (catalog : Catalog) (hash : String) (source : Nat) : Option (List Nat) := do
  let entry ← catalog.entries[hash]?
  let blocks ← entry.places[source]?
  some blocks.toList

def hashesOf (catalog : Catalog) (source : Nat) : List String :=
  match catalog.standings[source]? with
  | some standing => standing.hashes.toList
  | none => []

def source (catalog : Catalog) (id : Nat) : Source := catalog.sources[id]?.getD (Source.unnamed id)

def score (catalog : Catalog) (source : Nat) : Float :=
  match catalog.standings[source]? with
  | some standing => standing.score
  | none => 0

def ranksBefore (catalog : Catalog) (a b : Nat) : Bool :=
  (compare (Decimal.orderKey (catalog.score b)) (Decimal.orderKey (catalog.score a)) |>.then
    (compare (catalog.source a).name (catalog.source b).name) |>.then (compare a b)).isLE

def ranked (catalog : Catalog) : List Nat := sorted catalog.ranksBefore catalog.candidates.toList

def remarks (catalog : Catalog) : Record → List Event
  | .association association =>
    if !catalog.isRepeated association then []
    else [⟨.debug, "Ignoring repeated record for hash " ++ association.hash⟩]
  | .description _ => []

def loadEvents (localSize : String → Nat) (candidates : Candidates) (reading : Reading Record) : List Event :=
  let summary : Event := ⟨.info, "Indexed " ++ toString (load localSize candidates reading.items).entries.size ++
    " hash(es) across " ++ toString candidates.size ++ " candidate source(s)"⟩
  reading.log Record.streamLabel { candidates } (add localSize) remarks ++
    (if reading.fault.isSome then [] else [summary])

end Catalog

end FragmentSearch
