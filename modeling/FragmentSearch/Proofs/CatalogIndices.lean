import FragmentSearch.Proofs.CatalogEntries

namespace FragmentSearch

open Catalog (addPlace credit)

structure Queries where
  contains : String → Bool
  count : String → Option Nat
  flags : String → Option Flags
  table : String → Option (Std.TreeMap Nat BlockSet)
  blocks : String → Nat → Option (List Nat)
  hashes : Nat → List String
  source : Nat → Source

def Catalog.queries (catalog : Catalog) : Queries where
  contains := catalog.containsHash
  count := catalog.hashCount
  flags := catalog.hashFlags
  table hash := catalog.entries[hash]?.map (·.places)
  blocks := catalog.fileBlocks
  hashes := catalog.hashesOf
  source := catalog.source

theorem Catalog.containsHash_eq_isSome (catalog : Catalog) (hash : String) :
    catalog.containsHash hash = catalog.entries[hash]?.isSome :=
  Std.TreeMap.contains_eq_isSome_getElem?

structure Indices where
  candidates : Candidates
  counts : Std.TreeMap String Nat := ∅
  flags : Std.TreeMap String Flags := ∅
  tables : Std.TreeMap String (Std.TreeMap Nat BlockSet) := ∅
  hashes : Std.TreeMap Nat (Std.TreeSet String) := ∅
  scores : Std.TreeMap Nat Float := ∅
  sources : Std.TreeMap Nat Source := ∅

structure Tally where
  table : Std.TreeMap Nat BlockSet := ∅
  hashes : Std.TreeMap Nat (Std.TreeSet String)
  scores : Std.TreeMap Nat Float

def Tally.add (hash : String) (count : Nat) (tally : Tally) (o : Occurrence) : Tally where
  table := addPlace tally.table o
  hashes := tally.hashes.alter o.source fun set => some ((set.getD ∅).insert hash)
  scores :=
    if 0 < count then tally.scores.alter o.source fun score => some (score.getD 0 + rarity count) else tally.scores

namespace Indices

def tally (indices : Indices) (association : Association) : Tally :=
  (association.occurrences.filter fun o => indices.candidates.contains o.source).foldl
    (Tally.add association.hash association.provenance.count) { hashes := indices.hashes, scores := indices.scores }

def addAssociation (indices : Indices) (association : Association) : Indices :=
  if !association.touches indices.candidates then indices
  else if indices.counts.contains association.hash then indices
  else
    let tally := indices.tally association
    { indices with
      hashes := tally.hashes
      scores := tally.scores
      flags := indices.flags.insert association.hash association.provenance.flags
      tables := indices.tables.insert association.hash tally.table
      counts := indices.counts.insert association.hash association.provenance.count }

def addDescription (localSize : String → Nat) (indices : Indices) (description : Description) : Indices :=
  if !indices.candidates.contains description.source then indices
  else
    let ⟨id, name, size⟩ := description
    { indices with sources := indices.sources.insert id ⟨id, name, size.getD (localSize name)⟩ }

def add (localSize : String → Nat) (indices : Indices) : Record → Indices
  | .association association => indices.addAssociation association
  | .description description => indices.addDescription localSize description

def fileBlocks (indices : Indices) (hash : String) (source : Nat) : Option (List Nat) := do
  let table ← indices.tables[hash]?
  let blocks ← table[source]?
  some blocks.toList

def hashesOf (indices : Indices) (source : Nat) : List String :=
  match indices.hashes[source]? with
  | some hashes => hashes.toList
  | none => []

def queries (indices : Indices) : Queries where
  contains hash := indices.counts.contains hash
  count hash := indices.counts[hash]?
  flags hash := indices.flags[hash]?
  table hash := indices.tables[hash]?
  blocks := indices.fileBlocks
  hashes := indices.hashesOf
  source id := indices.sources[id]?.getD (Source.unnamed id)

end Indices

structure Tally.Mirrors (tally : Tally) (standings : Std.TreeMap Nat Standing) : Prop where
  hashes : ∀ source : Nat, tally.hashes[source]? = standings[source]?.map Standing.hashes
  scores : ∀ source ∈ tally.scores, source ∈ standings

namespace Tally

variable {tally : Tally} {standings : Std.TreeMap Nat Standing} {hash : String} {count : Nat}

theorem table_foldl (occurrences : List Occurrence) (tally : Tally) :
    (occurrences.foldl (Tally.add hash count) tally).table = occurrences.foldl addPlace tally.table := by
  induction occurrences generalizing tally with
  | nil => rfl
  | cons o rest ih => exact ih (tally.add hash count o)

theorem Mirrors.add (mirrors : tally.Mirrors standings) (o : Occurrence) :
    (tally.add hash count o).Mirrors
      (standings.alter o.source fun standing => some ((standing.getD {}).add hash count)) := by
  constructor
  · intro source
    rw [Tally.add, Std.TreeMap.getElem?_alter, Std.TreeMap.getElem?_alter, mirrors.hashes, mirrors.hashes]
    split
    · cases standings[o.source]? <;> rfl
    · rfl
  · intro source member
    rw [Std.TreeMap.mem_iff_isSome_getElem?, Std.TreeMap.getElem?_alter]
    split
    · rfl
    next other =>
      rw [← Std.TreeMap.mem_iff_isSome_getElem?]
      apply mirrors.scores
      rw [Tally.add] at member
      split at member
      · rwa [Std.TreeMap.mem_iff_isSome_getElem?, Std.TreeMap.getElem?_alter, if_neg other,
          ← Std.TreeMap.mem_iff_isSome_getElem?] at member
      · exact member

theorem Mirrors.foldl (mirrors : tally.Mirrors standings) (occurrences : List Occurrence) :
    (occurrences.foldl (Tally.add hash count) tally).Mirrors (credit hash count standings occurrences) := by
  induction occurrences generalizing tally standings with
  | nil => exact mirrors
  | cons o rest ih => exact ih (mirrors.add o)

end Tally

namespace Indices

variable {indices : Indices} {catalog : Catalog}

theorem addAssociation_of_untouched {association : Association}
    (untouched : association.touches indices.candidates = false) : indices.addAssociation association = indices := by
  rw [addAssociation, untouched]
  rfl

theorem addAssociation_of_known {association : Association}
    (known : indices.counts.contains association.hash = true) : indices.addAssociation association = indices := by
  rw [addAssociation, known]
  split <;> rfl

theorem addAssociation_of_new {association : Association} (touched : association.touches indices.candidates = true)
    (new : indices.counts.contains association.hash = false) :
    indices.addAssociation association =
      { indices with
        hashes := (indices.tally association).hashes
        scores := (indices.tally association).scores
        flags := indices.flags.insert association.hash association.provenance.flags
        tables := indices.tables.insert association.hash (indices.tally association).table
        counts := indices.counts.insert association.hash association.provenance.count } := by
  rw [addAssociation, touched, new]
  rfl

/-- Each map holds what the catalog holds of it; a score is one of a source with a standing. -/
structure Mirrors (indices : Indices) (catalog : Catalog) : Prop where
  candidates : indices.candidates = catalog.candidates
  counts : ∀ hash : String, indices.counts[hash]? = catalog.entries[hash]?.map HashEntry.count
  flags : ∀ hash : String, indices.flags[hash]? = catalog.entries[hash]?.map HashEntry.flags
  tables : ∀ hash : String, indices.tables[hash]? = catalog.entries[hash]?.map HashEntry.places
  hashes : ∀ source : Nat, indices.hashes[source]? = catalog.standings[source]?.map Standing.hashes
  scores : ∀ source ∈ indices.scores, source ∈ catalog.standings
  sources : indices.sources = catalog.sources

theorem mirrors_start (candidates : Candidates) : Mirrors { candidates } { candidates } := by
  refine ⟨rfl, ?_, ?_, ?_, ?_, ?_, rfl⟩
  · simp
  · simp
  · simp
  · simp
  · simp

theorem insert_mirrors {α β : Type} {map : Std.TreeMap String α} {entries : Std.TreeMap String β} {f : β → α}
    (h : ∀ hash : String, map[hash]? = entries[hash]?.map f) (key : String) (entry : β) (hash : String) :
    (map.insert key (f entry))[hash]? = (entries.insert key entry)[hash]?.map f := by
  rw [Std.TreeMap.getElem?_insert, Std.TreeMap.getElem?_insert, h]
  split <;> rfl

namespace Mirrors

theorem contains_eq (mirrors : indices.Mirrors catalog) (hash : String) :
    indices.counts.contains hash = catalog.containsHash hash := by
  rw [Catalog.containsHash_eq_isSome, Std.TreeMap.contains_eq_isSome_getElem?, mirrors.counts, Option.isSome_map]

theorem fileBlocks_eq (mirrors : indices.Mirrors catalog) (hash : String) (source : Nat) :
    indices.fileBlocks hash source = catalog.fileBlocks hash source := by
  rw [Catalog.fileBlocks, fileBlocks, mirrors.tables]
  cases catalog.entries[hash]? <;> rfl

theorem hashesOf_eq (mirrors : indices.Mirrors catalog) (source : Nat) :
    indices.hashesOf source = catalog.hashesOf source := by
  rw [Catalog.hashesOf, hashesOf, mirrors.hashes]
  cases catalog.standings[source]? <;> rfl

theorem queries_eq (mirrors : indices.Mirrors catalog) : indices.queries = catalog.queries := by
  have source : (fun id => indices.sources[id]?.getD (Source.unnamed id)) = catalog.source := by
    rw [mirrors.sources]
    rfl
  rw [Catalog.queries, queries, source, funext mirrors.contains_eq, funext mirrors.counts, funext mirrors.flags,
    funext mirrors.tables, funext fun hash => funext (mirrors.fileBlocks_eq hash), funext mirrors.hashesOf_eq]
  rfl

theorem addAssociation (mirrors : indices.Mirrors catalog) (association : Association) :
    (indices.addAssociation association).Mirrors (catalog.addAssociation association) := by
  cases touched : association.touches catalog.candidates with
  | false =>
    rwa [addAssociation_of_untouched (mirrors.candidates ▸ touched), Catalog.addAssociation_of_untouched touched]
  | true =>
    cases known : catalog.containsHash association.hash with
    | true =>
      rwa [addAssociation_of_known ((mirrors.contains_eq _).trans known), Catalog.addAssociation_of_known known]
    | false =>
      have counted := (mirrors.contains_eq association.hash).trans known
      have start : Tally.Mirrors { hashes := indices.hashes, scores := indices.scores } catalog.standings :=
        ⟨mirrors.hashes, mirrors.scores⟩
      have tallied : (indices.tally association).Mirrors (credit association.hash association.provenance.count
          catalog.standings (catalog.relevant association)) := by
        rw [tally, mirrors.candidates]
        exact start.foldl _
      have table : (indices.tally association).table = Catalog.placesOf (catalog.relevant association) := by
        rw [tally, mirrors.candidates]
        exact Tally.table_foldl _ _
      rw [Catalog.addAssociation_of_new touched known, addAssociation_of_new (mirrors.candidates ▸ touched) counted]
      refine ⟨mirrors.candidates, ?_, ?_, ?_, tallied.hashes, tallied.scores, mirrors.sources⟩
      · exact insert_mirrors mirrors.counts _ (catalog.entryOf association)
      · exact insert_mirrors mirrors.flags _ (catalog.entryOf association)
      · rw [table]
        exact insert_mirrors mirrors.tables _ (catalog.entryOf association)

theorem addDescription (mirrors : indices.Mirrors catalog) (localSize : String → Nat) (description : Description) :
    (indices.addDescription localSize description).Mirrors (catalog.addDescription localSize description) := by
  rw [Indices.addDescription, Catalog.addDescription, mirrors.candidates]
  cases catalog.candidates.contains description.source with
  | false => exact mirrors
  | true =>
    have sources := congrArg (·.insert description.source
      ⟨description.source, description.name, description.size.getD (localSize description.name)⟩) mirrors.sources
    exact ⟨rfl, mirrors.counts, mirrors.flags, mirrors.tables, mirrors.hashes, mirrors.scores, sources⟩

theorem add (mirrors : indices.Mirrors catalog) (localSize : String → Nat) (record : Record) :
    (indices.add localSize record).Mirrors (catalog.add localSize record) := by
  cases record with
  | association association => exact mirrors.addAssociation association
  | description description => exact mirrors.addDescription localSize description

end Mirrors

end Indices

end FragmentSearch
