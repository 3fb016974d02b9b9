import FragmentSearch.Proofs.SearchResults
import FragmentSearch.Proofs.Selection
import FragmentSearch.Proofs.SightedSectors

namespace FragmentSearch

def Standing.credited (source : Nat) (standing : Option Standing) (association : Association) : Option Standing :=
  (association.occurrences.filter (·.source = source)).foldl
    (fun standing _ => some ((standing.getD {}).add association.hash association.provenance.count)) standing

theorem Standing.credited_of_not_names {source : Nat} {association : Association} (h : ¬ association.Names source)
    (standing : Option Standing) : Standing.credited source standing association = standing := by
  have nowhere : association.occurrences.filter (·.source = source) = [] := by
    apply List.filter_eq_nil_iff.mpr
    intro o listed
    rw [decide_eq_true_eq]
    exact fun named => h ⟨o, listed, named⟩
  rw [credited, nowhere]
  rfl

namespace DistinctHashes

variable {records : List Record} {association : Association}

theorem of_concat {record : Record} (h : DistinctHashes (records ++ [record])) : DistinctHashes records := by
  rw [DistinctHashes, associations_append, List.map_append] at h
  exact (List.nodup_append.mp h).1

theorem firstTouching_concat (h : DistinctHashes (records ++ [.association association])) (candidates : Candidates) :
    firstTouching candidates association.hash records = none := by
  have only : associations [.association association] = [association] := rfl
  rw [DistinctHashes, associations_append, List.map_append, only] at h
  apply List.find?_eq_none.mpr
  intro other member
  have apart := (List.nodup_append.mp h).2.2 other.hash (List.mem_map_of_mem member) association.hash (by simp)
  simp [apart]

end DistinctHashes

namespace Catalog

variable {localSize : String → Nat} {candidates others : Candidates} {records : List Record} {source : Nat}

theorem getElem?_credit (hash : String) (count : Nat) (standings : Std.TreeMap Nat Standing)
    (occurrences : List Occurrence) (source : Nat) :
    (credit hash count standings occurrences)[source]? =
      (occurrences.filter (·.source = source)).foldl (fun standing _ => some ((standing.getD {}).add hash count))
        standings[source]? := by
  unfold credit
  induction occurrences generalizing standings with
  | nil => rfl
  | cons o rest ih =>
    rw [List.foldl_cons, ih, Std.TreeMap.getElem?_alter]
    by_cases same : o.source = source
    · subst same
      simp
    · simp [same]

theorem standings_addAssociation {catalog : Catalog} {association : Association}
    (candidate : source ∈ catalog.candidates) (new : catalog.containsHash association.hash = false) :
    (catalog.addAssociation association).standings[source]? =
      Standing.credited source catalog.standings[source]? association := by
  cases touched : association.touches catalog.candidates with
  | false =>
    have unnamed : ¬ association.Names source := fun named => by simp [named.touches candidate] at touched
    rw [addAssociation_of_untouched touched, Standing.credited_of_not_names unnamed]
  | true =>
    have same : (catalog.relevant association).filter (·.source = source) =
        association.occurrences.filter (·.source = source) := by
      rw [relevant, List.filter_filter]
      apply List.filter_congr
      intro o _
      by_cases h : o.source = source
      · simpa [h] using candidate
      · simp [h]
    rw [addAssociation_of_new touched new, getElem?_credit, same]
    rfl

theorem standings_load (candidate : source ∈ candidates) (distinct : DistinctHashes records) :
    (load localSize candidates records).standings[source]? =
      (associations records).foldl (Standing.credited source) none := by
  -- From the end: whether the last hash is new depends on all the records before it.
  induction records using List.reverseRecOn with
  | nil => rfl
  | append_singleton records record ih =>
    have before := ih distinct.of_concat
    rw [load_concat, associations_append, List.foldl_append, ← before]
    cases record with
    | association association =>
      have new : (load localSize candidates records).containsHash association.hash = false := by
        rw [containsHash_load, distinct.firstTouching_concat]
        rfl
      exact standings_addAssociation (by rwa [candidates_load]) new
    | description description =>
      simp only [add, addDescription]
      split <;> rfl

def describedBy (localSize : String → Nat) (source : Nat) (known : Option Source) : Record → Option Source
  | .association _ => known
  | .description description =>
    if description.source = source then
      some ⟨description.source, description.name, description.size.getD (localSize description.name)⟩
    else known

theorem sources_load (candidate : source ∈ candidates) (records : List Record) :
    (load localSize candidates records).sources[source]? = records.foldl (describedBy localSize source) none := by
  induction records using List.reverseRecOn with
  | nil => rfl
  | append_singleton records record ih =>
    rw [load_concat, List.foldl_append, ← ih]
    cases record with
    | association association =>
      simp only [add, addAssociation]
      split <;> rfl
    | description description =>
      simp only [add, addDescription, candidates_load, List.foldl_cons, List.foldl_nil, describedBy]
      by_cases same : description.source = source
      · subst same
        simp [candidate]
      · rw [if_neg same]
        split
        · simp [Std.TreeMap.getElem?_insert, same]
        · rfl

theorem fileBlocks_load_of_distinct (distinct : DistinctHashes records) {hash : String} {blocks : List Nat} :
    (load localSize candidates records).fileBlocks hash source = some blocks ↔
      source ∈ candidates ∧ ∃ association ∈ associations records, association.hash = hash ∧
        association.Lists source blocks := by
  rw [fileBlocks_load_iff]
  constructor
  · rintro ⟨candidate, association, first, lists⟩
    obtain ⟨member, named, -⟩ := firstTouching_some first
    exact ⟨candidate, association, mem_associations.mpr member, named, lists⟩
  · rintro ⟨candidate, association, member, rfl, lists⟩
    exact ⟨candidate, association, distinct.firstTouching_eq member (lists.names.touches candidate), lists⟩

structure SameOn (catalog other : Catalog) (source : Nat) : Prop where
  hashes : catalog.hashesOf source = other.hashesOf source
  blocks : ∀ hash, catalog.fileBlocks hash source = other.fileBlocks hash source
  counts : ∀ hash ∈ catalog.hashesOf source, catalog.hashCount hash = other.hashCount hash
  known : ∀ hash ∈ catalog.hashesOf source, catalog.containsHash hash = true ∧ other.containsHash hash = true
  score : catalog.score source = other.score source
  description : catalog.source source = other.source source

theorem load_sameOn (localSize : String → Nat) (distinct : DistinctHashes records) (candidate : source ∈ candidates)
    (other : source ∈ others) :
    (load localSize candidates records).SameOn (load localSize others records) source := by
  have standings : (load localSize candidates records).standings[source]? =
      (load localSize others records).standings[source]? :=
    (standings_load candidate distinct).trans (standings_load other distinct).symm
  have first : ∀ hash ∈ (load localSize candidates records).hashesOf source, ∃ association,
      firstTouching candidates hash records = some association ∧
        firstTouching others hash records = some association := by
    intro hash member
    obtain ⟨-, association, first, named⟩ := mem_hashesOf_load.mp member
    obtain ⟨recorded, rfl, -⟩ := firstTouching_some first
    exact ⟨association, first, distinct.firstTouching_eq (mem_associations.mpr recorded) (named.touches other)⟩
  refine ⟨?_, ?_, ?_, ?_, ?_, ?_⟩
  · simp only [hashesOf, standings]
  · intro hash
    apply Option.ext
    intro blocks
    rw [fileBlocks_load_of_distinct distinct, fileBlocks_load_of_distinct distinct]
    simp only [candidate, other]
  · intro hash member
    obtain ⟨association, here, there⟩ := first hash member
    rw [hashCount_load, hashCount_load, here, there]
  · intro hash member
    obtain ⟨association, here, there⟩ := first hash member
    rw [containsHash_load, containsHash_load, here, there]
    exact ⟨rfl, rfl⟩
  · simp only [score, standings]
  · rw [Catalog.source, Catalog.source, sources_load candidate, sources_load other]

end Catalog

namespace Search

variable {search other : Search} {source : Nat}

theorem placements_congr (hashes : search.catalog.hashesOf source = other.catalog.hashesOf source)
    (blocks : ∀ hash, search.catalog.fileBlocks hash source = other.catalog.fileBlocks hash source)
    (counts : ∀ hash ∈ search.catalog.hashesOf source, search.catalog.hashCount hash = other.catalog.hashCount hash)
    (sectors : ∀ hash ∈ search.catalog.hashesOf source,
      search.sightings.sectorsOf hash = other.sightings.sectorsOf hash) :
    search.placements source = other.placements source := by
  rw [placements, placements, ← hashes]
  apply List.flatMap_congr
  intro hash member
  rw [blocks hash, counts hash member, sectors hash member]

theorem placements_eq_of_sameOn (same : search.catalog.SameOn other.catalog source)
    (sectors : ∀ hash ∈ search.catalog.hashesOf source,
      search.sightings.sectorsOf hash = other.sightings.sectorsOf hash) :
    search.placements source = other.placements source :=
  placements_congr same.hashes same.blocks same.counts sectors

theorem candidateRuns_eq_of_placements_eq (placed : search.placements source = other.placements source)
    (settings : search.settings = other.settings) : search.candidateRuns source = other.candidateRuns source := by
  rw [candidateRuns, candidateRuns, gather, gather, placed, settings]

theorem merged_eq_of_settings_eq (settings : search.settings = other.settings) (image : Option Image)
    (runs : List Run) : search.merged image runs = other.merged image runs := by
  cases image with
  | none => rfl
  | some image => simp only [merged, settings]

end Search

end FragmentSearch
