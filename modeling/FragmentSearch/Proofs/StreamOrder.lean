import FragmentSearch.Proofs.EvidenceOrigins
import FragmentSearch.Proofs.RelevantSightings

namespace FragmentSearch

def SameSightings (observations others : List Observation) : Prop :=
  ∀ hash sector, (∃ o ∈ observations, o.hash = hash ∧ o.sector = sector) ↔
    ∃ o ∈ others, o.hash = hash ∧ o.sector = sector

theorem sameSightings_iff {observations others : List Observation} :
    SameSightings observations others ↔
      (∀ o ∈ observations, ∃ other ∈ others, other.hash = o.hash ∧ other.sector = o.sector) ∧
        ∀ other ∈ others, ∃ o ∈ observations, o.hash = other.hash ∧ o.sector = other.sector := by
  constructor
  · intro same
    exact ⟨fun o member => (same o.hash o.sector).mp ⟨o, member, rfl, rfl⟩,
      fun other member => (same other.hash other.sector).mpr ⟨other, member, rfl, rfl⟩⟩
  · rintro ⟨there, back⟩ hash sector
    constructor
    · rintro ⟨o, member, rfl, rfl⟩
      exact there o member
    · rintro ⟨other, member, rfl, rfl⟩
      exact back other member

instance (observations others : List Observation) : Decidable (SameSightings observations others) :=
  decidable_of_iff' _ sameSightings_iff

theorem Feed.items_perm {α : Type} {decode : String → Except LineFault (Option α)} {feed other : Feed}
    (perm : other.lines.Perm feed.lines) : (other.read decode).items.Perm (feed.read decode).items := by
  simp only [Reading.items, Feed.read]
  exact (perm.map _).filterMap _

theorem SameSightings.sectorsOf_eq {observations others : List Observation} (same : SameSightings observations others)
    (catalog : Catalog) (hash : String) :
    (catalog.sightings observations).sectorsOf hash = (catalog.sightings others).sectorsOf hash := by
  have all : (Sightings.ofList observations).sectorsOf hash = (Sightings.ofList others).sectorsOf hash := by
    apply Sightings.sectorsOf_eq_of_mem_iff
    intro sector
    rw [Sightings.mem_sectorsOf_ofList, Sightings.mem_sectorsOf_ofList]
    exact same hash sector
  rw [Sightings.sectorsOf_sightings_eq, Sightings.sectorsOf_sightings_eq, all]

section Records

variable {records others : List Record} {candidates equals : Candidates} {hash : String} {association : Association}

theorem mem_associations_of_perm (perm : others.Perm records) :
    association ∈ associations others ↔ association ∈ associations records :=
  (perm.filterMap _).mem_iff

theorem DistinctHashes.of_perm (distinct : DistinctHashes records) (perm : others.Perm records) :
    DistinctHashes others :=
  ((perm.filterMap _).map _).nodup_iff.mpr distinct

theorem Candidates.mem_select_of_perm (policy : Policy) (perm : others.Perm records) {source : Nat} :
    source ∈ select policy others ↔ source ∈ select policy records := by
  simp only [mem_select, mem_associations_of_perm perm]

theorem Candidates.toList_eq_of_mem_iff (same : ∀ source, source ∈ candidates ↔ source ∈ equals) :
    candidates.toList = equals.toList :=
  (Std.TreeSet.Equiv.of_forall_mem_iff same).toList_eq

theorem Association.touches_eq (same : ∀ source, source ∈ equals ↔ source ∈ candidates) (association : Association) :
    association.touches equals = association.touches candidates := by
  apply Bool.eq_iff_iff.mpr
  simp only [touches, List.any_eq_true, Std.TreeSet.contains_iff_mem, same]

theorem DistinctHashes.firstTouching_iff (distinct : DistinctHashes records) :
    firstTouching candidates hash records = some association ↔
      association ∈ associations records ∧ association.hash = hash ∧ association.touches candidates = true := by
  constructor
  · intro first
    obtain ⟨recorded, named, touched⟩ := firstTouching_some first
    exact ⟨mem_associations.mpr recorded, named, touched⟩
  · rintro ⟨member, rfl, touched⟩
    exact distinct.firstTouching_eq member touched

theorem DistinctHashes.firstTouching_eq_of_perm (distinct : DistinctHashes records) (perm : others.Perm records)
    (same : ∀ source, source ∈ equals ↔ source ∈ candidates) (hash : String) :
    firstTouching equals hash others = firstTouching candidates hash records := by
  apply Option.ext
  intro association
  rw [(distinct.of_perm perm).firstTouching_iff, distinct.firstTouching_iff, mem_associations_of_perm perm,
    association.touches_eq same]

namespace Catalog

variable {localSize : String → Nat} {catalog other : Catalog} {source : Nat}

theorem hashesOf_eq_of_mem_iff (same : ∀ hash, hash ∈ catalog.hashesOf source ↔ hash ∈ other.hashesOf source) :
    catalog.hashesOf source = other.hashesOf source := by
  have sets : ∀ catalog : Catalog, catalog.hashesOf source = (hashSet catalog.standings source).toList := by
    intro catalog
    rw [hashesOf, hashSet]
    cases catalog.standings[source]? <;> rfl
  rw [sets, sets]
  apply Std.TreeSet.Equiv.toList_eq
  apply Std.TreeSet.Equiv.of_forall_mem_iff
  intro hash
  rw [← mem_hashesOf, ← mem_hashesOf]
  exact same hash

structure SamePlaces (catalog other : Catalog) : Prop where
  known : ∀ hash, catalog.containsHash hash = other.containsHash hash
  counts : ∀ hash, catalog.hashCount hash = other.hashCount hash
  blocks : ∀ source hash, catalog.fileBlocks hash source = other.fileBlocks hash source
  hashes : ∀ source, catalog.hashesOf source = other.hashesOf source

theorem samePlaces_of_perm (distinct : DistinctHashes records) (perm : others.Perm records)
    (same : ∀ source, source ∈ equals ↔ source ∈ candidates) :
    (load localSize equals others).SamePlaces (load localSize candidates records) := by
  have first := distinct.firstTouching_eq_of_perm perm same
  constructor
  · intro hash
    rw [containsHash_load, containsHash_load, first]
  · intro hash
    rw [hashCount_load, hashCount_load, first]
  · intro source hash
    apply Option.ext
    intro blocks
    rw [fileBlocks_load_iff, fileBlocks_load_iff, first, same]
  · intro source
    apply hashesOf_eq_of_mem_iff
    intro hash
    rw [mem_hashesOf_load, mem_hashesOf_load, first, same]

theorem SamePlaces.sectorsOf_eq (same : catalog.SamePlaces other) (observations : List Observation) (hash : String) :
    (catalog.sightings observations).sectorsOf hash = (other.sightings observations).sectorsOf hash := by
  rw [Sightings.sectorsOf_sightings_eq, Sightings.sectorsOf_sightings_eq, same.known]

end Catalog

end Records

namespace Search

theorem gather_eq_of_samePlaces {search other : Search} (same : search.catalog.SamePlaces other.catalog)
    (sectors : ∀ hash, search.sightings.sectorsOf hash = other.sightings.sectorsOf hash) (source : Nat) :
    search.gather source = other.gather source := by
  rw [gather, gather]
  congr 1
  exact placements_congr (same.hashes source) (same.blocks source) (fun hash _ => same.counts hash)
    fun hash _ => sectors hash

theorem candidateRuns_eq_of_gather_eq {search other : Search} {source : Nat}
    (gathered : search.gather source = other.gather source) (settings : search.settings = other.settings) :
    search.candidateRuns source = other.candidateRuns source := by
  rw [candidateRuns, candidateRuns, gathered, settings]

theorem find_order_irrelevant (localSize : String → Nat) (settings : Settings) :
    (∀ (catalog : Catalog) (observations others : Feed),
        SameSightings observations.observations.items others.observations.items → ∀ image,
          ({ catalog, sightings := catalog.sightings observations.observations.items, settings } : Search).find image =
            ({ catalog, sightings := catalog.sightings others.observations.items, settings } : Search).find image) ∧
      ∀ associations others : Feed, DistinctHashes associations.records.items →
        others.records.items.Perm associations.records.items →
          (∀ policy, (Candidates.select policy others.records.items).toList =
            (Candidates.select policy associations.records.items).toList) ∧
          (∀ policy observations source,
            let search := ofFeeds localSize policy settings associations observations
            let other := ofFeeds localSize policy settings others observations
            other.gather source = search.gather source ∧ other.candidateRuns source = search.candidateRuns source) ∧
          ∀ candidates sightings source,
            let search : Search := ⟨.load localSize candidates associations.records.items, sightings, settings⟩
            let other : Search := ⟨.load localSize candidates others.records.items, sightings, settings⟩
            other.gather source = search.gather source ∧ other.candidateRuns source = search.candidateRuns source := by
  refine ⟨?_, fun associations others distinct perm => ⟨?_, ?_, ?_⟩⟩
  · intro catalog observations others same image
    exact find_eq_of_sectorsOf_eq catalog settings (fun _ hash _ => same.sectorsOf_eq catalog hash) image
  · intro policy
    exact Candidates.toList_eq_of_mem_iff fun _ => Candidates.mem_select_of_perm policy perm
  · intro policy observations source search other
    have same : other.catalog.SamePlaces search.catalog :=
      Catalog.samePlaces_of_perm distinct perm fun _ => Candidates.mem_select_of_perm policy perm
    have gathered := gather_eq_of_samePlaces same (same.sectorsOf_eq _) source
    exact ⟨gathered, candidateRuns_eq_of_gather_eq gathered rfl⟩
  · intro candidates sightings source search other
    have same : other.catalog.SamePlaces search.catalog :=
      Catalog.samePlaces_of_perm distinct perm fun _ => Iff.rfl
    have gathered : other.gather source = search.gather source := gather_eq_of_samePlaces same (fun _ => rfl) source
    exact ⟨gathered, candidateRuns_eq_of_gather_eq gathered rfl⟩

theorem find_order_irrelevant_shuffled :
    let associations : Feed :=
      ⟨"[\"a\",[1],[[7,0]]]\n[\"b\",[3],[[9,0],[7,4096]]]\n[\"c\",[1],[[9,4096]]]\n".toUTF8.toList, none⟩
    let shuffled : Feed :=
      ⟨"[\"c\",[1],[[9,4096]]]\n[\"a\",[1],[[7,0]]]\n[\"b\",[3],[[9,0],[7,4096]]]\n".toUTF8.toList, none⟩
    let observations : Feed := ⟨"0\ta\t1\n4096\tb\t3\n8192\tc\t1\n".toUTF8.toList, none⟩
    let others : Feed := ⟨"4607\tb\t3\n8192\tc\t1\n4096\tb\t9\nnoise\n12\ta\t1\n".toUTF8.toList, none⟩
    let search := fun associations observations => ofFeeds (fun _ => 0) {} {} associations observations
    SameSightings observations.observations.items others.observations.items ∧
      DistinctHashes associations.records.items ∧ shuffled.records.items.Perm associations.records.items ∧
      ((search associations observations).find none).map (fun run => (run.source, run.length)) = [(7, 2), (9, 2)] ∧
      (search associations observations).find none = (search associations others).find none ∧
      (Candidates.select {} shuffled.records.items).toList = (Candidates.select {} associations.records.items).toList ∧
      (search shuffled observations).candidateRuns 7 = (search associations observations).candidateRuns 7 := by
  intro associations shuffled observations others search
  have same : SameSightings observations.observations.items others.observations.items := by decide +kernel
  have distinct : DistinctHashes associations.records.items := by unfold DistinctHashes; decide +kernel
  have lines : shuffled.lines.Perm associations.lines := by decide +kernel
  have perm : shuffled.records.items.Perm associations.records.items := Feed.items_perm lines
  obtain ⟨repeated, reordered⟩ := find_order_irrelevant (fun _ => 0) {}
  obtain ⟨selected, gathered, -⟩ := reordered associations shuffled distinct perm
  refine ⟨same, distinct, perm, by decide +kernel, ?_, selected {}, (gathered {} observations 7).2⟩
  exact repeated (search associations observations).catalog observations others same none

end Search

end FragmentSearch
