import FragmentSearch.Proofs.CatalogEntries
import FragmentSearch.Proofs.SearchResults
import FragmentSearch.Proofs.SightedSectors

namespace FragmentSearch

theorem Feed.mem_items {α : Type} {decode : String → Except LineFault (Option α)} {feed : Feed} {value : α} :
    value ∈ (feed.read decode).items ↔ ∃ line ∈ feed.lines, Entry.ofLine decode line = .item value := by
  simp only [Reading.items, Feed.read, List.filterMap_map, List.mem_filterMap, Function.comp_apply]
  constructor
  · rintro ⟨line, member, carried⟩
    refine ⟨line, member, ?_⟩
    cases entry : Entry.ofLine decode line with
    | item other =>
      rw [entry] at carried
      cases carried
      rfl
    | blank => simp [entry, Entry.item?] at carried
    | malformed fault => simp [entry, Entry.item?] at carried
  · rintro ⟨line, member, carried⟩
    exact ⟨line, member, by rw [carried]; rfl⟩

namespace Search

def ofFeeds (localSize : String → Nat) (policy : Policy) (settings : Settings) (associations observations : Feed) :
    Search :=
  let records := associations.records.items
  let catalog := Catalog.load localSize (Candidates.select policy records) records
  { catalog, sightings := catalog.sightings observations.observations.items, settings }

variable {search : Search} {source : Nat} {image : Option Image} {run : Run}

theorem mem_placements_of_find (h : run ∈ search.find image) {p : Placement} (member : p ∈ run.placements)
    {count : Nat} (hc : p.evidence = .hash count) : p ∈ search.placements run.source := by
  rcases (grounded_find h).2.placed p member with sighted | ⟨sector, block, rfl⟩
  · exact sighted
  · cases hc

theorem sighted_of_load {localSize : String → Nat} {candidates : Candidates} {records : List Record}
    {observations : List Observation} (catalog : search.catalog = .load localSize candidates records)
    (sightings : search.sightings = search.catalog.sightings observations) {p : Placement}
    (h : p ∈ search.placements source) :
    ∃ observation ∈ observations, ∃ association, .association association ∈ records ∧
      observation.hash = association.hash ∧ observation.sector = p.sector ∧
      p.evidence = .hash association.provenance.count ∧ 1 ≤ association.provenance.count ∧
      association.Lists source p.blocks := by
  obtain ⟨hash, -, blocks, count, hb, hc, positive, sector, seen, rfl⟩ := mem_placements.mp h
  rw [catalog] at hb hc
  obtain ⟨association, record, named, known, -, lists⟩ := Catalog.fileBlocks_load hb
  rw [hc] at known
  cases known
  rw [sightings, Catalog.sightings, Sightings.mem_sectorsOf_ofList] at seen
  obtain ⟨observation, relevant, sameHash, sameSector⟩ := seen
  refine ⟨observation, (List.mem_filter.mp relevant).1, association, record, ?_, sameSector, rfl, positive, lists⟩
  rw [sameHash, named]

theorem find_evidence (localSize : String → Nat) (policy : Policy) (settings : Settings)
    (associations observations : Feed) (image : Option Image) {run : Run}
    (found : run ∈ (ofFeeds localSize policy settings associations observations).find image)
    {p : Placement} (member : p ∈ run.placements) {count : Nat} (evidence : p.evidence = .hash count) :
    run.source ∈ Candidates.select policy associations.records.items ∧
      ∃ observation association,
        (∃ line ∈ observations.lines, Entry.ofLine Observation.read? line = .item observation) ∧
        (∃ line ∈ associations.lines, Entry.ofLine Record.read? line = .item (.association association)) ∧
        observation.hash = association.hash ∧ observation.offset / sectorSize = p.sector ∧
        association.provenance.count = count ∧ 1 ≤ count ∧ association.Lists run.source p.blocks := by
  have sighted := mem_placements_of_find found member evidence
  obtain ⟨observation, observed, association, recorded, sameHash, sameSector, counted, positive, lists⟩ :=
    sighted_of_load rfl rfl sighted
  have candidate := (grounded_find found).1
  rw [ofFeeds, Catalog.candidates_load] at candidate
  rw [evidence] at counted
  cases counted
  exact ⟨candidate, observation, association, Feed.mem_items.mp observed, Feed.mem_items.mp recorded, sameHash,
    sameSector, rfl, positive, lists⟩

theorem find_evidence_shared_block :
    let associations : Feed :=
      ⟨"[\"a\",[1],[[7,0]]]\n[\"b\",[3,\"W\"],[[7,40960],[9,0],[7,4100]]]\n".toUTF8.toList, none⟩
    let observations : Feed := ⟨"512\ta\t1\nnoise\n4700\tb\t3W".toUTF8.toList, none⟩
    ∃ run ∈ (ofFeeds (fun _ => 0) {} {} associations observations).find none,
      ∃ p ∈ run.placements, p = ⟨9, [1, 10], .hash 3⟩ ∧
        run.source ∈ Candidates.select {} associations.records.items ∧
        ∃ observation association,
          (∃ line ∈ observations.lines, Entry.ofLine Observation.read? line = .item observation) ∧
          (∃ line ∈ associations.lines, Entry.ofLine Record.read? line = .item (.association association)) ∧
          observation.hash = association.hash ∧ observation.offset / sectorSize = p.sector ∧
          association.provenance.count = 3 ∧ 1 ≤ 3 ∧ association.Lists run.source p.blocks := by
  intro associations observations
  have result : ((ofFeeds (fun _ => 0) {} {} associations observations).find none).map (·.placements) =
      [[⟨1, [0], .hash 1⟩, ⟨9, [1, 10], .hash 3⟩]] := by decide +kernel
  obtain ⟨run, found, placements⟩ := List.mem_map.mp (result ▸ List.mem_cons_self)
  have member : (⟨9, [1, 10], .hash 3⟩ : Placement) ∈ run.placements := by rw [placements]; decide
  exact ⟨run, found, _, member, rfl, find_evidence _ _ _ _ _ _ found member rfl⟩

end Search

end FragmentSearch
