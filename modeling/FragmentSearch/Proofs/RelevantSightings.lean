import FragmentSearch.Proofs.SightedSectors
import FragmentSearch.Proofs.SourceViews

namespace FragmentSearch

theorem Sightings.sectorsOf_sightings_of_unknown {catalog : Catalog} {hash : String}
    (unknown : catalog.containsHash hash = false) (observations : List Observation) :
    (catalog.sightings observations).sectorsOf hash = [] := by
  apply List.eq_nil_iff_forall_not_mem.mpr
  intro sector seen
  rw [Catalog.sightings, mem_sectorsOf_ofList] at seen
  obtain ⟨o, member, rfl, -⟩ := seen
  have known := (List.mem_filter.mp member).2
  rw [unknown] at known
  cases known

theorem Sightings.sectorsOf_sightings_eq (catalog : Catalog) (observations : List Observation) (hash : String) :
    (catalog.sightings observations).sectorsOf hash =
      if catalog.containsHash hash then (ofList observations).sectorsOf hash else [] := by
  cases known : catalog.containsHash hash with
  | true => exact sectorsOf_sightings known observations
  | false => exact sectorsOf_sightings_of_unknown known observations

theorem Catalog.containsHash_of_mem_hashesOf {localSize : String → Nat} {candidates : Candidates}
    {records : List Record} {source : Nat} {hash : String}
    (member : hash ∈ (load localSize candidates records).hashesOf source) :
    (load localSize candidates records).containsHash hash = true := by
  obtain ⟨blocks, placed⟩ := placed_load records source hash member
  exact containsHash_of_fileBlocks placed

namespace Search

theorem find_eq_of_sectorsOf_eq (catalog : Catalog) (settings : Settings) {sightings others : Sightings}
    (same : ∀ source, ∀ hash ∈ catalog.hashesOf source, sightings.sectorsOf hash = others.sectorsOf hash)
    (image : Option Image) :
    ({ catalog, sightings, settings } : Search).find image =
      ({ catalog, sightings := others, settings } : Search).find image := by
  let search : Search := { catalog, sightings, settings }
  let other : Search := { catalog, sightings := others, settings }
  have placed : ∀ source, search.placements source = other.placements source :=
    fun source => placements_congr rfl (fun _ => rfl) (fun _ _ => rfl) (same source)
  have cut : ∀ source, search.candidateRuns source = other.candidateRuns source :=
    fun source => candidateRuns_eq_of_placements_eq (placed source) rfl
  have joined : ∀ runs, search.merged image runs = other.merged image runs := merged_eq_of_settings_eq rfl image
  change search.find image = other.find image
  simp only [find_eq_flatMap, cut, joined]
  rfl

theorem find_relevant (localSize : String → Nat) (candidates : Candidates) (associations observations : Feed) :
    let catalog := Catalog.load localSize candidates associations.records.items
    let relevant := catalog.sightings observations.observations.items
    let all := Sightings.ofList observations.observations.items
    (∀ hash, relevant.sectorsOf hash = if catalog.containsHash hash then all.sectorsOf hash else []) ∧
      ∀ settings image, ({ catalog, sightings := relevant, settings } : Search).find image =
        ({ catalog, sightings := all, settings } : Search).find image := by
  intro catalog relevant all
  refine ⟨Sightings.sectorsOf_sightings_eq catalog _, fun settings image => ?_⟩
  apply find_eq_of_sectorsOf_eq
  intro source hash member
  exact Sightings.sectorsOf_sightings (Catalog.containsHash_of_mem_hashesOf member) _

theorem find_relevant_amid_noise :
    let associations : Feed :=
      ⟨"[\"a\",[1],[[7,0]]]\n[\"b\",[3],[[7,4096]]]\n[\"z\",[1],[[8,0]]]\n".toUTF8.toList, none⟩
    let observations : Feed := ⟨"8192\tz\t1\n512\ta\t1\n4700\tb\t3\n0\tz\t1\n".toUTF8.toList, none⟩
    let catalog := Catalog.load (fun _ => 0) (.ofList [7]) associations.records.items
    let relevant := catalog.sightings observations.observations.items
    let all := Sightings.ofList observations.observations.items
    let found := fun sightings => ({ catalog, sightings, settings := {} } : Search).find none
    relevant.sectorsOf "z" = [] ∧ all.sectorsOf "z" = [0, 16] ∧ relevant.sectorsOf "b" = [9] ∧
      (found all).map (·.length) = [2] ∧ found relevant = found all := by
  intro associations observations catalog relevant all found
  obtain ⟨sectors, same⟩ := find_relevant (fun _ => 0) (.ofList [7]) associations observations
  have noise : relevant.sectorsOf "z" = [] := (sectors "z").trans (by decide +kernel)
  have seen : relevant.sectorsOf "b" = [9] := (sectors "b").trans (by decide +kernel)
  exact ⟨noise, by decide +kernel, seen, by decide +kernel, same {} none⟩

end Search

end FragmentSearch
