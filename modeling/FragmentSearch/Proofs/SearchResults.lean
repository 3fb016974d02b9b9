import Mathlib.Data.List.SplitBy
import FragmentSearch.Search
import FragmentSearch.Proofs.Joining

namespace FragmentSearch

theorem mem_alignedClasses {placements : List Placement} {p : Placement} :
    p ∈ (alignedClasses placements).flatten ↔ p ∈ placements := by
  simp only [alignedClasses, List.mem_flatten, List.mem_map, List.mem_range]
  constructor
  · rintro ⟨bucket, ⟨c, -, rfl⟩, member⟩
    exact (List.mem_filter.mp (mem_sorted.mp member)).1
  · intro member
    refine ⟨_, ⟨alignment p.sector, alignment_lt p.sector, rfl⟩, ?_⟩
    exact mem_sorted.mpr (List.mem_filter.mpr ⟨member, by simp⟩)

namespace Search

variable {search : Search} {source : Nat} {image : Option Image} {run : Run}

theorem mem_placements {p : Placement} :
    p ∈ search.placements source ↔
      ∃ hash ∈ search.catalog.hashesOf source, ∃ blocks count,
        search.catalog.fileBlocks hash source = some blocks ∧ search.catalog.hashCount hash = some count ∧ 0 < count ∧
        ∃ sector ∈ search.sightings.sectorsOf hash, p = ⟨sector, blocks, .hash count⟩ := by
  simp only [placements, List.mem_flatMap]
  constructor
  · rintro ⟨hash, known, member⟩
    split at member
    · rename_i blocks count hb hc
      obtain ⟨sector, seen, rfl⟩ := List.mem_map.mp member
      exact ⟨hash, known, blocks, count + 1, hb, hc, Nat.succ_pos _, sector, seen, rfl⟩
    · cases member
  · rintro ⟨hash, known, blocks, count, hb, hc, positive, sector, seen, rfl⟩
    obtain ⟨rest, rfl⟩ : ∃ rest, count = rest + 1 := ⟨count - 1, by omega⟩
    refine ⟨hash, known, ?_⟩
    rw [hb, hc]
    exact List.mem_map.mpr ⟨sector, seen, rfl⟩

theorem mem_gather {p : Placement} : p ∈ (search.gather source).flatten ↔ p ∈ search.placements source :=
  mem_alignedClasses

theorem mem_row {bucket row : List Placement} {p : Placement} (gathered : bucket ∈ search.gather source)
    (cut : row ∈ chains bucket) (member : p ∈ row) : p ∈ search.placements source := by
  have inBucket : p ∈ bucket := by
    rw [← List.flatten_splitBy Placement.leadsTo bucket]
    exact List.mem_flatten.mpr ⟨row, cut, member⟩
  exact mem_gather.mp (List.mem_flatten.mpr ⟨bucket, gathered, inBucket⟩)

theorem mem_candidateRuns :
    run ∈ search.candidateRuns source ↔
      ∃ bucket ∈ search.gather source, ∃ row ∈ chains bucket,
        run = .ofPlacements search.settings.nullGapWeight source row := by
  simp only [candidateRuns, chainRuns, List.mem_flatMap, List.mem_map, eq_comm]

theorem find_eq_flatMap (search : Search) (image : Option Image) :
    search.find image = search.catalog.ranked.flatMap fun source =>
      (search.merged image (search.candidateRuns source)).runs.filter search.settings.keeps := by
  simp only [find, findings, finding, List.flatMap_map]

theorem mem_find :
    run ∈ search.find image ↔
      ∃ source ∈ search.catalog.candidates, run ∈ (search.merged image (search.candidateRuns source)).runs ∧
        search.settings.keeps run = true := by
  simp only [find_eq_flatMap, List.mem_flatMap, List.mem_filter, Catalog.ranked, mem_sorted, Std.TreeSet.mem_toList]

theorem forall_merged {P : Run → Prop}
    (step : ∀ image a b joined, P a → P b → (tryJoin search.settings image a b).joined = some joined → P joined)
    {runs : List Run} (h : ∀ run ∈ runs, P run) : ∀ run ∈ (search.merged image runs).runs, P run := by
  cases image with
  | none => exact h
  | some image => exact forall_mergeRuns (step image) h

theorem forall_merged_of_join {P : Run → Prop}
    (join : ∀ a b gap, P a → P b → a.Tiles search.settings.maxGapBlocks b gap →
      P (a.join search.settings.nullGapWeight b gap))
    {runs : List Run} (h : ∀ run ∈ runs, P run) : ∀ run ∈ (search.merged image runs).runs, P run := by
  cases image with
  | none => exact h
  | some image => exact forall_mergeRuns_of_join join h

theorem merged_covers {runs : List Run} (h : run ∈ runs) :
    ∃ whole ∈ (search.merged image runs).runs, run.PartOf whole := by
  cases image with
  | none => exact ⟨run, h, .refl run⟩
  | some image => exact mergeRuns_covers h

structure Grounded (search : Search) (source : Nat) (run : Run) : Prop where
  source_eq : run.source = source
  placed : ∀ p ∈ run.placements, p ∈ search.placements source ∨ ∃ sector block, p = .gap sector block

theorem grounded_candidate (h : run ∈ search.candidateRuns source) : search.Grounded source run := by
  obtain ⟨bucket, gathered, row, cut, rfl⟩ := mem_candidateRuns.mp h
  exact ⟨rfl, fun p member => .inl (mem_row gathered cut member)⟩

theorem Grounded.join {a b joined : Run} {image : Image} (ha : search.Grounded source a)
    (hb : search.Grounded source b) (h : (tryJoin search.settings image a b).joined = some joined) :
    search.Grounded source joined := by
  obtain ⟨gap, -, -, rfl⟩ := tryJoin_joined.mp h
  refine ⟨ha.source_eq, fun p member => ?_⟩
  simp only [Run.join, List.mem_append] at member
  rcases member with (member | member) | member
  · exact ha.placed p member
  · obtain ⟨k, -, rfl⟩ := List.mem_map.mp member
    exact .inr ⟨_, _, rfl⟩
  · exact hb.placed p member

theorem grounded_merged (h : run ∈ (search.merged image (search.candidateRuns source)).runs) :
    search.Grounded source run :=
  forall_merged (fun _ _ _ _ ha hb => ha.join hb) (fun _ => grounded_candidate) run h

theorem grounded_find (h : run ∈ search.find image) :
    run.source ∈ search.catalog.candidates ∧ search.Grounded run.source run := by
  obtain ⟨source, candidate, merged, -⟩ := mem_find.mp h
  have grounded := grounded_merged merged
  have same := grounded.source_eq
  subst same
  exact ⟨candidate, grounded⟩

end Search

theorem least_le_of_mem {counts : List Nat} {count : Nat} (h : count ∈ counts) :
    ∃ least, counts.min? = some least ∧ least ≤ count := by
  obtain ⟨least, hm⟩ := Option.isSome_iff_exists.mp (List.isSome_min?_of_mem h)
  exact ⟨least, hm, (List.min?_eq_some_iff.mp hm).2 count h⟩

theorem Settings.keeps_iff {settings : Settings} {run : Run} :
    settings.keeps run = true ↔
      max settings.minRun 2 ≤ run.placements.length ∧ (∃ p ∈ run.placements, p.evidence = .hash 1) ∧
        ∃ least, run.leastCount = some least ∧ least ≤ settings.maxCount := by
  simp only [keeps, Bool.and_eq_true, decide_eq_true_eq, Option.any_eq_true, and_assoc]
  simp only [Run.length, Run.hasUnique, Placement.isUnique, List.any_eq_true, decide_eq_true_eq]

theorem Settings.keeps_of_partOf {settings : Settings} {part whole : Run} (h : part.PartOf whole)
    (kept : settings.keeps part = true) : settings.keeps whole = true := by
  obtain ⟨longEnough, ⟨p, member, evidence⟩, least, hm, low⟩ := keeps_iff.mp kept
  have counted : least ∈ part.placements.filterMap Placement.count := (List.min?_eq_some_iff.mp hm).1
  obtain ⟨lower, hm', le⟩ := least_le_of_mem ((h.stretch.sublist.filterMap _).subset counted)
  exact keeps_iff.mpr ⟨longEnough.trans h.stretch.length_le, ⟨p, h.stretch.subset member, evidence⟩, lower, hm',
    le.trans low⟩

end FragmentSearch
