import FragmentSearch.Proofs.GapReads
import FragmentSearch.Proofs.RunOrder
import FragmentSearch.Proofs.RunStructure

namespace FragmentSearch

theorem Run.Parted.gap_pos {placements : List Placement} {a b : Run} {maxGap gap : Nat}
    (parted : Run.Parted placements a b) (ha : a.Linked) (hb : b.Linked) (tiles : a.Tiles maxGap b gap) : 0 < gap := by
  obtain ⟨last, hl, endBlock⟩ := ha.end_mem
  obtain ⟨first, hf, startBlock⟩ := hb.start_mem
  apply Nat.pos_of_ne_zero
  rintro rfl
  -- with no block between them the last placement of one run would lead to the first of the other
  have next : last.Adjoins first := by
    have distance := tiles.start_eq ha.aligned
    rw [physicalStart_eq hf, physicalEnd_eq hl] at distance
    simp only [Placement.Adjoins, distance, Nat.zero_add, Nat.one_mul]
  have onward : a.logicalEnd + 1 ∈ first.blocks := tiles.adjoins ▸ startBlock
  have linked := Placement.leadsTo_of_mem a.logicalEnd next endBlock onward
  rw [parted.unlinked last first hl hf] at linked
  cases linked

namespace Search

variable {search : Search} {source : Nat} {image : Image}

theorem find_image_covers (search : Search) (image : Image) {run : Run} (h : run ∈ search.find none) :
    ∃ whole ∈ search.find (some image), whole.source = run.source ∧ run.placements <:+: whole.placements := by
  obtain ⟨source, candidate, member, kept⟩ := mem_find.mp h
  obtain ⟨whole, merged, part⟩ : ∃ whole ∈ (search.merged (some image) (search.candidateRuns source)).runs,
      run.PartOf whole := merged_covers member
  refine ⟨whole, ?_, part.source_eq.symm, part.stretch⟩
  exact mem_find.mpr ⟨source, candidate, merged, Settings.keeps_of_partOf part kept⟩

theorem find_image_covers_unreadable :
    let records : List Record := [.association ⟨"a", ⟨1, none⟩, [⟨1, 0⟩]⟩, .association ⟨"b", ⟨2, none⟩, [⟨1, 4096⟩]⟩,
      .association ⟨"d", ⟨1, none⟩, [⟨1, 12288⟩]⟩, .association ⟨"f", ⟨1, none⟩, [⟨1, 20480⟩]⟩,
      .association ⟨"g", ⟨1, none⟩, [⟨1, 24576⟩]⟩]
    let observations : List Observation := [⟨0, "a", none, .none⟩, ⟨4096, "b", none, .none⟩, ⟨12288, "d", none, .none⟩,
      ⟨20480, "f", none, .none⟩, ⟨24576, "g", none, .none⟩]
    let catalog := Catalog.load (fun _ => 0) (Candidates.select {} records) records
    let search : Search := { catalog, sightings := catalog.sightings observations, settings := {} }
    let image := Image.ofBytes 16384 fun _ => 0
    (search.find none).map (·.length) = [2, 2] ∧ (search.find (some image)).map (·.length) = [4, 2] ∧
      ∃ run ∈ search.find none, run.placements = [⟨0, [0], .hash 1⟩, ⟨8, [1], .hash 2⟩] ∧
        ∃ whole ∈ search.find (some image), whole.source = run.source ∧ run.placements <:+: whole.placements := by
  intro records observations catalog search image
  have result : (search.find none).map (·.placements) =
      [[⟨0, [0], .hash 1⟩, ⟨8, [1], .hash 2⟩], [⟨40, [5], .hash 1⟩, ⟨48, [6], .hash 1⟩]] := by decide +kernel
  obtain ⟨run, found, placements⟩ := List.mem_map.mp (result ▸ List.mem_cons_self)
  exact ⟨by decide +kernel, by decide +kernel, run, found, placements, find_image_covers search image found⟩

theorem gap_pos_candidates (placed : ∀ p ∈ search.placements source, p.blocks ≠ []) :
    (search.candidateRuns source).IsChain fun a b => ∀ maxGap gap, a.Tiles maxGap b gap → 0 < gap := by
  apply (candidateRuns_parted search source).imp_of_mem_imp
  intro a b ha hb parted maxGap gap tiles
  exact (parted tiles.alignment_eq).gap_pos (linked_candidate placed ha) (linked_candidate placed hb) tiles

theorem merged_runs_eq_self (placed : ∀ p ∈ search.placements source, p.blocks ≠ [])
    (nothing : ∀ sector, image.blockIsNull sector ≠ .ok true) :
    (search.merged (some image) (search.candidateRuns source)).runs = search.candidateRuns source := by
  have apart : (search.candidateRuns source).IsChain fun a b => (tryJoin search.settings image a b).joined = none := by
    apply (gap_pos_candidates placed).imp
    intro a b positive
    apply Option.eq_none_iff_forall_not_mem.mpr
    intro joined taken
    obtain ⟨gap, tiles, null, -⟩ := tryJoin_reads_of_joined taken
    exact nothing _ (null 0 (positive _ gap tiles))
  rw [merged_candidateRuns]
  cases hc : search.candidateRuns source with
  | nil => rfl
  | cons first rest => exact mergeFrom_eq_self (hc ▸ apart)

theorem joined_reads (placed : ∀ p ∈ search.placements source, p.blocks ≠ []) :
    ∀ attempt ∈ (search.merged (some image) (search.candidateRuns source)).attempts, attempt.joined.isSome →
      attempt.reads ≠ [] ∧ ∀ sector ∈ attempt.reads, image.blockIsNull sector = .ok true := by
  intro attempt member success
  obtain ⟨joined, taken⟩ := Option.isSome_iff_exists.mp success
  obtain ⟨a, b, grown, neighbours, ends, rfl⟩ := attempt_of_merged member
  obtain ⟨gap, tiles, null, reads⟩ := tryJoin_reads_of_joined taken
  have positive : 0 < gap :=
    rel_of_neighbours (gap_pos_candidates placed) neighbours _ gap (ends.tiles_iff.mp tiles)
  rw [reads]
  constructor
  · simp only [ne_eq, List.range'_eq_nil_iff]
    omega
  · intro sector member
    obtain ⟨k, hk, rfl⟩ := List.mem_range'.mp member
    rw [Nat.mul_comm]
    exact null k hk

theorem find_unverified (localSize : String → Nat) (candidates : Candidates) (records : List Record)
    (sightings : Sightings) (settings : Settings) :
    let search : Search := { catalog := .load localSize candidates records, sightings, settings }
    (∀ image : Image,
        (∀ sector bytes, image.read (sector * sectorSize) blockSize = .ok bytes → ∃ byte ∈ bytes, byte ≠ 0) →
          search.find (some image) = search.find none) ∧
      (∀ image source, ∀ attempt ∈ (search.merged (some image) (search.candidateRuns source)).attempts,
        attempt.joined.isSome →
          attempt.reads ≠ [] ∧ ∀ sector ∈ attempt.reads, image.blockIsNull sector = .ok true) ∧
        ∀ source, (search.candidateRuns source).IsChain fun a b => ∀ maxGap, gapBetween maxGap a b ≠ some 0 := by
  intro search
  have placed : ∀ source, ∀ p ∈ search.placements source, p.blocks ≠ [] :=
    fun _ _ member => blocks_ne_nil_of_load rfl member
  refine ⟨?_, fun image source => joined_reads (placed source), fun source => ?_⟩
  · intro image notNull
    have nothing : ∀ sector, image.blockIsNull sector ≠ .ok true := by
      intro sector null
      obtain ⟨bytes, read, zeros⟩ := Image.blockIsNull_iff_read.mp null
      obtain ⟨byte, member, nonzero⟩ := notNull sector bytes read
      exact nonzero (by simpa using List.all_eq_true.mp zeros byte member)
    simp only [find_eq_flatMap, merged_runs_eq_self (placed _) nothing]
    rfl
  · apply (gap_pos_candidates (placed source)).imp
    intro a b positive maxGap touching
    exact Nat.lt_irrefl 0 (positive maxGap 0 (gapBetween_eq_some.mp touching))

theorem find_unverified_written :
    let records : List Record := [.association ⟨"a", ⟨1, none⟩, [⟨1, 0⟩]⟩, .association ⟨"b", ⟨2, none⟩, [⟨1, 4096⟩]⟩,
      .association ⟨"d", ⟨1, none⟩, [⟨1, 12288⟩]⟩]
    let observations : List Observation := [⟨0, "a", none, .none⟩, ⟨4096, "b", none, .none⟩, ⟨12288, "d", none, .none⟩]
    let catalog := Catalog.load (fun _ => 0) (Candidates.select {} records) records
    let search : Search := { catalog, sightings := catalog.sightings observations, settings := {} }
    let written := Image.ofBytes 16384 fun _ => 1
    let null := Image.ofBytes 16384 fun _ => 0
    search.find (some written) = search.find none ∧ (search.find none).map (·.length) = [2] ∧
      (search.find (some null)).map (·.length) = [4] ∧
        ∃ attempt ∈ (search.merged (some null) (search.candidateRuns 1)).attempts,
          attempt.joined.isSome ∧ attempt.reads = [16] ∧ null.blockIsNull 16 = .ok true := by
  intro records observations catalog search written null
  obtain ⟨unchanged, reads, -⟩ :=
    find_unverified (fun _ => 0) (Candidates.select {} records) records (catalog.sightings observations) {}
  have notNull :
      ∀ sector bytes, written.read (sector * sectorSize) blockSize = .ok bytes → ∃ byte ∈ bytes, byte ≠ 0 := by
    intro sector bytes read
    by_contra! zeros
    have clear : written.blockIsNull sector = .ok true :=
      Image.blockIsNull_iff_read.mpr ⟨bytes, read, by simpa [isAllNull] using zeros⟩
    have first := Image.byte_of_blockIsNull clear 0 (by decide)
    simp only [written, Image.ofBytes] at first
    split at first <;> cases first
  have attempts : (search.merged (some null) (search.candidateRuns 1)).attempts.map
      (fun attempt => (attempt.joined.isSome, attempt.reads)) = [(true, [16])] := by decide +kernel
  obtain ⟨attempt, member, same⟩ := List.mem_map.mp (attempts ▸ List.mem_cons_self)
  obtain ⟨success, sectors⟩ : attempt.joined.isSome = true ∧ attempt.reads = [16] := by
    simpa only [Prod.mk.injEq] using same
  have clear := (reads null 1 attempt member success).2 16 (by simp [sectors])
  exact ⟨unchanged written notNull, by decide +kernel, by decide +kernel, attempt, member, success, sectors, clear⟩

end Search

end FragmentSearch
