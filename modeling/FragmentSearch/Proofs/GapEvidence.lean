import FragmentSearch.Proofs.GapReads
import FragmentSearch.Proofs.RunOrder
import FragmentSearch.Proofs.RunStructure

namespace FragmentSearch

theorem infix_or_infix_of_border {α : Type} {row left right : List α}
    (border : (∃ x, left.getLast? = some x ∧ x ∉ row) ∨ ∃ y, right.head? = some y ∧ y ∉ row)
    (h : row <:+: left ++ right) : row <:+: left ∨ row <:+: right := by
  rw [List.infix_append_iff_ne_nil] at h
  rcases h with inside | after | ⟨front, back, hf, hb, rfl, ends, begins⟩
  · exact .inl inside
  · exact .inr after
  · -- a row across the border holds the elements on both sides of it
    rcases border with ⟨x, hx, notIn⟩ | ⟨y, hy, notIn⟩
    · have last := List.mem_append_left back (List.getLast_mem hf)
      rw [ends.getLast hf] at last
      obtain ⟨start, rfl⟩ := List.getLast?_eq_some_iff.mp hx
      rw [List.getLast_concat] at last
      exact absurd last notIn
    · have first := List.mem_append_right front (List.head_mem hb)
      rw [begins.head hb] at first
      obtain ⟨tail, rfl⟩ := List.head?_eq_some_iff.mp hy
      exact absurd first notIn

theorem exists_related_of_mem {α β : Type} {R : α → β → Prop} {xs : List α} {ys : List β} (h : List.Forall₂ R xs ys)
    {y : β} (member : y ∈ ys) : ∃ x ∈ xs, R x y := by
  induction h with
  | nil => exact absurd member List.not_mem_nil
  | cons related _ ih =>
    rcases List.mem_cons.mp member with rfl | later
    · exact ⟨_, List.mem_cons_self, related⟩
    · obtain ⟨x, hx, related⟩ := ih later
      exact ⟨x, List.mem_cons_of_mem _ hx, related⟩

theorem mem_bridged {maxGap : Nat} {row : List Run} {p : Placement} (h : p ∈ bridged maxGap row) :
    (∃ run ∈ row, p ∈ run.placements) ∨
      ∃ a b, [a, b] <:+: row ∧ p ∈ a.gapAfter ((gapBetween maxGap a b).getD 0) := by
  induction row with
  | nil => exact absurd h List.not_mem_nil
  | cons a rest ih =>
    cases rest with
    | nil => exact .inl ⟨a, List.mem_cons_self, h⟩
    | cons b rest =>
      simp only [bridged, List.mem_append] at h
      rcases h with (inRun | inGap) | later
      · exact .inl ⟨a, List.mem_cons_self, inRun⟩
      · exact .inr ⟨a, b, ⟨[], rest, rfl⟩, inGap⟩
      · rcases ih later with ⟨run, member, inRun⟩ | ⟨c, d, within, inGap⟩
        · exact .inl ⟨run, List.mem_cons_of_mem a member, inRun⟩
        · exact .inr ⟨c, d, within.trans (List.suffix_cons a _).isInfix, inGap⟩

namespace Run

structure GapsShort (maxGap : Nat) (run : Run) : Prop where
  begins : ∃ first, run.placements.head? = some first ∧ first.evidence ≠ .nullGap
  ends : ∃ last, run.placements.getLast? = some last ∧ last.evidence ≠ .nullGap
  short : ∀ row, row <:+: run.placements → (∀ p ∈ row, p.evidence = .nullGap) → row.length ≤ maxGap

theorem gapsShort_of_hashes {run : Run} (maxGap : Nat) (hn : run.placements ≠ [])
    (hashes : ∀ p ∈ run.placements, p.evidence ≠ .nullGap) : run.GapsShort maxGap := by
  refine ⟨⟨_, List.head?_eq_some_head hn, hashes _ (List.head_mem hn)⟩,
    ⟨_, List.getLast?_eq_getLast_of_ne_nil hn, hashes _ (List.getLast_mem hn)⟩, ?_⟩
  intro row within gaps
  cases row with
  | nil => exact Nat.zero_le maxGap
  | cons p row => exact absurd (gaps p List.mem_cons_self) (hashes p (within.subset List.mem_cons_self))

theorem GapsShort.join {maxGap gap : Nat} {a b : Run} (gapWeight : Float) (ha : a.GapsShort maxGap)
    (hb : b.GapsShort maxGap) (le : gap ≤ maxGap) : (a.join gapWeight b gap).GapsShort maxGap := by
  obtain ⟨first, hf, firstHash⟩ := ha.begins
  obtain ⟨last, hl, lastHash⟩ := ha.ends
  obtain ⟨first', hf', firstHash'⟩ := hb.begins
  obtain ⟨last', hl', lastHash'⟩ := hb.ends
  refine ⟨⟨first, by simp [Run.join, List.head?_append, hf], firstHash⟩, ⟨last', ?_, lastHash'⟩, ?_⟩
  · simp [Run.join, List.getLast?_append, hl']
  · intro row within gaps
    have notLast : last ∉ row := fun member => lastHash (gaps last member)
    have notFirst : first' ∉ row := fun member => firstHash' (gaps first' member)
    rcases infix_or_infix_of_border (.inr ⟨first', hf', notFirst⟩) within with before | inB
    · rcases infix_or_infix_of_border (.inl ⟨last, hl, notLast⟩) before with inA | inGap
      · exact ha.short row inA gaps
      · have length := inGap.length_le
        simp only [gapAfter, List.length_map, List.length_range'] at length
        omega
    · exact hb.short row inB gaps

theorem GapsShort.strictly_inside {maxGap : Nat} {run : Run} (h : run.GapsShort maxGap) {i : Nat} {p : Placement}
    (found : run.placements[i]? = some p) (evidence : p.evidence = .nullGap) :
    0 < i ∧ i + 1 < run.placements.length := by
  obtain ⟨first, hf, firstHash⟩ := h.begins
  obtain ⟨last, hl, lastHash⟩ := h.ends
  have inside : i < run.placements.length := (List.getElem?_eq_some_iff.mp found).1
  rw [List.head?_eq_getElem?] at hf
  rw [List.getLast?_eq_getElem?] at hl
  constructor
  · apply Nat.pos_of_ne_zero
    rintro rfl
    rw [found] at hf
    cases hf
    exact firstHash evidence
  · apply Nat.lt_of_le_of_ne inside
    intro atEnd
    have same : run.placements.length - 1 = i := by omega
    rw [same, found] at hl
    cases hl
    exact lastHash evidence

end Run

namespace Search

variable {search : Search} {source : Nat} {image : Image} {run : Run}

theorem evidence_candidate (h : run ∈ search.candidateRuns source) {p : Placement} (member : p ∈ run.placements) :
    p.evidence ≠ .nullGap := by
  obtain ⟨bucket, gathered, row, cut, rfl⟩ := mem_candidateRuns.mp h
  obtain ⟨hash, -, blocks, count, -, -, -, sector, -, rfl⟩ := mem_placements.mp (mem_row gathered cut member)
  exact Evidence.noConfusion

theorem gapsShort_merged
    (h : run ∈ (search.merged (some image) (search.candidateRuns source)).runs) :
    run.GapsShort search.settings.maxGapBlocks := by
  have candidates : ∀ run ∈ search.candidateRuns source, run.GapsShort search.settings.maxGapBlocks := by
    intro run member
    exact Run.gapsShort_of_hashes _ (aligned_candidate member).ne_nil fun p => evidence_candidate member
  apply forall_merged_of_join _ candidates run h
  exact fun a b gap ha hb tiles => ha.join _ hb tiles.gap_le

/-- A block of a gap: two candidate runs that are neighbours tile, and nothing but null blocks lies between them. -/
structure Bridges (search : Search) (source : Nat) (image : Image) (sector : Nat) (a b : Run) (gap k : Nat) : Prop where
  neighbours : [a, b] <:+: search.candidateRuns source
  tiles : a.Tiles search.settings.maxGapBlocks b gap
  inside : k < gap
  sector_eq : sector = a.physicalEnd + sectorsPerBlock + k * sectorsPerBlock
  null : image.blockIsNull sector = .ok true

theorem bridges_of_merged (h : run ∈ (search.merged (some image) (search.candidateRuns source)).runs) {p : Placement}
    (member : p ∈ run.placements) (evidence : p.evidence = .nullGap) :
    ∃ a b gap k, search.Bridges source image p.sector a b gap k := by
  obtain ⟨row, grouped, spans⟩ := exists_related_of_mem (merged_groups search image source) h
  have within : row <:+: search.candidateRuns source := by
    rw [← List.flatten_splitBy (joinsNext search.settings image) (search.candidateRuns source)]
    exact List.infix_of_mem_flatten grouped
  rw [spans.placements_eq] at member
  rcases mem_bridged member with ⟨run, inRow, inRun⟩ | ⟨a, b, neighbours, inGap⟩
  · exact absurd evidence (evidence_candidate (within.subset inRow) inRun)
  · have joins := rel_of_neighbours (List.isChain_of_mem_splitBy grouped) neighbours
    obtain ⟨joined, taken⟩ := Option.isSome_iff_exists.mp joins
    obtain ⟨gap, tiles, null, -⟩ := tryJoin_reads_of_joined taken
    rw [gapBetween_eq_some.mpr tiles, Option.getD_some] at inGap
    obtain ⟨k, hk, rfl⟩ := List.mem_map.mp inGap
    obtain ⟨j, hj, rfl⟩ := List.mem_range'.mp hk
    have sector : a.physicalEnd + (1 + 1 * j) * sectorsPerBlock =
        a.physicalEnd + sectorsPerBlock + j * sectorsPerBlock := by
      simp only [sectorsPerBlock]
      omega
    refine ⟨a, b, gap, j, neighbours.trans within, tiles, hj, sector, ?_⟩
    rw [Placement.gap, sector]
    exact null j hj

theorem Bridges.unplaced {sector gap k : Nat} {a b : Run} (h : search.Bridges source image sector a b gap k)
    {p : Placement} (placed : p ∈ search.placements source) : p.sector ≠ sector := by
  rintro rfl
  have member : a ∈ search.candidateRuns source := h.neighbours.subset List.mem_cons_self
  have parted := rel_of_neighbours (candidateRuns_parted search source) h.neighbours
  have aligned := aligned_candidate member
  have sector_eq := h.sector_eq
  have inside := h.inside
  have class_eq : alignment p.sector = a.alignment := by
    rw [← aligned.alignment_end]
    simp only [alignment, sectorsPerBlock] at sector_eq ⊢
    omega
  have next := h.tiles.start_eq aligned
  have outside := (parted h.tiles.alignment_eq).between p (mem_bucket.mpr ⟨placed, class_eq⟩)
  simp only [sectorsPerBlock] at sector_eq next
  omega

theorem find_gaps_verified (localSize : String → Nat) (candidates : Candidates) (records : List Record)
    (sightings : Sightings) (settings : Settings) (image : Image) {run : Run}
    (h : run ∈ ({ catalog := .load localSize candidates records, sightings, settings } : Search).find (some image)) :
    (∀ i p, run.placements[i]? = some p → p.evidence = .nullGap →
        (∀ k < blockSize, image.byte (p.sector * sectorSize + k) = .ok 0) ∧
        (∀ hash ∈ (Catalog.load localSize candidates records).hashesOf run.source, ∀ count,
          (Catalog.load localSize candidates records).hashCount hash = some count → 0 < count →
            p.sector ∉ sightings.sectorsOf hash) ∧
        0 < i ∧ i + 1 < run.placements.length) ∧
      ∀ row, row <:+: run.placements → (∀ p ∈ row, p.evidence = .nullGap) → row.length ≤ settings.maxGapBlocks := by
  obtain ⟨source, -, merged, -⟩ := mem_find.mp h
  have same : run.source = source :=
    (forall_merged (fun _ _ _ _ ha hb => ha.join hb) (fun _ => grounded_candidate) run merged).source_eq
  have gaps := gapsShort_merged merged
  refine ⟨fun i p found evidence => ?_, gaps.short⟩
  obtain ⟨a, b, gap, k, bridges⟩ := bridges_of_merged merged (List.mem_of_getElem? found) evidence
  refine ⟨Image.byte_of_blockIsNull bridges.null, ?_, gaps.strictly_inside found evidence⟩
  intro hash known count counted positive seen
  rw [same] at known
  obtain ⟨blocks, placed⟩ := Catalog.placed_load records source hash known
  exact bridges.unplaced (mem_placements.mpr ⟨hash, known, blocks, count, placed, counted, positive, _, seen, rfl⟩) rfl

theorem find_gaps_verified_uncounted :
    let records : List Record := [.association ⟨"a", ⟨1, none⟩, [⟨1, 0⟩]⟩, .association ⟨"b", ⟨2, none⟩, [⟨1, 4096⟩]⟩,
      .association ⟨"c", ⟨0, none⟩, [⟨1, 8192⟩]⟩, .association ⟨"d", ⟨1, none⟩, [⟨1, 12288⟩]⟩]
    let observations : List Observation := [⟨0, "a", none, .none⟩, ⟨4096, "b", none, .none⟩, ⟨8192, "c", none, .none⟩,
      ⟨12288, "d", none, .none⟩]
    let catalog := Catalog.load (fun _ => 0) (Candidates.select {} records) records
    let sightings := catalog.sightings observations
    let image := Image.ofBytes 16384 fun _ => 0
    "c" ∈ catalog.hashesOf 1 ∧ 16 ∈ sightings.sectorsOf "c" ∧
      ∃ run ∈ ({ catalog, sightings, settings := { maxGapBlocks := 1 } } : Search).find (some image), run.source = 1 ∧
        run.placements = [⟨0, [0], .hash 1⟩, ⟨8, [1], .hash 2⟩, ⟨16, [2], .nullGap⟩, ⟨24, [3], .hash 1⟩] ∧
          (∀ k < blockSize, image.byte (8192 + k) = .ok 0) ∧
          (∀ hash ∈ catalog.hashesOf 1, ∀ count, catalog.hashCount hash = some count → 0 < count →
            16 ∉ sightings.sectorsOf hash) ∧
          ∀ row, row <:+: run.placements → (∀ p ∈ row, p.evidence = .nullGap) → row.length ≤ 1 := by
  intro records observations catalog sightings image
  have result : (({ catalog, sightings, settings := { maxGapBlocks := 1 } } : Search).find (some image)).map
      (fun run => (run.source, run.placements)) =
      [(1, [⟨0, [0], .hash 1⟩, ⟨8, [1], .hash 2⟩, ⟨16, [2], .nullGap⟩, ⟨24, [3], .hash 1⟩])] := by decide +kernel
  obtain ⟨run, found, same⟩ := List.mem_map.mp (result ▸ List.mem_cons_self)
  obtain ⟨source, placements⟩ := Prod.mk.inj same
  obtain ⟨verified, short⟩ := find_gaps_verified _ _ records sightings { maxGapBlocks := 1 } image found
  obtain ⟨zeros, unseen, -⟩ := verified 2 ⟨16, [2], .nullGap⟩ (by rw [placements]; rfl) rfl
  rw [source] at unseen
  exact ⟨by decide +kernel, by decide +kernel, run, found, source, placements, zeros, unseen, short⟩

end Search

end FragmentSearch
