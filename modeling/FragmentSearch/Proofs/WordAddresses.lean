import FragmentSearch.Proofs.EvidenceOrigins
import FragmentSearch.Proofs.RunStructure

namespace FragmentSearch

theorem Text.word?_lt {text : List Char} {n : Nat} (h : word? text = some n) : n < wordLimit := by
  rw [word?, Option.filter_eq_some_iff] at h
  exact of_decide_eq_true h.2

theorem Text.natural?_lt {text : List Char} {n : Nat} (h : natural? text = some n) : n < wordLimit := by
  unfold natural? at h
  split at h
  · exact word?_lt h
  · exact word?_lt h

theorem Json.Value.natural?_lt {value : Json.Value} {n : Nat} (h : value.natural? = some n) : n < wordLimit := by
  cases value with
  | number lexeme => exact Text.word?_lt h
  | _ => cases h

theorem mapM_eq_some {α β : Type} {list : List α} {f? : α → Option β} {f : α → β} (h : ∀ a ∈ list, f? a = some (f a)) :
    list.mapM f? = some (list.map f) := by
  induction list with
  | nil => rfl
  | cons a rest ih =>
    obtain ⟨first, others⟩ := List.forall_mem_cons.mp h
    rw [List.mapM_cons, first, ih others]
    rfl

theorem mem_of_mapM_eq_some {α β : Type} {f : α → Option β} {list : List α} {results : List β}
    (h : list.mapM f = some results) : ∀ b ∈ results, ∃ a ∈ list, f a = some b := by
  induction list generalizing results with
  | nil =>
    cases h
    simp
  | cons a rest ih =>
    simp only [List.mapM_cons, Option.bind_eq_bind, Option.bind_eq_some_iff, Option.pure_def, Option.some.injEq] at h
    obtain ⟨first, hf, others, ho, rfl⟩ := h
    intro b member
    rcases List.mem_cons.mp member with rfl | member
    · exact ⟨a, List.mem_cons_self, hf⟩
    · obtain ⟨other, listed, found⟩ := ih ho b member
      exact ⟨other, List.mem_cons_of_mem _ listed, found⟩

namespace Record

theorem offset_lt_of_occurrence? {value : Json.Value} {occurrence : Occurrence}
    (h : occurrence? value = some occurrence) : occurrence.offset < wordLimit := by
  unfold occurrence? at h
  split at h
  · simp only [Option.bind_eq_bind, Option.bind_eq_some_iff, Option.some.injEq] at h
    obtain ⟨members, -, -, -, source, -, -, -, offset, ⟨found, -, read⟩, rfl⟩ := h
    exact Json.Value.natural?_lt read
  · simp only [Option.bind_eq_bind, Option.bind_eq_some_iff, Option.some.injEq] at h
    obtain ⟨source, -, offset, read, rfl⟩ := h
    exact Json.Value.natural?_lt read
  · cases h

theorem offset_lt_of_association? {value : Json.Value} {association : Association}
    (h : association? value = some association) : ∀ o ∈ association.occurrences, o.offset < wordLimit := by
  unfold association? at h
  split at h
  · simp only [Option.bind_eq_bind, Option.bind_eq_some_iff, Option.some.injEq] at h
    obtain ⟨hash, -, provenance, -, occurrences, read, rfl⟩ := h
    intro o member
    obtain ⟨item, -, found⟩ := mem_of_mapM_eq_some read o member
    exact offset_lt_of_occurrence? found
  · cases h

theorem offset_lt_of_read? {line : String} {association : Association}
    (h : read? line = .ok (some (.association association))) :
    ∀ o ∈ association.occurrences, o.offset < wordLimit := by
  unfold read? at h
  dsimp only at h
  split at h
  · cases h
  · cases h
  · split at h
    · rename_i found value
      cases h
      obtain ⟨json, -, read⟩ := Option.bind_eq_some_iff.mp value
      exact offset_lt_of_association? read
    · cases h
  · split at h <;> cases h
  · cases h

end Record

theorem Observation.offset_lt_of_read? {line : String} {observation : Observation}
    (h : read? line = .ok (some observation)) : observation.offset < wordLimit := by
  unfold read? at h
  dsimp only at h
  split at h
  · cases h
  · split at h
    · split at h
      · cases h
      · rename_i number read
        split at h
        · cases h
        · cases h
          exact Text.natural?_lt read
    · cases h

theorem Entry.decode_of_ofLine {α : Type} {decode : String → Except LineFault (Option α)} {line : List UInt8}
    {value : α} (h : ofLine decode line = .item value) : ∃ text, decode text = .ok (some value) := by
  unfold ofLine at h
  split at h
  · cases h
  · split at h
    · rename_i text _ _ read
      cases h
      exact ⟨_, read⟩
    · cases h
    · cases h

theorem Feed.occurrence_lt {feed : Feed} {association : Association}
    (h : .association association ∈ feed.records.items) : ∀ o ∈ association.occurrences, o.offset < wordLimit := by
  obtain ⟨line, -, carried⟩ := mem_items.mp h
  obtain ⟨text, read⟩ := Entry.decode_of_ofLine carried
  exact Record.offset_lt_of_read? read

theorem Feed.observation_lt {feed : Feed} {observation : Observation} (h : observation ∈ feed.observations.items) :
    observation.offset < wordLimit := by
  obtain ⟨line, -, carried⟩ := mem_items.mp h
  obtain ⟨text, read⟩ := Entry.decode_of_ofLine carried
  exact Observation.offset_lt_of_read? read

structure Placement.Addressable (p : Placement) : Prop where
  sector : p.sector * sectorSize < wordLimit
  block : ∀ block ∈ p.blocks, block * blockSize < wordLimit

theorem lt_of_address {n size : Nat} (h : n * size < wordLimit) (filled : 0 < size) : n < wordLimit :=
  Nat.lt_of_le_of_lt (Nat.le_mul_of_pos_right n filled) h

namespace Run

structure Addressable (run : Run) : Prop extends run.Linked where
  placed : ∀ p ∈ run.placements, p.Addressable

structure InWords (run : Run) : Prop extends run.Aligned where
  address : ∀ p ∈ run.placements, p.sector * sectorSize < wordLimit
  logicalStart_lt : run.logicalStart < wordLimit
  logicalEnd_lt : run.logicalEnd < wordLimit

variable {run a b : Run}

theorem Addressable.start_lt (h : run.Addressable) :
    run.physicalStart * sectorSize < wordLimit ∧ run.logicalStart * blockSize < wordLimit := by
  obtain ⟨first, head, starts⟩ := h.start_mem
  have placed := h.placed first (List.mem_of_head? head)
  rw [physicalStart_eq head]
  exact ⟨placed.sector, placed.block _ starts⟩

theorem Addressable.end_lt (h : run.Addressable) :
    run.physicalEnd * sectorSize < wordLimit ∧ run.logicalEnd * blockSize < wordLimit := by
  obtain ⟨last, tail, ends⟩ := h.end_mem
  have placed := h.placed last (List.mem_of_getLast? tail)
  rw [physicalEnd_eq tail]
  exact ⟨placed.sector, placed.block _ ends⟩

theorem Addressable.inWords (h : run.Addressable) : run.InWords :=
  ⟨h.aligned, fun p member => (h.placed p member).sector, lt_of_address h.start_lt.2 (by decide),
    lt_of_address h.end_lt.2 (by decide)⟩

theorem InWords.physicalStart_lt (h : run.InWords) : run.physicalStart * sectorSize < wordLimit := by
  have head := List.head?_eq_some_head h.ne_nil
  rw [physicalStart_eq head]
  exact h.address _ (List.mem_of_head? head)

theorem Tiles.sector_le {maxGap gap k : Nat} (t : a.Tiles maxGap b gap) (aligned : a.Aligned) (hk : k ≤ gap) :
    a.physicalEnd + k * sectorsPerBlock ≤ b.physicalStart := by
  rw [t.start_eq aligned]
  simp only [sectorsPerBlock]
  omega

theorem Addressable.gapAfter {maxGap gap : Nat} (ha : a.Addressable) (hb : b.Addressable) (t : a.Tiles maxGap b gap) :
    ∀ p ∈ a.gapAfter gap, p.Addressable := by
  intro p member
  obtain ⟨k, inside, rfl⟩ := List.mem_map.mp member
  rw [List.mem_range'_1] at inside
  obtain ⟨sector, block⟩ := hb.start_lt
  have before := t.sector_le ha.aligned (k := k) (by omega)
  have onward := t.adjoins
  have earlier : a.logicalEnd + k ≤ b.logicalStart := by omega
  refine ⟨Nat.lt_of_le_of_lt (Nat.mul_le_mul_right _ before) sector, fun other member => ?_⟩
  rw [List.mem_singleton.mp member]
  exact Nat.lt_of_le_of_lt (Nat.mul_le_mul_right _ earlier) block

theorem Addressable.join {maxGap gap : Nat} (gapWeight : Float) (ha : a.Addressable) (hb : b.Addressable)
    (t : a.Tiles maxGap b gap) : (a.join gapWeight b gap).Addressable := by
  refine ⟨ha.toLinked.join gapWeight hb.toLinked t, fun p member => ?_⟩
  simp only [Run.join, List.mem_append] at member
  rcases member with (member | member) | member
  · exact ha.placed p member
  · exact ha.gapAfter hb t p member
  · exact hb.placed p member

theorem InWords.join {maxGap gap : Nat} (gapWeight : Float) (ha : a.InWords) (hb : b.InWords)
    (t : a.Tiles maxGap b gap) : (a.join gapWeight b gap).InWords := by
  refine ⟨ha.toAligned.join gapWeight hb.toAligned t, fun p member => ?_, ha.logicalStart_lt, hb.logicalEnd_lt⟩
  simp only [Run.join, List.mem_append] at member
  rcases member with (member | member) | member
  · exact ha.address p member
  · obtain ⟨k, inside, rfl⟩ := List.mem_map.mp member
    have before := t.sector_le ha.toAligned (k := k) (by rw [List.mem_range'_1] at inside; omega)
    exact Nat.lt_of_le_of_lt (Nat.mul_le_mul_right _ before) hb.physicalStart_lt
  · exact hb.address p member

end Run

namespace Search

variable {source : Nat} {run : Run}

theorem addressable_of_feeds (localSize : String → Nat) (policy : Policy) (settings : Settings)
    (associations observations : Feed) {p : Placement}
    (h : p ∈ (ofFeeds localSize policy settings associations observations).placements source) : p.Addressable := by
  obtain ⟨observation, observed, association, recorded, -, sameSector, -, -, lists⟩ := sighted_of_load rfl rfl h
  have offset := Feed.observation_lt observed
  refine ⟨?_, fun block member => ?_⟩
  · rw [← sameSector, Observation.sector, sectorOf]
    exact Nat.lt_of_le_of_lt (Nat.div_mul_le_self _ _) offset
  · obtain ⟨o, listed, -, rfl⟩ := (lists.mem_iff block).mp member
    rw [Occurrence.block, blockOf]
    exact Nat.lt_of_le_of_lt (Nat.div_mul_le_self _ _) (Feed.occurrence_lt recorded o listed)

theorem addressable_candidate {search : Search} (placed : ∀ p ∈ search.placements source, p.Addressable ∧ p.blocks ≠ [])
    (h : run ∈ search.candidateRuns source) : run.Addressable := by
  refine ⟨linked_candidate (fun p member => (placed p member).2) h, ?_⟩
  obtain ⟨bucket, gathered, row, cut, rfl⟩ := mem_candidateRuns.mp h
  exact fun p member => (placed p (mem_row gathered cut member)).1

theorem addressable_find {search : Search} {image : Option Image}
    (placed : ∀ source, ∀ p ∈ search.placements source, p.Addressable ∧ p.blocks ≠ []) (h : run ∈ search.find image) :
    run.Addressable := by
  obtain ⟨source, -, merged, -⟩ := mem_find.mp h
  apply forall_merged_of_join _ (fun _ => addressable_candidate (placed source)) run merged
  exact fun a b gap ha hb tiles => ha.join _ hb tiles

end Search

end FragmentSearch
