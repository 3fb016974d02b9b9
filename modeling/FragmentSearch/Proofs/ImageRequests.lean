import FragmentSearch.Proofs.GapReads
import FragmentSearch.Proofs.RunSpans

namespace FragmentSearch

structure Request where
  offset : Nat
  length : Nat
deriving DecidableEq

def Request.ofBlock (sector : Nat) : Request := ⟨sector * sectorSize, blockSize⟩

theorem Request.sectorOf_ofBlock (sector : Nat) : sectorOf (Request.ofBlock sector).offset = sector :=
  Nat.mul_div_cancel sector (by decide)

abbrev Asking := StateM (List Request)

namespace Asking

def read (image : Image) (offset length : Nat) : Asking (Except ReadFault (List UInt8)) := do
  modify (· ++ [⟨offset, length⟩])
  return image.read offset length

def blockIsNull (image : Image) (sector : Nat) : Asking (Except ReadFault Bool) := do
  let bytes ← read image (sector * sectorSize) blockSize
  return bytes.map isAllNull

def gapIsNull (image : Image) (sector : Nat) : Nat → Asking Bool
  | 0 => return true
  | blocks + 1 => do
    let null ← blockIsNull image sector
    match null with
    | .ok true => gapIsNull image (sector + sectorsPerBlock) blocks
    | _ => return false

def tryJoin (settings : Settings) (image : Image) (a b : Run) : Asking (Option Run) :=
  match gapBetween settings.maxGapBlocks a b with
  | none => return none
  | some gap => do
    let clear ← gapIsNull image (a.physicalEnd + sectorsPerBlock) gap
    return if clear then some (a.join settings.nullGapWeight b gap) else none

def mergeFrom (settings : Settings) (image : Image) (previous : Run) : List Run → Asking (List Run)
  | [] => return [previous]
  | run :: rest => do
    let joined ← tryJoin settings image previous run
    match joined with
    | some joined => mergeFrom settings image joined rest
    | none =>
      let runs ← mergeFrom settings image run rest
      return previous :: runs

def mergeRuns (settings : Settings) (image : Image) (runs : List Run) : Asking (List Run) :=
  match sorted Run.atMost runs with
  | [] => return []
  | first :: rest => mergeFrom settings image first rest

variable {settings : Settings} {image : Image} {asked : List Request}

theorem run_bind {α β : Type} (first : Asking α) (next : α → Asking β) (asked : List Request) :
    (first >>= next).run asked = (next (first.run asked).1).run (first.run asked).2 := rfl

theorem run_pure {α : Type} (a : α) (asked : List Request) : (pure a : Asking α).run asked = (a, asked) := rfl

theorem run_blockIsNull (sector : Nat) :
    (blockIsNull image sector).run asked = (image.blockIsNull sector, asked ++ [.ofBlock sector]) := rfl

theorem run_gapIsNull (sector blocks : Nat) :
    (gapIsNull image sector blocks).run asked =
      ((checkGap image sector blocks).obstacle.isNone,
        asked ++ (checkGap image sector blocks).reads.map .ofBlock) := by
  induction blocks generalizing sector asked with
  | zero => rw [gapIsNull, run_pure, checkGap, List.map_nil, List.append_nil, Option.isNone_none]
  | succ blocks ih =>
    rw [gapIsNull, run_bind, run_blockIsNull]
    cases h : image.blockIsNull sector with
    | error fault =>
      simp only [checkGap, h, run_pure]
      rfl
    | ok null =>
      cases null with
      | false =>
        simp only [checkGap, h, run_pure]
        rfl
      | true => simp only [checkGap, h, ih, List.map_cons, List.append_assoc, List.singleton_append]

theorem run_tryJoin (a b : Run) :
    (tryJoin settings image a b).run asked =
      ((FragmentSearch.tryJoin settings image a b).joined,
        asked ++ (FragmentSearch.tryJoin settings image a b).reads.map .ofBlock) := by
  rw [tryJoin, FragmentSearch.tryJoin]
  cases gapBetween settings.maxGapBlocks a b with
  | none => simp only [run_pure, List.map_nil, List.append_nil]
  | some gap =>
    simp only [run_bind, run_gapIsNull, run_pure]
    cases (checkGap image (a.physicalEnd + sectorsPerBlock) gap).obstacle <;> rfl

theorem run_mergeFrom (previous : Run) (rest : List Run) :
    (mergeFrom settings image previous rest).run asked =
      ((FragmentSearch.mergeFrom (FragmentSearch.tryJoin settings image) previous rest).runs,
        asked ++
          (FragmentSearch.mergeFrom (FragmentSearch.tryJoin settings image) previous rest).reads.map .ofBlock) := by
  induction rest generalizing previous asked with
  | nil =>
    rw [mergeFrom, run_pure, FragmentSearch.mergeFrom, Merge.reads, List.flatMap_nil, List.map_nil, List.append_nil]
  | cons run rest ih =>
    rw [mergeFrom, FragmentSearch.mergeFrom, run_bind, run_tryJoin]
    cases (FragmentSearch.tryJoin settings image previous run).joined with
    | none =>
      simp only [run_bind, ih, run_pure, Merge.reads, List.flatMap_cons, List.map_append, List.append_assoc]
    | some joined => simp only [ih, Merge.reads, List.flatMap_cons, List.map_append, List.append_assoc]

theorem run_mergeRuns (runs : List Run) :
    (mergeRuns settings image runs).run asked =
      ((FragmentSearch.mergeRuns settings image runs).runs,
        asked ++ (FragmentSearch.mergeRuns settings image runs).reads.map .ofBlock) := by
  rw [mergeRuns, FragmentSearch.mergeRuns]
  cases sorted Run.atMost runs with
  | nil => rw [run_pure, Merge.reads, List.flatMap_nil, List.map_nil, List.append_nil]
  | cons first rest => exact run_mergeFrom first rest

end Asking

section Attempts

variable {settings : Settings} {image : Image} {a b grown : Run} {sector gap : Nat}

theorem checkGap_reads_range (image : Image) (sector blocks : Nat) :
    (checkGap image sector blocks).reads <+: List.range' sector blocks sectorsPerBlock := by
  induction blocks generalizing sector with
  | zero => exact List.nil_prefix
  | succ blocks ih =>
    rw [checkGap, List.range'_succ]
    cases image.blockIsNull sector with
    | error fault => exact List.prefix_append [sector] _
    | ok null =>
      cases null with
      | false => exact List.prefix_append [sector] _
      | true => exact List.cons_prefix_cons.mpr ⟨rfl, ih _⟩

theorem checkGap_null_before_last (image : Image) (sector blocks : Nat) :
    ∀ read ∈ (checkGap image sector blocks).reads.dropLast, image.blockIsNull read = .ok true := by
  induction blocks generalizing sector with
  | zero => simp [checkGap]
  | succ blocks ih =>
    cases h : image.blockIsNull sector with
    | error fault => simp [checkGap, h]
    | ok null =>
      cases null with
      | false => simp [checkGap, h]
      | true =>
        simp only [checkGap, h]
        cases later : (checkGap image (sector + sectorsPerBlock) blocks).reads with
        | nil => simp
        | cons next reads =>
          rw [List.dropLast_cons_cons, List.forall_mem_cons, ← later]
          exact ⟨h, ih _⟩

theorem tryJoin_reads_cases (settings : Settings) (image : Image) (a b : Run) :
    (tryJoin settings image a b).reads = [] ∨
      ∃ gap, a.Tiles settings.maxGapBlocks b gap ∧
        (tryJoin settings image a b).reads = (checkGap image (a.physicalEnd + sectorsPerBlock) gap).reads := by
  rw [tryJoin]
  cases tiles : gapBetween settings.maxGapBlocks a b with
  | none => exact .inl rfl
  | some gap =>
    refine .inr ⟨gap, gapBetween_eq_some.mp tiles, ?_⟩
    cases h : (checkGap image (a.physicalEnd + sectorsPerBlock) gap).obstacle <;> simp only [h]

theorem tryJoin_reads_increasing (settings : Settings) (image : Image) (a b : Run) :
    (tryJoin settings image a b).reads.Pairwise (· < ·) := by
  rcases tryJoin_reads_cases settings image a b with nothing | ⟨gap, -, reads⟩
  · rw [nothing]
    exact .nil
  · rw [reads]
    exact (List.pairwise_lt_range' _ (by decide)).sublist (checkGap_reads_range _ _ _).sublist

/-- An attempt that asks for few blocks, and for none after one that is not null or cannot be read. -/
structure Attempt.Frugal (maxGap : Nat) (image : Image) (attempt : Attempt) : Prop where
  few : attempt.reads.length ≤ maxGap
  null_before_last : ∀ read ∈ attempt.reads.dropLast, image.blockIsNull read = .ok true

theorem tryJoin_frugal (settings : Settings) (image : Image) (a b : Run) :
    (tryJoin settings image a b).Frugal settings.maxGapBlocks image := by
  rcases tryJoin_reads_cases settings image a b with nothing | ⟨gap, tiles, reads⟩
  · constructor <;> simp [nothing]
  · constructor
    · have bound := (checkGap_reads_range image (a.physicalEnd + sectorsPerBlock) gap).length_le
      rw [List.length_range'] at bound
      rw [reads]
      exact bound.trans tiles.gap_le
    · rw [reads]
      exact checkGap_null_before_last _ _ _

structure Run.Between (a b : Run) (sector : Nat) : Prop where
  left_class : FragmentSearch.alignment sector = a.alignment
  right_class : FragmentSearch.alignment sector = b.alignment
  after_end : a.physicalEnd + sectorsPerBlock ≤ sector
  before_start : sector + sectorsPerBlock ≤ b.physicalStart

theorem tryJoin_reads_between (ends : grown.EndsAs a) (aligned : a.Aligned)
    (read : sector ∈ (tryJoin settings image grown b).reads) : a.Between b sector := by
  rcases tryJoin_reads_cases settings image grown b with nothing | ⟨gap, tiles, reads⟩
  · rw [nothing] at read
    exact absurd read List.not_mem_nil
  · rw [reads] at read
    obtain ⟨k, inside, rfl⟩ := List.mem_range'.mp ((checkGap_reads_range _ _ _).subset read)
    have tiles := ends.tiles_iff.mp tiles
    have next := tiles.start_eq aligned
    have last := ends.physicalEnd_eq
    have class_eq :
        FragmentSearch.alignment (grown.physicalEnd + sectorsPerBlock + sectorsPerBlock * k) = a.alignment := by
      rw [← aligned.alignment_end, last]
      simp only [FragmentSearch.alignment, sectorsPerBlock]
      omega
    refine ⟨class_eq, class_eq.trans tiles.alignment_eq, ?_, ?_⟩
    · omega
    · simp only [sectorsPerBlock] at next ⊢
      omega

section Ordered

variable {last whole next : Run} {rest : List Run}

theorem read_lt_later (ends : whole.EndsAs last) (lastAligned : last.Aligned) (grownEnds : grown.EndsAs next)
    (aligned : ∀ run ∈ next :: rest, run.Aligned) (ordered : (next :: rest).Pairwise Run.EndsBefore) {r s : Nat}
    (hr : r ∈ (tryJoin settings image whole next).reads)
    (hs : s ∈ (mergeFrom (tryJoin settings image) grown rest).reads)
    (same : FragmentSearch.alignment r = FragmentSearch.alignment s) : r < s := by
  obtain ⟨nextAligned, restAligned⟩ := List.forall_mem_cons.mp aligned
  obtain ⟨attempt, made, hs⟩ := List.mem_flatMap.mp hs
  obtain ⟨a, b, left, neighbours, leftEnds, rfl⟩ := attempts_mergeFrom restAligned grownEnds attempt made
  have member : a ∈ next :: rest := neighbours.subset List.mem_cons_self
  have before := tryJoin_reads_between ends lastAligned hr
  have behind := tryJoin_reads_between leftEnds (aligned a member) hs
  have nextSpan := nextAligned.start_le_end
  have low := before.before_start
  have high := behind.after_end
  simp only [sectorsPerBlock] at low high
  rcases List.mem_cons.mp member with rfl | later
  · omega
  · have classes : next.alignment = a.alignment := before.right_class.symm.trans (same.trans behind.left_class)
    have apart := (List.pairwise_cons.mp ordered).1 a later classes
    have span := (aligned a member).start_le_end
    omega

theorem mergeFrom_reads_ordered (aligned : ∀ run ∈ last :: rest, run.Aligned)
    (ordered : (last :: rest).Pairwise Run.EndsBefore) (ends : whole.EndsAs last) :
    (mergeFrom (tryJoin settings image) whole rest).reads.Pairwise
      fun r s => FragmentSearch.alignment r = FragmentSearch.alignment s → r < s := by
  induction rest generalizing last whole with
  | nil => exact .nil
  | cons next rest ih =>
    obtain ⟨lastAligned, aligned⟩ := List.forall_mem_cons.mp aligned
    have nextAligned := aligned next List.mem_cons_self
    have ordered := (List.pairwise_cons.mp ordered).2
    have onward : ∀ grown : Run, grown.EndsAs next →
        ((tryJoin settings image whole next).reads ++
          (mergeFrom (tryJoin settings image) grown rest).reads).Pairwise
            fun r s => FragmentSearch.alignment r = FragmentSearch.alignment s → r < s := by
      intro grown grownEnds
      refine List.pairwise_append.mpr ⟨?_, ih aligned ordered grownEnds, ?_⟩
      · apply (tryJoin_reads_increasing settings image whole next).imp
        exact fun less _ => less
      · exact fun r hr s hs same => read_lt_later ends lastAligned grownEnds aligned ordered hr hs same
    rw [mergeFrom]
    cases hj : (tryJoin settings image last next).joined with
    | none =>
      simp only [ends.joined_eq_none hj]
      exact onward next (.refl nextAligned)
    | some joined =>
      obtain ⟨gap, tiles, together⟩ := ends.joined_eq_some hj
      simp only [together]
      exact onward _ (ends.join _ tiles nextAligned)

end Ordered

end Attempts

namespace Search

variable {search : Search} {source : Nat} {image : Image}

theorem merged_reads_ordered (search : Search) (image : Image) (source : Nat) :
    (search.merged (some image) (search.candidateRuns source)).reads.Pairwise
      fun r s => alignment r = alignment s → r < s := by
  have ordered := search.candidateRuns_endsBefore source
  rw [merged_candidateRuns]
  cases hc : search.candidateRuns source with
  | nil => exact .nil
  | cons first rest =>
    rw [hc] at ordered
    have aligned := List.forall_mem_cons.mpr (aligned_candidates hc)
    exact mergeFrom_reads_ordered aligned ordered (.refl (aligned first List.mem_cons_self))

theorem read_of_merged {sector : Nat}
    (h : sector ∈ (search.merged (some image) (search.candidateRuns source)).reads) :
    ∃ a b, [a, b] <:+: search.candidateRuns source ∧ a.Between b sector := by
  obtain ⟨attempt, made, read⟩ := List.mem_flatMap.mp h
  obtain ⟨a, b, grown, neighbours, ends, rfl⟩ := attempt_of_merged made
  have aligned := aligned_candidate (neighbours.subset List.mem_cons_self)
  exact ⟨a, b, neighbours, tryJoin_reads_between ends aligned read⟩

theorem merged_requests (search : Search) (source : Nat) (image : Image) :
    let candidates := search.candidateRuns source
    let merge := search.merged (some image) candidates
    let requests := merge.attempts.flatMap fun attempt => attempt.reads.map Request.ofBlock
    (Asking.mergeRuns search.settings image candidates).run [] = (merge.runs, requests) ∧
      (∀ c, (requests.filter fun request => alignment (sectorOf request.offset) = c).Pairwise (·.offset < ·.offset)) ∧
      requests.Nodup ∧
      (∀ request ∈ requests, ∃ a b sector, [a, b] <:+: candidates ∧ a.Between b sector ∧ request = .ofBlock sector) ∧
      ∀ attempt ∈ merge.attempts, attempt.Frugal search.settings.maxGapBlocks image := by
  intro candidates merge requests
  have listed : requests = merge.reads.map Request.ofBlock := by
    rw [Merge.reads, List.map_flatMap]
  have ordered : requests.Pairwise fun r s =>
      alignment (sectorOf r.offset) = alignment (sectorOf s.offset) → r.offset < s.offset := by
    rw [listed, List.pairwise_map]
    apply (search.merged_reads_ordered image source).imp
    intro r s increasing same
    rw [Request.sectorOf_ofBlock, Request.sectorOf_ofBlock] at same
    exact Nat.mul_lt_mul_of_pos_right (increasing same) (by decide)
  refine ⟨?_, ?_, ?_, ?_, ?_⟩
  · rw [Asking.run_mergeRuns, List.nil_append, listed]
    rfl
  · intro c
    apply (ordered.filter _).imp_of_mem
    intro r s hr hs increasing
    have ofClass := of_decide_eq_true (List.mem_filter.mp hr).2
    exact increasing (ofClass.trans (of_decide_eq_true (List.mem_filter.mp hs).2).symm)
  · apply ordered.imp
    rintro r s increasing rfl
    exact Nat.lt_irrefl _ (increasing rfl)
  · intro request member
    rw [listed] at member
    obtain ⟨sector, read, rfl⟩ := List.mem_map.mp member
    obtain ⟨a, b, neighbours, between⟩ := read_of_merged read
    exact ⟨a, b, sector, neighbours, between, rfl⟩
  · intro attempt made
    obtain ⟨a, b, grown, -, -, rfl⟩ := attempt_of_merged made
    exact tryJoin_frugal search.settings image grown b

theorem merged_requests_across_classes :
    let records : List Record := [.association ⟨"a", ⟨1, none⟩, [⟨1, 0⟩]⟩, .association ⟨"c", ⟨2, none⟩, [⟨1, 8192⟩]⟩,
      .association ⟨"e", ⟨1, none⟩, [⟨1, 16384⟩]⟩]
    let observations : List Observation := [⟨0, "a", none, .none⟩, ⟨512, "a", none, .none⟩, ⟨8192, "c", none, .none⟩,
      ⟨8704, "c", none, .none⟩, ⟨16384, "e", none, .none⟩]
    let catalog := Catalog.load (fun _ => 0) (Candidates.select {} records) records
    let search : Search := { catalog, sightings := catalog.sightings observations, settings := {} }
    let image : Image :=
      { Image.ofBytes 8192 (fun _ => 0) with
        seekFault := fun offset => if offset = 4608 then some .shortRead else none }
    let candidates := search.candidateRuns 1
    let merge := search.merged (some image) candidates
    let requests := [8, 24, 9].map Request.ofBlock
    merge.attempts.map (·.reads) = [[8], [24], [], [9]] ∧
      (Asking.mergeRuns search.settings image candidates).run [] = (merge.runs, requests) ∧ requests.Nodup ∧
      (requests.filter fun request => alignment (sectorOf request.offset) = 0).Pairwise (·.offset < ·.offset) ∧
      (∃ a b sector, [a, b] <:+: candidates ∧ a.Between b sector ∧ Request.ofBlock 24 = .ofBlock sector) ∧
      ∀ attempt ∈ merge.attempts, attempt.Frugal 1024 image := by
  intro records observations catalog search image candidates merge requests
  have reads : merge.attempts.map (·.reads) = [[8], [24], [], [9]] := by decide +kernel
  have same : (merge.attempts.flatMap fun attempt => attempt.reads.map Request.ofBlock) = requests := by
    rw [← List.map_flatMap, List.flatMap_def, reads]
    rfl
  obtain ⟨asked, increasing, apart, inGaps, frugal⟩ := merged_requests search 1 image
  rw [same] at asked increasing apart inGaps
  exact ⟨reads, asked, apart, increasing 0, inGaps _ (by decide), frugal⟩

end Search

end FragmentSearch
