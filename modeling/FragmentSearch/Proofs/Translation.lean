import Mathlib.Data.List.Sort
import Mathlib.Data.List.SplitBy
import FragmentSearch.Proofs.GapReads
import FragmentSearch.Proofs.Ordering
import FragmentSearch.Proofs.RunOrder
import FragmentSearch.Proofs.SightedSectors

namespace FragmentSearch

theorem splitBy_map {α β : Type} (f : α → β) (r : β → β → Bool) (list : List α) :
    (list.map f).splitBy r = (list.splitBy fun a b => r (f a) (f b)).map (List.map f) := by
  apply List.splitBy_eq_iff.mpr
  refine ⟨?_, ?_, ?_, ?_⟩
  · rw [← List.map_flatten, List.flatten_splitBy]
  · intro empty
    obtain ⟨row, cut, nothing⟩ := List.mem_map.mp empty
    exact List.ne_nil_of_mem_splitBy cut (List.map_eq_nil_iff.mp nothing)
  · intro row member
    obtain ⟨before, cut, rfl⟩ := List.mem_map.mp member
    exact (List.isChain_map f).mpr (List.isChain_of_mem_splitBy cut)
  · rw [List.isChain_map]
    apply (List.isChain_getLast_head_splitBy _ list).imp
    rintro left right ⟨hl, hr, unrelated⟩
    refine ⟨by simpa using hl, by simpa using hr, ?_⟩
    rw [List.getLast_map, List.head_map]
    exact unrelated

theorem sorted_map {α β : Type} {le : α → α → Bool} {le' : β → β → Bool} {f : α → β}
    (same : ∀ a b, le' (f a) (f b) = le a b) (list : List α) : sorted le' (list.map f) = (sorted le list).map f := by
  rw [sorted_eq_mergeSort, sorted_eq_mergeSort]
  exact (List.map_mergeSort fun a _ b _ => (same a b).symm).symm

@[simp]
theorem alignment_add_blocks (sector k : Nat) : alignment (sector + k * sectorsPerBlock) = alignment sector := by
  simp [alignment]

def Observation.moved (k : Nat) (o : Observation) : Observation := { o with offset := o.offset + k * blockSize }

theorem Observation.sector_moved (k : Nat) (o : Observation) :
    (o.moved k).sector = o.sector + k * sectorsPerBlock := by
  simp only [sector, moved, sectorOf, sectorSize, blockSize, sectorsPerBlock]
  omega

def Placement.moved (k : Nat) (p : Placement) : Placement := { p with sector := p.sector + k * sectorsPerBlock }

def Run.moved (k : Nat) (run : Run) : Run := { run with placements := run.placements.map (Placement.moved k) }

section Placements

variable (k : Nat)

@[simp]
theorem Placement.leadsTo_moved (a b : Placement) : (a.moved k).leadsTo (b.moved k) = a.leadsTo b := by
  have sectors : a.sector + k * sectorsPerBlock + sectorsPerBlock = b.sector + k * sectorsPerBlock ↔
      a.sector + sectorsPerBlock = b.sector := by
    omega
  simp only [leadsTo, moved, sectors]

theorem compare_add_right (a b n : Nat) : compare (a + n) (b + n) = compare a b := by
  rcases Nat.lt_trichotomy a b with less | rfl | greater
  · rw [Nat.compare_eq_lt.mpr less, Nat.compare_eq_lt.mpr (Nat.add_lt_add_right less n)]
  · rw [Nat.compare_eq_eq.mpr rfl, Nat.compare_eq_eq.mpr rfl]
  · rw [Nat.compare_eq_gt.mpr greater, Nat.compare_eq_gt.mpr (Nat.add_lt_add_right greater n)]

@[simp]
theorem Placement.atMost_moved (a b : Placement) : (a.moved k).atMost (b.moved k) = a.atMost b := by
  simp only [atMost, moved, count, compare_add_right]

@[simp]
theorem firstBlock_moved (row : List Placement) : firstBlock (row.map (Placement.moved k)) = firstBlock row := by
  rcases row with _ | ⟨first, _ | ⟨second, rest⟩⟩ <;> rfl

@[simp]
theorem lastBlock_moved (row : List Placement) : lastBlock (row.map (Placement.moved k)) = lastBlock row := by
  rcases row with _ | ⟨last, _ | ⟨previous, before⟩⟩ <;> rfl

@[simp]
theorem Run.ofPlacements_moved (gapWeight : Float) (source : Nat) (row : List Placement) :
    Run.ofPlacements gapWeight source (row.map (Placement.moved k)) =
      (Run.ofPlacements gapWeight source row).moved k := by
  have weights : (row.map (Placement.moved k)).map (Placement.weight gapWeight) =
      row.map (Placement.weight gapWeight) := by
    rw [List.map_map]
    rfl
  simp only [ofPlacements, moved, weights, firstBlock_moved, ← List.map_reverse, lastBlock_moved]

theorem chainRuns_moved (gapWeight : Float) (source : Nat) (bucket : List Placement) :
    chainRuns gapWeight source (bucket.map (Placement.moved k)) =
      (chainRuns gapWeight source bucket).map (Run.moved k) := by
  simp [chainRuns, chains, splitBy_map, Function.comp_def]

end Placements

namespace Run

variable {k maxGap gap : Nat} {run a b : Run}

theorem physicalStart_moved (hn : run.placements ≠ []) :
    (run.moved k).physicalStart = run.physicalStart + k * sectorsPerBlock := by
  have first := List.head?_eq_some_head hn
  rw [physicalStart_eq first, physicalStart, moved, List.head?_map, first]
  rfl

theorem physicalEnd_moved (hn : run.placements ≠ []) :
    (run.moved k).physicalEnd = run.physicalEnd + k * sectorsPerBlock := by
  have last := List.getLast?_eq_getLast_of_ne_nil hn
  rw [physicalEnd_eq last, physicalEnd, moved, List.getLast?_map, last]
  rfl

@[simp]
theorem alignment_moved (k : Nat) (run : Run) : (run.moved k).alignment = run.alignment := by
  by_cases hn : run.placements = []
  · simp [alignment, physicalStart, moved, hn]
  · rw [alignment, physicalStart_moved hn, alignment_add_blocks, alignment]

@[simp]
theorem isEmpty_moved : (run.moved k).isEmpty = run.isEmpty := by
  simp [isEmpty, moved]

@[simp]
theorem gapBetween_moved (k maxGap : Nat) (a b : Run) :
    gapBetween maxGap (a.moved k) (b.moved k) = gapBetween maxGap a b := by
  by_cases ha : a.placements = []
  · simp [gapBetween, isEmpty, moved, ha]
  by_cases hb : b.placements = []
  · simp [gapBetween, isEmpty, moved, hb]
  simp only [gapBetween, isEmpty_moved, alignment_moved, physicalStart_moved ha, physicalStart_moved hb,
    physicalEnd_moved ha, Nat.add_sub_add_right, Nat.add_le_add_iff_right]
  rfl

theorem tiles_moved_iff : (a.moved k).Tiles maxGap (b.moved k) gap ↔ a.Tiles maxGap b gap := by
  rw [← gapBetween_eq_some, gapBetween_moved, gapBetween_eq_some]

theorem join_moved (gapWeight : Float) (ha : a.placements ≠ []) :
    (a.moved k).join gapWeight (b.moved k) gap = (a.join gapWeight b gap).moved k := by
  have between : (a.moved k).gapAfter gap = (a.gapAfter gap).map (Placement.moved k) := by
    simp only [gapAfter, List.map_map, physicalEnd_moved ha]
    apply List.map_congr_left
    intro j _
    simp only [Function.comp_apply, Placement.moved, Placement.gap, Nat.add_right_comm]
    rfl
  simp only [join, between]
  simp only [moved, List.map_append]

end Run

@[simp]
theorem Settings.keeps_moved (settings : Settings) (k : Nat) (run : Run) :
    settings.keeps (run.moved k) = settings.keeps run := by
  have unique : (run.moved k).hasUnique = run.hasUnique := by
    simp only [Run.hasUnique, Run.moved, List.any_map]
    rfl
  have least : (run.moved k).leastCount = run.leastCount := by
    simp only [Run.leastCount, Run.moved, List.filterMap_map]
    rfl
  have length : (run.moved k).length = run.length := List.length_map _
  simp only [keeps, unique, least, length]

/-- What can be read of a block of the image, and nothing else, can be read `k` blocks further on in the other. -/
def Image.MovedTo (k : Nat) (image later : Image) : Prop :=
  ∀ offset bytes, later.read (offset + k * blockSize) blockSize = .ok bytes ↔ image.read offset blockSize = .ok bytes

section Joining

variable {k : Nat} {settings : Settings} {image later : Image}

theorem Image.MovedTo.blockIsNull_iff (h : image.MovedTo k later) (sector : Nat) :
    later.blockIsNull (sector + k * sectorsPerBlock) = .ok true ↔ image.blockIsNull sector = .ok true := by
  have offset : (sector + k * sectorsPerBlock) * sectorSize = sector * sectorSize + k * blockSize := by
    rw [Nat.add_mul, Nat.mul_assoc, blockSize_eq]
  simp only [blockIsNull_iff_read, offset, h (sector * sectorSize)]

theorem Image.MovedTo.clear_iff (h : image.MovedTo k later) (sector gap : Nat) :
    (checkGap later (sector + k * sectorsPerBlock) gap).obstacle = none ↔
      (checkGap image sector gap).obstacle = none := by
  rw [checkGap_clear_iff, checkGap_clear_iff]
  apply forall₂_congr
  intro j _
  rw [Nat.add_right_comm, h.blockIsNull_iff]

theorem Image.MovedTo.tryJoin_moved (h : image.MovedTo k later) (a b : Run) :
    (tryJoin settings later (a.moved k) (b.moved k)).joined =
      (tryJoin settings image a b).joined.map (Run.moved k) := by
  apply Option.ext
  intro joined
  rw [tryJoin_joined, Option.map_eq_some_iff]
  simp only [Run.tiles_moved_iff, tryJoin_joined]
  constructor
  · rintro ⟨gap, tiles, clear, rfl⟩
    rw [Run.physicalEnd_moved tiles.left_ne, Nat.add_right_comm, h.clear_iff] at clear
    exact ⟨_, ⟨gap, tiles, clear, rfl⟩, (Run.join_moved _ tiles.left_ne).symm⟩
  · rintro ⟨_, ⟨gap, tiles, clear, rfl⟩, rfl⟩
    refine ⟨gap, tiles, ?_, (Run.join_moved _ tiles.left_ne).symm⟩
    rw [Run.physicalEnd_moved tiles.left_ne, Nat.add_right_comm, h.clear_iff]
    exact clear

theorem Image.MovedTo.mergeFrom_moved (h : image.MovedTo k later) (previous : Run) (rest : List Run) :
    (mergeFrom (tryJoin settings later) (previous.moved k) (rest.map (Run.moved k))).runs =
      (mergeFrom (tryJoin settings image) previous rest).runs.map (Run.moved k) := by
  induction rest generalizing previous with
  | nil => rfl
  | cons next rest ih =>
    have moved : (tryJoin settings later (previous.moved k) (next.moved k)).joined =
        (tryJoin settings image previous next).joined.map (Run.moved k) := h.tryJoin_moved previous next
    rw [List.map_cons]
    cases hj : (tryJoin settings image previous next).joined with
    | none =>
      rw [hj] at moved
      rw [mergeFrom_apart moved, mergeFrom_apart hj, ih, List.map_cons]
    | some joined =>
      rw [hj] at moved
      rw [mergeFrom_joined moved, mergeFrom_joined hj, ih]

end Joining

namespace Image

def prepend (head : List UInt8) (image : Image) : Image :=
  { seekFault := fun offset => if offset < head.length then none else image.seekFault (offset - head.length)
    byte := fun place => match head[place]? with
      | some byte => .ok byte
      | none => image.byte (place - head.length) }

theorem prepend_ofBytes (head : List UInt8) (size : Nat) (byte : Nat → UInt8) :
    (ofBytes size byte).prepend head =
      ofBytes (head.length + size) fun place => head[place]?.getD (byte (place - head.length)) := by
  simp only [prepend, ofBytes, Image.mk.injEq, ite_self, true_and]
  funext place
  by_cases inHead : place < head.length
  · have inside : place < head.length + size := by omega
    simp [inHead, inside]
  · have after : head.length ≤ place := by omega
    have bound : place - head.length < size ↔ place < head.length + size := by omega
    simp [List.getElem?_eq_none after, bound]

theorem byte_prepend (head : List UInt8) (image : Image) (place : Nat) :
    (image.prepend head).byte (place + head.length) = image.byte place := by
  simp [prepend]

theorem read_prepend (head : List UInt8) (image : Image) (offset length : Nat) (bytes : List UInt8) :
    (image.prepend head).read (offset + head.length) length = .ok bytes ↔ image.read offset length = .ok bytes := by
  have places : (List.range' (offset + head.length) length).mapM (image.prepend head).byte =
      (List.range' offset length).mapM image.byte := by
    rw [Nat.add_comm, ← List.map_add_range', List.mapM_map]
    congr 1
    funext place
    rw [Function.comp_apply, Nat.add_comm, byte_prepend]
  have seek : (image.prepend head).seekFault (offset + head.length) = image.seekFault offset := by
    simp [prepend]
  rw [read, read, seek, places]
  cases image.seekFault offset with
  | some fault => simp
  | none => cases (List.range' offset length).mapM image.byte <;> simp [Except.mapError]

theorem movedTo_prepend {k : Nat} {head : List UInt8} (hl : head.length = k * blockSize) (image : Image) :
    image.MovedTo k (image.prepend head) := by
  intro offset bytes
  rw [← hl]
  exact read_prepend head image offset blockSize bytes

theorem read_inFile {offset : Nat} (h : offset < seekLimit) (image : Image) (length : Nat) :
    image.inFile.read offset length = image.read offset length := by
  have seek : image.inFile.seekFault offset = image.seekFault offset := if_pos h
  rw [read, read, seek]
  rfl

theorem read_inFile_beyond {size offset : Nat} (beyond : size ≤ offset) (byte : Nat → UInt8) (bytes : List UInt8) :
    (ofBytes size byte).inFile.read offset blockSize ≠ .ok bytes := by
  have short : (ofBytes size byte).inFile.byte offset = .error .shortRead := if_neg (Nat.not_lt.mpr beyond)
  have places : List.range' offset blockSize = offset :: List.range' (offset + 1) 4095 := rfl
  rw [read, places, List.mapM_cons, short]
  cases (ofBytes size byte).inFile.seekFault offset <;> simp [bind, Except.bind, Except.mapError]

theorem movedTo_prepend_inFile {k : Nat} {head : List UInt8} (hl : head.length = k * blockSize) {size : Nat}
    (fits : head.length + size ≤ seekLimit) (byte : Nat → UInt8) :
    (ofBytes size byte).inFile.MovedTo k ((ofBytes size byte).prepend head).inFile := by
  intro offset bytes
  rw [← hl]
  by_cases beyond : size ≤ offset
  · have beyondBoth : head.length + size ≤ offset + head.length := by omega
    apply iff_of_false _ (read_inFile_beyond beyond byte bytes)
    rw [prepend_ofBytes]
    exact read_inFile_beyond beyondBoth _ bytes
  · rw [read_inFile (by omega), read_inFile (by omega)]
    exact read_prepend head _ offset blockSize bytes

end Image

namespace Sightings

theorem sectorsOf_moved (catalog : Catalog) (observations : List Observation) (k : Nat) (hash : String) :
    (catalog.sightings (observations.map (Observation.moved k))).sectorsOf hash =
      ((catalog.sightings observations).sectorsOf hash).map (· + k * sectorsPerBlock) := by
  have known : catalog.known (observations.map (Observation.moved k)) =
      (catalog.known observations).map (Observation.moved k) := List.filter_map
  have ascending : (((catalog.sightings observations).sectorsOf hash).map (· + k * sectorsPerBlock)).Pairwise
      (· < ·) :=
    List.pairwise_map.mpr ((ascending_sectorsOf _ _).imp fun less => Nat.add_lt_add_right less _)
  apply (ascending_sectorsOf _ _).eq_of_mem_iff ascending
  intro sector
  simp only [Catalog.sightings, known, mem_sectorsOf_ofList, List.mem_map]
  constructor
  · rintro ⟨_, ⟨o, member, rfl⟩, rfl, rfl⟩
    exact ⟨o.sector, ⟨o, member, rfl, rfl⟩, (o.sector_moved k).symm⟩
  · rintro ⟨_, ⟨o, member, rfl, rfl⟩, rfl⟩
    exact ⟨o.moved k, ⟨o, member, rfl⟩, rfl, o.sector_moved k⟩

end Sightings

namespace Search

variable {search other : Search} {k : Nat} {source : Nat}

structure MovedTo (k : Nat) (search other : Search) : Prop where
  catalog : other.catalog = search.catalog
  settings : other.settings = search.settings
  sectors : ∀ hash, other.sightings.sectorsOf hash = (search.sightings.sectorsOf hash).map (· + k * sectorsPerBlock)

theorem MovedTo.placements_eq (h : search.MovedTo k other) (source : Nat) :
    other.placements source = (search.placements source).map (Placement.moved k) := by
  rw [placements, placements, h.catalog, List.map_flatMap]
  apply List.flatMap_congr
  intro hash _
  split
  · rw [h.sectors, List.map_map, List.map_map]
    rfl
  · rfl

theorem MovedTo.bucket_eq (h : search.MovedTo k other) (source c : Nat) :
    other.bucket source c = (search.bucket source c).map (Placement.moved k) := by
  have sameClass : ((fun p : Placement => decide (alignment p.sector = c)) ∘ Placement.moved k) =
      fun p => decide (alignment p.sector = c) := by
    funext p
    simp [Placement.moved]
  rw [bucket, h.placements_eq, List.filter_map, sameClass, sorted_map (Placement.atMost_moved k), bucket]

theorem MovedTo.candidateRuns_eq (h : search.MovedTo k other) (source : Nat) :
    other.candidateRuns source = (search.candidateRuns source).map (Run.moved k) := by
  simp only [candidateRuns_eq_flatMap, h.bucket_eq, h.settings, chainRuns_moved, List.map_flatten, List.map_map,
    Function.comp_def]

theorem MovedTo.merged_eq (h : search.MovedTo k other) {image later : Image} (images : image.MovedTo k later)
    (source : Nat) : (other.merged (some later) (other.candidateRuns source)).runs =
      (search.merged (some image) (search.candidateRuns source)).runs.map (Run.moved k) := by
  rw [merged_candidateRuns, merged_candidateRuns, h.candidateRuns_eq, h.settings]
  cases search.candidateRuns source with
  | nil => rfl
  | cons first rest => exact images.mergeFrom_moved first rest

theorem MovedTo.find_eq (h : search.MovedTo k other) {image later : Option Image}
    (merged : ∀ source, (other.merged later (other.candidateRuns source)).runs =
      (search.merged image (search.candidateRuns source)).runs.map (Run.moved k)) :
    other.find later = (search.find image).map (Run.moved k) := by
  simp [find_eq_flatMap, merged, h.catalog, h.settings, List.map_flatMap, List.filter_map, Function.comp_def]

theorem find_moved (catalog : Catalog) (settings : Settings) (observations : List Observation) (k : Nat) :
    let found := fun observations image =>
      ({ catalog, sightings := catalog.sightings observations, settings } : Search).find image
    let moved := observations.map (Observation.moved k)
    found moved none = (found observations none).map (Run.moved k) ∧
      (∀ head : List UInt8, head.length = k * blockSize →
        (∀ image, found moved (some (image.prepend head)) = (found observations (some image)).map (Run.moved k)) ∧
        ∀ size byte, head.length + size ≤ Image.seekLimit →
          found moved (some ((Image.ofBytes size byte).prepend head).inFile) =
            (found observations (some (Image.ofBytes size byte).inFile)).map (Run.moved k)) ∧
      ∀ run : Run, (run.moved k).alignment = run.alignment := by
  intro found moved
  let search : Search := { catalog, sightings := catalog.sightings observations, settings }
  let other : Search := { catalog, sightings := catalog.sightings moved, settings }
  have searches : search.MovedTo k other := ⟨rfl, rfl, Sightings.sectorsOf_moved catalog observations k⟩
  have behind : ∀ image later : Image, image.MovedTo k later →
      found moved (some later) = (found observations (some image)).map (Run.moved k) :=
    fun image later images => searches.find_eq (searches.merged_eq images)
  refine ⟨searches.find_eq searches.candidateRuns_eq, fun head length => ⟨fun image => ?_, fun size byte fits => ?_⟩,
    Run.alignment_moved k⟩
  · exact behind image _ (image.movedTo_prepend length)
  · exact behind _ _ (Image.movedTo_prepend_inFile length fits byte)

theorem find_moved_across_gap :
    let records : List Record := [.association ⟨"a", ⟨1, none⟩, [⟨1, 0⟩]⟩, .association ⟨"b", ⟨2, none⟩, [⟨1, 4096⟩]⟩,
      .association ⟨"d", ⟨1, none⟩, [⟨1, 12288⟩]⟩]
    let observations : List Observation := [⟨0, "a", none, .none⟩, ⟨4096, "b", none, .none⟩, ⟨12300, "d", none, .none⟩]
    let catalog := Catalog.load (fun _ => 0) (Candidates.select {} records) records
    let search := fun observations => Search.mk catalog (catalog.sightings observations) {}
    let found := fun observations image => ((search observations).find image).map (·.placements)
    let moved := observations.map (Observation.moved 1)
    let head := List.replicate 4096 (1 : UInt8)
    let image := Image.ofBytes 16384 fun _ => 0
    head.length = 1 * blockSize ∧ head.length + 16384 ≤ Image.seekLimit ∧
      found observations (some image) =
        [[⟨0, [0], .hash 1⟩, ⟨8, [1], .hash 2⟩, ⟨16, [2], .nullGap⟩, ⟨24, [3], .hash 1⟩]] ∧
      found moved (some (image.prepend head)) =
        [[⟨8, [0], .hash 1⟩, ⟨16, [1], .hash 2⟩, ⟨24, [2], .nullGap⟩, ⟨32, [3], .hash 1⟩]] ∧
      found moved (some (image.prepend head).inFile) = found moved (some (image.prepend head)) ∧
      found moved none = [[⟨8, [0], .hash 1⟩, ⟨16, [1], .hash 2⟩]] := by
  intro records observations catalog search found moved head image
  obtain ⟨unread, behind, -⟩ := find_moved catalog {} observations 1
  have length : head.length = 1 * blockSize := List.length_replicate
  have fits : head.length + 16384 ≤ Image.seekLimit := by rw [length]; decide
  obtain ⟨memory, file⟩ := behind head length
  refine ⟨length, fits, by decide +kernel, ?_, ?_, ?_⟩
  · simp only [found, search, moved, memory]
    decide +kernel
  · simp only [found, search, moved, memory, image, file 16384 _ fits]
    decide +kernel
  · simp only [found, search, moved, unread]
    decide +kernel

end Search

end FragmentSearch
