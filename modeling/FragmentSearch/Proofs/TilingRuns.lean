import FragmentSearch.Proofs.GapReads
import FragmentSearch.Proofs.WordSearch

namespace FragmentSearch

theorem forall_blocks_iff {P : Nat → Prop} {start blocks : Nat} :
    (∀ k < blocks, ∀ j < blockSize, P (start + k * blockSize + j)) ↔
      ∀ place, start ≤ place → place < start + blocks * blockSize → P place := by
  simp only [blockSize]
  constructor
  · intro all place low high
    have inBlock : (place - start) / 4096 < blocks := by omega
    have byte := all _ inBlock ((place - start) % 4096) (Nat.mod_lt _ (by decide))
    have same : start + (place - start) / 4096 * 4096 + (place - start) % 4096 = place := by omega
    rwa [same] at byte
  · intro all k hk j hj
    apply all <;> omega

section Check

variable {size : Nat} {byte : Nat → UInt8}

theorem byte_ofBytes_eq_zero_iff {place : Nat} :
    (Image.ofBytes size byte).byte place = .ok 0 ↔ place < size ∧ byte place = 0 := by
  by_cases inside : place < size <;> simp [Image.ofBytes, inside]

theorem checkGap_ofBytes_iff {sector blocks : Nat} :
    (checkGap (.ofBytes size byte) sector blocks).obstacle = none ↔
      ∀ place, sector * sectorSize ≤ place → place < (sector + blocks * sectorsPerBlock) * sectorSize →
        place < size ∧ byte place = 0 := by
  have length : (sector + blocks * sectorsPerBlock) * sectorSize = sector * sectorSize + blocks * blockSize := by
    simp only [sectorsPerBlock, sectorSize, blockSize]
    omega
  have offset (k : Nat) : (sector + k * sectorsPerBlock) * sectorSize = sector * sectorSize + k * blockSize := by
    simp only [sectorsPerBlock, sectorSize, blockSize]
    omega
  rw [length, checkGap_clear_iff, ← forall_blocks_iff]
  simp only [Image.blockIsNull_iff, byte_ofBytes_eq_zero_iff, offset]
  exact ⟨fun null k hk => (null k hk).2, fun null k hk => ⟨rfl, null k hk⟩⟩

end Check

namespace Run

structure Continues (a b : Run) (gap : Nat) : Prop where
  source_eq : a.source = b.source
  alignment_eq : a.alignment = b.alignment
  sector_eq : b.physicalStart = a.physicalEnd + sectorsPerBlock * (gap + 1)
  block_eq : b.logicalStart = a.logicalEnd + gap + 1
  straight : a.logicalEnd = a.logicalStart + (a.length - 1)

variable {a b : Run} {maxGap gap : Nat}

theorem tiles_iff_continues (ha : a.Aligned) (hb : b.placements ≠ []) :
    a.Tiles maxGap b gap ↔ gap ≤ maxGap ∧ a.Continues b gap := by
  have span := ha.end_eq
  simp only [sectorsPerBlock] at span
  constructor
  · intro t
    have next := t.start_eq ha
    have distance := t.distance
    have forward := t.forward
    have adjoins := t.adjoins
    simp only [sectorsPerBlock] at next distance
    refine ⟨t.gap_le, t.source_eq, t.alignment_eq, ?_, by omega, by omega⟩
    simp only [sectorsPerBlock]
    omega
  · rintro ⟨le, c⟩
    have next := c.sector_eq
    have onward := c.block_eq
    have straight := c.straight
    simp only [sectorsPerBlock] at next
    refine ⟨ha.ne_nil, hb, c.source_eq, c.alignment_eq, by omega, by omega, ?_, ?_, by omega, le⟩
    · simp only [sectorsPerBlock]
      omega
    · simp only [sectorsPerBlock]
      omega

/-- Every byte between the last block of the first run and the second run is there, and is zero. -/
def NullUpTo (size : Nat) (byte : Nat → UInt8) (a b : Run) : Prop :=
  ∀ place, sectorSize * (a.physicalEnd + sectorsPerBlock) ≤ place → place < sectorSize * b.physicalStart →
    place < size ∧ byte place = 0

theorem Tiles.clear_iff {size : Nat} {byte : Nat → UInt8} (t : a.Tiles maxGap b gap) (aligned : a.Aligned) :
    (checkGap (.ofBytes size byte) (a.physicalEnd + sectorsPerBlock) gap).obstacle = none ↔
      a.NullUpTo size byte b := by
  have finish : (a.physicalEnd + sectorsPerBlock + gap * sectorsPerBlock) = b.physicalStart := by
    rw [t.start_eq aligned, Nat.succ_mul]
    omega
  rw [checkGap_ofBytes_iff, finish, NullUpTo, Nat.mul_comm _ sectorSize, Nat.mul_comm _ sectorSize]

end Run

theorem tryJoin_iff_continues (settings : Settings) (size : Nat) (byte : Nat → UInt8) {a b : Run} (ha : a.InWords)
    (hb : b.InWords) :
    let attempt := tryJoin settings (.ofBytes size byte) a b
    Word.tryJoin? settings (.ofBytes size byte) a b = some attempt.joined ∧
      (∀ joined, attempt.joined = some joined ↔
        ∃ gap ≤ settings.maxGapBlocks, a.Continues b gap ∧ a.NullUpTo size byte b ∧
          joined =
            { source := a.source
              placements := a.placements ++
                (List.range' 1 gap).map (fun k => .gap (a.physicalEnd + k * sectorsPerBlock) (a.logicalEnd + k)) ++
                b.placements
              score := .joined a.score b.score gap settings.nullGapWeight
              logicalStart := a.logicalStart
              logicalEnd := b.logicalEnd }) ∧
      ∀ place, sectorSize * (a.physicalEnd + sectorsPerBlock) ≤ place → place < sectorSize * b.physicalStart →
        size ≤ place ∨ byte place ≠ 0 → attempt.joined = none := by
  intro attempt
  have joins : ∀ joined, attempt.joined = some joined ↔
      ∃ gap ≤ settings.maxGapBlocks, a.Continues b gap ∧ a.NullUpTo size byte b ∧
        joined = a.join settings.nullGapWeight b gap := by
    intro joined
    rw [tryJoin_joined]
    apply exists_congr
    intro gap
    rw [← and_assoc, ← and_assoc, ← Run.tiles_iff_continues ha.toAligned hb.ne_nil, and_assoc]
    exact and_congr_right fun tiles => and_congr_left' (tiles.clear_iff ha.toAligned)
  refine ⟨Word.tryJoin?_eq ha hb, joins, ?_⟩
  intro place first last spoiled
  apply Option.eq_none_iff_forall_not_mem.mpr
  intro joined taken
  obtain ⟨gap, -, -, null, -⟩ := (joins joined).mp taken
  obtain ⟨inside, zero⟩ := null place first last
  rcases spoiled with beyond | nonzero
  · omega
  · exact nonzero zero

theorem tryJoin_iff_continues_at_limit :
    let a := Run.ofPlacements 0.25 1
      [⟨0x7FFFFFFFFFFFD8, [0xFFFFFFFFFFFFFFFB], .hash 1⟩, ⟨0x7FFFFFFFFFFFE0, [0xFFFFFFFFFFFFFFFC], .hash 2⟩]
    let b := Run.ofPlacements 0.25 1 [⟨0x7FFFFFFFFFFFF8, [0xFFFFFFFFFFFFFFFF], .hash 1⟩]
    let byte : Nat → UInt8 := fun place => if place < 0xFFFFFFFFFFFFD000 then 1 else 0
    a.InWords ∧ b.InWords ∧
      (∃ joined, Word.tryJoin? {} (.ofBytes 0xFFFFFFFFFFFFF000 byte) a b = some (some joined) ∧
        joined.placements = a.placements ++ [.gap 0x7FFFFFFFFFFFE8 0xFFFFFFFFFFFFFFFD,
          .gap 0x7FFFFFFFFFFFF0 0xFFFFFFFFFFFFFFFE] ++ b.placements) ∧
      Word.tryJoin? {} (.ofBytes 0xFFFFFFFFFFFFEFFF byte) a b = some none := by
  intro a b byte
  have ha : a.InWords := by
    refine ⟨⟨List.cons_ne_nil _ _, ?_⟩, ?_, by decide, by decide⟩
    · simp [a, Run.ofPlacements, Placement.Adjoins, sectorsPerBlock]
    · simp [a, Run.ofPlacements, sectorSize, wordLimit]
  have hb : b.InWords := by
    refine ⟨⟨List.cons_ne_nil _ _, ?_⟩, ?_, by decide, by decide⟩
    · simp [b, Run.ofPlacements]
    · simp [b, Run.ofPlacements, sectorSize, wordLimit]
  have first : sectorSize * (a.physicalEnd + sectorsPerBlock) = 0xFFFFFFFFFFFFD000 := by decide
  have last : sectorSize * b.physicalStart = 0xFFFFFFFFFFFFF000 := by decide
  obtain ⟨whole, joins, -⟩ := tryJoin_iff_continues {} 0xFFFFFFFFFFFFF000 byte ha hb
  obtain ⟨short, -, spoils⟩ := tryJoin_iff_continues {} 0xFFFFFFFFFFFFEFFF byte ha hb
  have null : a.NullUpTo 0xFFFFFFFFFFFFF000 byte b := by
    intro place low high
    rw [first] at low
    rw [last] at high
    exact ⟨high, if_neg (Nat.not_lt.mpr low)⟩
  have taken := (joins _).mpr ⟨2, by decide, ⟨rfl, by decide, by decide, by decide, by decide⟩, null, rfl⟩
  refine ⟨ha, hb, ⟨_, whole.trans (congrArg some taken), rfl⟩, ?_⟩
  rw [short, spoils 0xFFFFFFFFFFFFEFFF (by rw [first]; decide) (by rw [last]; decide) (.inl (Nat.le_refl _))]

end FragmentSearch
