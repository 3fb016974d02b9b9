import FragmentSearch.Proofs.Joining

namespace FragmentSearch

theorem mapM_null_iff {places : List Nat} {byte : Nat → Except Fault UInt8} :
    (∃ bytes, places.mapM byte = .ok bytes ∧ isAllNull bytes = true) ↔ ∀ place ∈ places, byte place = .ok 0 := by
  induction places with
  | nil => exact ⟨fun _ _ member => (List.not_mem_nil member).elim, fun _ => ⟨[], rfl, rfl⟩⟩
  | cons place places ih =>
    simp only [List.forall_mem_cons, ← ih, List.mapM_cons, bind, Except.bind, pure, Except.pure]
    cases byte place with
    | error fault => simp
    | ok value =>
      cases places.mapM byte with
      | error fault => simp
      | ok bytes => simp [isAllNull]

namespace Image

variable {image : Image} {offset length sector : Nat}

theorem read_null_iff :
    (∃ bytes, image.read offset length = .ok bytes ∧ isAllNull bytes = true) ↔
      image.seekFault offset = none ∧ ∀ k < length, image.byte (offset + k) = .ok 0 := by
  have places : (∀ k < length, image.byte (offset + k) = .ok 0) ↔
      ∀ place ∈ List.range' offset length, image.byte place = .ok 0 := by
    simp only [List.mem_range'_1]
    constructor
    · rintro all place ⟨low, high⟩
      have byte := all (place - offset) (by omega)
      rwa [Nat.add_sub_cancel' low] at byte
    · intro all k hk
      exact all (offset + k) ⟨by omega, by omega⟩
  rw [places, ← mapM_null_iff, read]
  cases image.seekFault offset with
  | some fault => simp
  | none =>
    cases (List.range' offset length).mapM image.byte with
    | error fault => simp [Except.mapError]
    | ok bytes => simp [Except.mapError]

theorem blockIsNull_iff_read :
    image.blockIsNull sector = .ok true ↔
      ∃ bytes, image.read (sector * sectorSize) blockSize = .ok bytes ∧ isAllNull bytes = true := by
  rw [blockIsNull]
  cases image.read (sector * sectorSize) blockSize with
  | error fault => simp [Except.map]
  | ok bytes => simp [Except.map]

theorem blockIsNull_iff :
    image.blockIsNull sector = .ok true ↔
      image.seekFault (sector * sectorSize) = none ∧ ∀ k < blockSize, image.byte (sector * sectorSize + k) = .ok 0 :=
  blockIsNull_iff_read.trans read_null_iff

theorem byte_of_blockIsNull (h : image.blockIsNull sector = .ok true) :
    ∀ k < blockSize, image.byte (sector * sectorSize + k) = .ok 0 :=
  (blockIsNull_iff.mp h).2

end Image

section Check

variable {image : Image}

theorem checkGap_clear_iff {sector blocks : Nat} :
    (checkGap image sector blocks).obstacle = none ↔
      ∀ k < blocks, image.blockIsNull (sector + k * sectorsPerBlock) = .ok true := by
  induction blocks generalizing sector with
  | zero => simp [checkGap]
  | succ blocks ih =>
    have shift : (∀ k < blocks + 1, image.blockIsNull (sector + k * sectorsPerBlock) = .ok true) ↔
        image.blockIsNull sector = .ok true ∧
          ∀ k < blocks, image.blockIsNull (sector + sectorsPerBlock + k * sectorsPerBlock) = .ok true := by
      simp only [Nat.forall_lt_succ_left, Nat.zero_mul, Nat.add_zero, Nat.succ_mul, Nat.add_assoc,
        Nat.add_comm sectorsPerBlock]
    rw [shift, ← ih]
    cases h : image.blockIsNull sector with
    | error fault => simp [checkGap, h]
    | ok null => cases null <;> simp [checkGap, h]

theorem checkGap_reads_of_clear {sector blocks : Nat} (h : (checkGap image sector blocks).obstacle = none) :
    (checkGap image sector blocks).reads = List.range' sector blocks sectorsPerBlock := by
  induction blocks generalizing sector with
  | zero => rfl
  | succ blocks ih =>
    have first := checkGap_clear_iff.mp h 0 (Nat.succ_pos blocks)
    rw [Nat.zero_mul, Nat.add_zero] at first
    simp only [checkGap, first] at h ⊢
    rw [ih h, List.range'_succ]

theorem tryJoin_reads_of_joined {settings : Settings} {a b joined : Run}
    (h : (tryJoin settings image a b).joined = some joined) :
    ∃ gap, a.Tiles settings.maxGapBlocks b gap ∧
      (∀ k < gap, image.blockIsNull (a.physicalEnd + sectorsPerBlock + k * sectorsPerBlock) = .ok true) ∧
      (tryJoin settings image a b).reads = List.range' (a.physicalEnd + sectorsPerBlock) gap sectorsPerBlock := by
  obtain ⟨gap, tiles, clear, -⟩ := tryJoin_joined.mp h
  refine ⟨gap, tiles, checkGap_clear_iff.mp clear, ?_⟩
  rw [← checkGap_reads_of_clear clear]
  simp only [tryJoin, gapBetween_eq_some.mpr tiles, clear]

end Check

end FragmentSearch
