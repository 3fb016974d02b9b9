import FragmentSearch.Proofs.RunSpans
import FragmentSearch.Proofs.WordSearch

namespace FragmentSearch

namespace Run

structure BeginsAs (grown run : Run) : Prop where
  nil_iff : grown.placements = [] ↔ run.placements = []
  source_eq : grown.source = run.source
  physicalStart_eq : grown.physicalStart = run.physicalStart
  logicalStart_eq : grown.logicalStart = run.logicalStart

variable {grown run a b joined : Run}

theorem BeginsAs.refl (run : Run) : run.BeginsAs run := ⟨Iff.rfl, rfl, rfl, rfl⟩

theorem BeginsAs.trans {c : Run} (hab : a.BeginsAs b) (hbc : b.BeginsAs c) : a.BeginsAs c :=
  ⟨hab.nil_iff.trans hbc.nil_iff, hab.source_eq.trans hbc.source_eq, hab.physicalStart_eq.trans hbc.physicalStart_eq,
    hab.logicalStart_eq.trans hbc.logicalStart_eq⟩

theorem BeginsAs.alignment_eq (h : grown.BeginsAs run) : grown.alignment = run.alignment :=
  congrArg FragmentSearch.alignment h.physicalStart_eq

theorem BeginsAs.join (gapWeight : Float) (b : Run) (gap : Nat) (ha : a.placements ≠ []) :
    (a.join gapWeight b gap).BeginsAs a :=
  ⟨by simp [Run.join, ha], rfl, physicalStart_join gapWeight b gap ha, rfl⟩

theorem BeginsAs.gapBetween_eq (h : grown.BeginsAs run) (maxGap : Nat) (a : Run) :
    gapBetween maxGap a grown = gapBetween maxGap a run := by
  have empty : grown.isEmpty = run.isEmpty := by
    rw [Bool.eq_iff_iff, isEmpty, isEmpty, List.isEmpty_iff, List.isEmpty_iff, h.nil_iff]
  simp only [gapBetween, empty, h.source_eq, h.alignment_eq, h.physicalStart_eq, h.logicalStart_eq]

theorem BeginsAs.atMost_left (h : grown.BeginsAs run) (c : Run) : grown.atMost c = run.atMost c := by
  simp only [atMost, h.source_eq, h.alignment_eq, h.physicalStart_eq]

theorem BeginsAs.atMost_right (h : grown.BeginsAs run) (c : Run) : c.atMost grown = c.atMost run := by
  simp only [atMost, h.source_eq, h.alignment_eq, h.physicalStart_eq]

end Run

section Joining

variable {settings : Settings} {image : Image} {a b grown joined previous : Run}

theorem tryJoin_beginsAs (taken : (tryJoin settings image a b).joined = some joined) : joined.BeginsAs a := by
  obtain ⟨gap, tiles, -, rfl⟩ := tryJoin_joined.mp taken
  exact .join _ b gap tiles.left_ne

theorem apart_of_beginsAs (h : grown.BeginsAs b) (apart : (tryJoin settings image a b).joined = none) :
    (tryJoin settings image a grown).joined = none := by
  apply Option.eq_none_iff_forall_ne_some.mpr
  intro joined taken
  obtain ⟨gap, tiles, clear, -⟩ := tryJoin_joined.mp taken
  have before : a.Tiles settings.maxGapBlocks b gap := by
    rwa [← gapBetween_eq_some, ← h.gapBetween_eq, gapBetween_eq_some]
  have taken := tryJoin_joined.mpr ⟨gap, before, clear, rfl⟩
  rw [apart] at taken
  cases taken

theorem head_mergeFrom (settings : Settings) (image : Image) (previous : Run) (rest : List Run) :
    ∃ grown after, (mergeFrom (tryJoin settings image) previous rest).runs = grown :: after ∧
      grown.BeginsAs previous := by
  induction rest generalizing previous with
  | nil => exact ⟨previous, [], rfl, .refl previous⟩
  | cons next rest ih =>
    cases found : (tryJoin settings image previous next).joined with
    | none => exact ⟨previous, _, mergeFrom_apart found rest, .refl previous⟩
    | some joined =>
      obtain ⟨grown, after, left, begins⟩ := ih joined
      exact ⟨grown, after, by rw [mergeFrom_joined found, left], begins.trans (tryJoin_beginsAs found)⟩

theorem apart_mergeFrom (settings : Settings) (image : Image) (previous : Run) (rest : List Run) :
    (mergeFrom (tryJoin settings image) previous rest).runs.IsChain fun a b =>
      (tryJoin settings image a b).joined = none := by
  induction rest generalizing previous with
  | nil => exact .singleton previous
  | cons next rest ih =>
    cases found : (tryJoin settings image previous next).joined with
    | none =>
      obtain ⟨grown, after, left, begins⟩ := head_mergeFrom settings image next rest
      have onward := ih next
      rw [left] at onward
      rw [mergeFrom_apart found, left]
      exact List.isChain_cons_cons.mpr ⟨apart_of_beginsAs begins found, onward⟩
    | some joined =>
      rw [mergeFrom_joined found]
      exact ih joined

theorem ordered_mergeFrom {rest : List Run} (ordered : (previous :: rest).Pairwise (Run.atMost · ·)) :
    (mergeFrom (tryJoin settings image) previous rest).runs.Pairwise (Run.atMost · ·) := by
  apply pairwise_mergeFrom _ _ ordered
  · intro a b joined c taken before _
    rwa [(tryJoin_beginsAs taken).atMost_left]
  · intro a b joined c taken before _
    rwa [(tryJoin_beginsAs taken).atMost_right]

theorem mergeRuns_ordered_apart (settings : Settings) (image : Image) (runs : List Run) :
    (mergeRuns settings image runs).runs.Pairwise (Run.atMost · ·) ∧
      (mergeRuns settings image runs).runs.IsChain fun a b => (tryJoin settings image a b).joined = none := by
  have ordered := Run.pairwise_sorted runs
  unfold mergeRuns
  cases inOrder : sorted Run.atMost runs with
  | nil => exact ⟨.nil, .nil⟩
  | cons first rest =>
    rw [inOrder] at ordered
    exact ⟨ordered_mergeFrom ordered, apart_mergeFrom settings image first rest⟩

theorem mergeRuns_eq_self {runs : List Run} (ordered : runs.Pairwise (Run.atMost · ·))
    (apart : runs.IsChain fun a b => (tryJoin settings image a b).joined = none) :
    (mergeRuns settings image runs).runs = runs := by
  rw [mergeRuns, Run.sorted_eq_self ordered]
  cases runs with
  | nil => rfl
  | cons first rest => exact mergeFrom_eq_self apart

theorem inWords_mergeRuns {runs : List Run} (h : ∀ run ∈ runs, run.InWords) :
    ∀ run ∈ (mergeRuns settings image runs).runs, run.InWords :=
  forall_mergeRuns_of_join (fun _ _ _ ha hb tiles => ha.join _ hb tiles) h

end Joining

theorem mergeRuns_idempotent (settings : Settings) (image : Image) (runs : List Run) :
    let merged := (mergeRuns settings image runs).runs
    (mergeRuns settings image merged).runs = merged ∧ merged.Pairwise (Run.atMost · ·) ∧
      merged.IsChain (fun a b => (tryJoin settings image a b).joined = none) ∧
      ((∀ run ∈ runs, run.InWords) →
        Word.merged? settings (some image) runs = some merged ∧
          Word.merged? settings (some image) merged = some merged) := by
  intro merged
  obtain ⟨ordered, apart⟩ := mergeRuns_ordered_apart settings image runs
  have unchanged : (mergeRuns settings image merged).runs = merged := mergeRuns_eq_self ordered apart
  refine ⟨unchanged, ordered, apart, fun within => ⟨Word.mergeRuns?_eq within, ?_⟩⟩
  rw [Word.mergeRuns?_eq (inWords_mergeRuns within), unchanged]

theorem mergeRuns_idempotent_grown :
    let fragment := fun source sector block =>
      Run.ofPlacements 0.25 source [⟨sector, [block], .hash 1⟩, ⟨sector + 8, [block + 1], .hash 2⟩]
    let runs := [fragment 1 48 6, fragment 2 3 7, fragment 1 24 3, fragment 1 0 5, fragment 1 0 0]
    let image := Image.ofBytes 65536 fun place => if place = 8192 then 1 else 0
    let merged := (mergeRuns {} image runs).runs
    (∀ run ∈ runs, run.InWords) ∧
      merged.map (fun run => (run.source, run.logicalStart, run.physicalStart, run.physicalEnd)) =
        [(1, 5, 0, 8), (1, 0, 0, 8), (1, 3, 24, 56), (2, 7, 3, 11)] ∧
      Word.merged? {} (some image) runs = some merged ∧ Word.merged? {} (some image) merged = some merged := by
  intro fragment runs image merged
  have within : ∀ run ∈ runs, run.InWords := by
    intro run member
    obtain ⟨source, sector, block, rfl, low, short⟩ : ∃ source sector block, run = fragment source sector block ∧
        sector < 100 ∧ block < 100 := by
      simp only [runs, List.mem_cons, List.not_mem_nil, or_false] at member
      rcases member with rfl | rfl | rfl | rfl | rfl <;> exact ⟨_, _, _, rfl, by decide, by decide⟩
    have bounds : (fragment source sector block).logicalStart = block ∧
        (fragment source sector block).logicalEnd = block + 1 := by
      simp [fragment, Run.ofPlacements, firstBlock, stepFrom?, lastBlock, stepTo?]
    refine ⟨⟨List.cons_ne_nil _ _, ?_⟩, ?_, ?_, ?_⟩
    · simp [fragment, Run.ofPlacements, Placement.Adjoins, sectorsPerBlock]
    · simp only [fragment, Run.ofPlacements, List.forall_mem_cons, sectorSize, wordLimit]
      exact ⟨by omega, by omega, by simp⟩
    · rw [bounds.1, wordLimit]
      omega
    · rw [bounds.2, wordLimit]
      omega
  exact ⟨within, by decide +kernel, (mergeRuns_idempotent {} image runs).2.2.2 within⟩

end FragmentSearch
