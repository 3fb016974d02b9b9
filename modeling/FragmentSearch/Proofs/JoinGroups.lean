import Mathlib.Data.List.SplitBy
import FragmentSearch.Proofs.Joining
import FragmentSearch.Proofs.Ordering

namespace FragmentSearch

def joinsNext (settings : Settings) (image : Image) (a b : Run) : Bool := (tryJoin settings image a b).joined.isSome

/-- The longest rows of neighbours in which each run by itself joins the next. -/
def joinGroups (settings : Settings) (image : Image) (runs : List Run) : List (List Run) :=
  runs.splitBy (joinsNext settings image)

def bridged (maxGap : Nat) : List Run → List Placement
  | [] => []
  | [run] => run.placements
  | a :: b :: rest => a.placements ++ a.gapAfter ((gapBetween maxGap a b).getD 0) ++ bridged maxGap (b :: rest)

theorem bridged_concat (maxGap : Nat) (before : List Run) (last next : Run) :
    bridged maxGap (before ++ [last] ++ [next]) =
      bridged maxGap (before ++ [last]) ++ last.gapAfter ((gapBetween maxGap last next).getD 0) ++
        next.placements := by
  induction before with
  | nil => simp [bridged]
  | cons run before ih =>
    cases before with
    | nil => simp [bridged]
    | cons second before =>
      simp only [List.cons_append, bridged] at ih ⊢
      rw [ih]
      simp only [List.append_assoc]

structure Run.Spans (maxGap : Nat) (row : List Run) (whole : Run) : Prop where
  source_eq : row.head?.map (·.source) = some whole.source
  placements_eq : whole.placements = bridged maxGap row
  logicalStart_eq : row.head?.map (·.logicalStart) = some whole.logicalStart
  logicalEnd_eq : row.getLast?.map (·.logicalEnd) = some whole.logicalEnd

theorem Run.Spans.singleton (maxGap : Nat) (run : Run) : Run.Spans maxGap [run] run := ⟨rfl, rfl, rfl, rfl⟩

/-- A run that ends as another does, and begins before it by as many blocks on the image as in the file. -/
structure Run.EndsAs (whole last : Run) : Prop where
  whole_ne : whole.placements ≠ []
  last_ne : last.placements ≠ []
  source_eq : whole.source = last.source
  alignment_eq : whole.alignment = last.alignment
  physicalEnd_eq : whole.physicalEnd = last.physicalEnd
  logicalEnd_eq : whole.logicalEnd = last.logicalEnd
  start_le : whole.physicalStart ≤ last.physicalStart
  start_le_end : last.physicalStart ≤ last.physicalEnd
  distance : last.physicalStart + whole.logicalStart * sectorsPerBlock =
    whole.physicalStart + last.logicalStart * sectorsPerBlock

theorem Run.EndsAs.refl {run : Run} (h : run.Aligned) : run.EndsAs run :=
  ⟨h.ne_nil, h.ne_nil, rfl, rfl, rfl, rfl, Nat.le_refl _, h.start_le_end, rfl⟩

variable {maxGap gap : Nat} {whole last next : Run}

theorem Run.EndsAs.distance_iff (h : whole.EndsAs last) (apart : last.physicalEnd < next.physicalStart) :
    (whole.logicalStart < next.logicalStart ∧
        (next.logicalStart - whole.logicalStart) * sectorsPerBlock = next.physicalStart - whole.physicalStart) ↔
      last.logicalStart < next.logicalStart ∧
        (next.logicalStart - last.logicalStart) * sectorsPerBlock = next.physicalStart - last.physicalStart := by
  have hd := h.distance
  have hs := h.start_le
  have he := h.start_le_end
  simp only [sectorsPerBlock] at hd ⊢
  constructor
  · -- `next` begins after `last` ends on the image, so the common distance puts it after `last` in the file too
    rintro ⟨forward, distance⟩
    constructor <;> omega
  · rintro ⟨forward, distance⟩
    constructor <;> omega

theorem Run.EndsAs.tiles_iff (h : whole.EndsAs last) : whole.Tiles maxGap next gap ↔ last.Tiles maxGap next gap := by
  have hp := h.physicalEnd_eq
  have hl := h.logicalEnd_eq
  constructor
  · intro t
    have apart : last.physicalEnd < next.physicalStart := hp ▸ t.apart
    obtain ⟨forward, distance⟩ := (h.distance_iff apart).mp ⟨t.forward, t.distance⟩
    exact ⟨h.last_ne, t.right_ne, h.source_eq ▸ t.source_eq, h.alignment_eq ▸ t.alignment_eq, apart, forward,
      distance, hp ▸ t.gap_eq, hl ▸ t.adjoins, t.gap_le⟩
  · intro t
    obtain ⟨forward, distance⟩ := (h.distance_iff t.apart).mpr ⟨t.forward, t.distance⟩
    exact ⟨h.whole_ne, t.right_ne, h.source_eq.trans t.source_eq, h.alignment_eq.trans t.alignment_eq,
      hp ▸ t.apart, forward, distance, hp ▸ t.gap_eq, hl ▸ t.adjoins, t.gap_le⟩

theorem Run.EndsAs.join (gapWeight : Float) (h : whole.EndsAs last) (t : last.Tiles maxGap next gap)
    (aligned : next.Aligned) : (whole.join gapWeight next gap).EndsAs next := by
  have tw := h.tiles_iff.mpr t
  have start := physicalStart_join gapWeight next gap h.whole_ne
  have apart := t.apart
  have distance := tw.distance
  have forward := tw.forward
  have hs := h.start_le
  have he := h.start_le_end
  refine ⟨?_, aligned.ne_nil, tw.source_eq, ?_, physicalEnd_join gapWeight whole gap aligned.ne_nil, rfl, ?_,
    aligned.start_le_end, ?_⟩
  · simp [Run.join, aligned.ne_nil]
  · rw [alignment, start]
    exact tw.alignment_eq
  · rw [start]
    omega
  · rw [start]
    simp only [sectorsPerBlock, Run.join] at distance ⊢
    omega

theorem Run.EndsAs.gapAfter_eq (h : whole.EndsAs last) : whole.gapAfter gap = last.gapAfter gap := by
  simp only [gapAfter, h.physicalEnd_eq, h.logicalEnd_eq]

theorem Run.Spans.join (gapWeight : Float) {before : List Run} (spans : Run.Spans maxGap (before ++ [last]) whole)
    (h : whole.EndsAs last) (t : last.Tiles maxGap next gap) :
    Run.Spans maxGap (before ++ [last] ++ [next]) (whole.join gapWeight next gap) := by
  have row : (before ++ [last]) ≠ [] := by simp
  refine ⟨?_, ?_, ?_, ?_⟩
  · rw [List.head?_append_of_ne_nil _ row]
    exact spans.source_eq
  · rw [bridged_concat, gapBetween_eq_some.mpr t, Option.getD_some, ← h.gapAfter_eq, ← spans.placements_eq]
    rfl
  · rw [List.head?_append_of_ne_nil _ row]
    exact spans.logicalStart_eq
  · simp [Run.join]

variable {settings : Settings} {image : Image}

theorem Run.EndsAs.joined_eq_none (h : whole.EndsAs last) (apart : (tryJoin settings image last next).joined = none) :
    (tryJoin settings image whole next).joined = none := by
  apply Option.eq_none_iff_forall_not_mem.mpr
  intro joined hj
  obtain ⟨gap, tiles, clear, -⟩ := tryJoin_joined.mp hj
  have taken := tryJoin_joined.mpr ⟨gap, h.tiles_iff.mp tiles, h.physicalEnd_eq ▸ clear, rfl⟩
  rw [apart] at taken
  cases taken

theorem Run.EndsAs.joined_eq_some (h : whole.EndsAs last) {joined : Run}
    (together : (tryJoin settings image last next).joined = some joined) :
    ∃ gap, last.Tiles settings.maxGapBlocks next gap ∧
      (tryJoin settings image whole next).joined = some (whole.join settings.nullGapWeight next gap) := by
  obtain ⟨gap, tiles, clear, -⟩ := tryJoin_joined.mp together
  exact ⟨gap, tiles, tryJoin_joined.mpr ⟨gap, h.tiles_iff.mpr tiles, h.physicalEnd_eq ▸ clear, rfl⟩⟩

theorem mergeFrom_groups (before : List Run) {rest : List Run} (aligned : ∀ run ∈ rest, run.Aligned)
    (row : (before ++ [last]).IsChain fun a b => joinsNext settings image a b)
    (spans : Run.Spans settings.maxGapBlocks (before ++ [last]) whole) (ends : whole.EndsAs last) :
    List.Forall₂ (Run.Spans settings.maxGapBlocks) (joinGroups settings image (before ++ last :: rest))
      (mergeFrom (tryJoin settings image) whole rest).runs := by
  induction rest generalizing before last whole with
  | nil =>
    rw [joinGroups, List.splitBy_of_isChain (by simp) row]
    exact .cons spans .nil
  | cons next rest ih =>
    obtain ⟨hn, aligned⟩ := List.forall_mem_cons.mp aligned
    have regroup : before ++ last :: next :: rest = (before ++ [last]) ++ next :: rest := by simp
    rw [regroup]
    cases hj : (tryJoin settings image last next).joined with
    | none =>
      have cut : joinsNext settings image last next = false := by simp [joinsNext, hj]
      have split : joinGroups settings image ((before ++ [last]) ++ next :: rest) =
          (before ++ [last]) :: joinGroups settings image (next :: rest) := by
        rw [joinGroups, List.splitBy_append, List.splitBy_of_isChain (by simp) row]
        · rfl
        · simpa using cut
      rw [split, mergeFrom_apart (ends.joined_eq_none hj)]
      exact .cons spans (ih [] aligned (by simp) (.singleton _ _) (.refl hn))
    | some joined =>
      have link : joinsNext settings image last next = true := by simp [joinsNext, hj]
      obtain ⟨gap, tiles, together⟩ := ends.joined_eq_some hj
      rw [mergeFrom_joined together]
      refine ih _ aligned ?_ (spans.join _ ends tiles) (ends.join _ tiles hn)
      rw [List.isChain_append]
      exact ⟨row, by simp, by simpa using link⟩

theorem attempts_mergeFrom {rest : List Run} (aligned : ∀ run ∈ rest, run.Aligned) (ends : whole.EndsAs last) :
    ∀ attempt ∈ (mergeFrom (tryJoin settings image) whole rest).attempts,
      ∃ a b grown, [a, b] <:+: last :: rest ∧ grown.EndsAs a ∧ attempt = tryJoin settings image grown b := by
  induction rest generalizing last whole with
  | nil => simp [mergeFrom]
  | cons next rest ih =>
    obtain ⟨hn, aligned⟩ := List.forall_mem_cons.mp aligned
    have here : [last, next] <:+: last :: next :: rest := ⟨[], rest, rfl⟩
    have later : ∀ grown, grown.EndsAs next →
        ∀ attempt ∈ (mergeFrom (tryJoin settings image) grown rest).attempts,
          ∃ a b grown, [a, b] <:+: last :: next :: rest ∧ grown.EndsAs a ∧
            attempt = tryJoin settings image grown b := by
      intro grown ends attempt member
      obtain ⟨a, b, left, within, same⟩ := ih aligned ends attempt member
      exact ⟨a, b, left, within.trans (List.suffix_cons last _).isInfix, same⟩
    cases hj : (tryJoin settings image last next).joined with
    | none =>
      simp only [mergeFrom, ends.joined_eq_none hj, List.forall_mem_cons]
      exact ⟨⟨last, next, whole, here, ends, rfl⟩, later next (.refl hn)⟩
    | some joined =>
      obtain ⟨gap, tiles, together⟩ := ends.joined_eq_some hj
      simp only [mergeFrom, together, List.forall_mem_cons]
      exact ⟨⟨last, next, whole, here, ends, rfl⟩, later _ (ends.join _ tiles hn)⟩

theorem mergeRuns_groups (settings : Settings) (image : Image) (runs : List Run)
    (aligned : ∀ run ∈ runs, run.Aligned) :
    (sorted Run.atMost runs).Perm runs ∧ (sorted Run.atMost runs).Pairwise (Run.atMost · ·) ∧
      List.Forall₂ (Run.Spans settings.maxGapBlocks) (joinGroups settings image (sorted Run.atMost runs))
        (mergeRuns settings image runs).runs := by
  refine ⟨perm_sorted _ _, Run.pairwise_sorted runs, ?_⟩
  have inOrder : ∀ run ∈ sorted Run.atMost runs, run.Aligned := fun run member => aligned run (mem_sorted.mp member)
  unfold mergeRuns
  cases hs : sorted Run.atMost runs with
  | nil => exact .nil
  | cons first rest =>
    rw [hs] at inOrder
    obtain ⟨hf, hr⟩ := List.forall_mem_cons.mp inOrder
    exact mergeFrom_groups [] hr (by simp) (.singleton _ _) (.refl hf)

theorem mergeRuns_groups_chained :
    let fragment := fun sector block =>
      Run.ofPlacements 0.25 1 [⟨sector, [block], .hash 1⟩, ⟨sector + 8, [block + 1], .hash 2⟩]
    let runs := [fragment 80 10, fragment 24 3, fragment 0 0, fragment 48 6]
    let image := Image.ofBytes 65536 fun place => if place = 32768 then 1 else 0
    (∀ run ∈ runs, run.Aligned) ∧
      (joinGroups {} image (sorted Run.atMost runs)).map (·.map Run.physicalStart) = [[0, 24, 48], [80]] ∧
        List.Forall₂ (Run.Spans 1024) (joinGroups {} image (sorted Run.atMost runs))
          (mergeRuns {} image runs).runs := by
  intro fragment runs image
  have aligned : ∀ run ∈ runs, run.Aligned := by
    intro run member
    obtain ⟨sector, block, rfl⟩ : ∃ sector block, run = fragment sector block := by
      simp only [runs, List.mem_cons, List.not_mem_nil, or_false] at member
      rcases member with rfl | rfl | rfl | rfl <;> exact ⟨_, _, rfl⟩
    exact ⟨List.cons_ne_nil _ _, by simp [fragment, Run.ofPlacements, Placement.Adjoins, sectorsPerBlock]⟩
  exact ⟨aligned, by decide +kernel, (mergeRuns_groups {} image runs aligned).2.2⟩

end FragmentSearch
