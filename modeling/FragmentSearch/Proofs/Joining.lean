import Mathlib.Data.List.Infix
import FragmentSearch.Gap
import FragmentSearch.Proofs.Alignment

namespace FragmentSearch

namespace Run

theorem isEmpty_eq_false {run : Run} : run.isEmpty = false ↔ run.placements ≠ [] := by
  simp [isEmpty]

theorem physicalStart_join (gapWeight : Float) {a : Run} (b : Run) (gap : Nat) (ha : a.placements ≠ []) :
    (a.join gapWeight b gap).physicalStart = a.physicalStart := by
  obtain ⟨first, rest, h⟩ := List.exists_cons_of_ne_nil ha
  simp [physicalStart, join, h]

theorem alignment_join (gapWeight : Float) {a : Run} (b : Run) (gap : Nat) (ha : a.placements ≠ []) :
    (a.join gapWeight b gap).alignment = a.alignment := by
  rw [alignment, physicalStart_join gapWeight b gap ha, alignment]

theorem getLast?_join (gapWeight : Float) (a : Run) {b : Run} (gap : Nat) (hb : b.placements ≠ []) :
    (a.join gapWeight b gap).placements.getLast? = b.placements.getLast? := by
  simp only [join, List.getLast?_append, List.getLast?_eq_getLast_of_ne_nil hb, Option.some_or]

theorem physicalEnd_join (gapWeight : Float) (a : Run) {b : Run} (gap : Nat) (hb : b.placements ≠ []) :
    (a.join gapWeight b gap).physicalEnd = b.physicalEnd := by
  rw [physicalEnd, getLast?_join gapWeight a gap hb, physicalEnd]

/-- Two runs with a gap between them that make up one fragment: as many blocks lie between them on the
image as in the file. -/
structure Tiles (maxGap : Nat) (a b : Run) (gap : Nat) : Prop where
  left_ne : a.placements ≠ []
  right_ne : b.placements ≠ []
  source_eq : a.source = b.source
  alignment_eq : a.alignment = b.alignment
  apart : a.physicalEnd < b.physicalStart
  forward : a.logicalStart < b.logicalStart
  distance : (b.logicalStart - a.logicalStart) * sectorsPerBlock = b.physicalStart - a.physicalStart
  gap_eq : (b.physicalStart - a.physicalEnd) / sectorsPerBlock - 1 = gap
  adjoins : a.logicalEnd + (gap + 1) = b.logicalStart
  gap_le : gap ≤ maxGap

end Run

theorem gapBetween_eq_some {maxGap : Nat} {a b : Run} {gap : Nat} :
    gapBetween maxGap a b = some gap ↔ a.Tiles maxGap b gap := by
  simp only [gapBetween, Option.ite_none_left_eq_some, Option.some.injEq, Bool.or_eq_true, decide_eq_true_eq,
    not_or, Bool.not_eq_true, Run.isEmpty_eq_false, Classical.not_not, Nat.not_le, Nat.not_lt]
  constructor
  · rintro ⟨⟨⟨⟨ha, hb⟩, source⟩, alignment⟩, ⟨apart, forward⟩, distance, ⟨adjoins, bound⟩, rfl⟩
    exact ⟨ha, hb, source, alignment, apart, forward, distance, rfl, adjoins, bound⟩
  · intro h
    have fits : a.logicalEnd + ((b.physicalStart - a.physicalEnd) / sectorsPerBlock - 1 + 1) = b.logicalStart ∧
        (b.physicalStart - a.physicalEnd) / sectorsPerBlock - 1 ≤ maxGap := by
      rw [h.gap_eq]
      exact ⟨h.adjoins, h.gap_le⟩
    exact ⟨⟨⟨⟨h.left_ne, h.right_ne⟩, h.source_eq⟩, h.alignment_eq⟩, ⟨h.apart, h.forward⟩, h.distance, fits, h.gap_eq⟩

theorem tryJoin_joined {settings : Settings} {image : Image} {a b joined : Run} :
    (tryJoin settings image a b).joined = some joined ↔
      ∃ gap, a.Tiles settings.maxGapBlocks b gap ∧
        (checkGap image (a.physicalEnd + sectorsPerBlock) gap).obstacle = none ∧
        joined = a.join settings.nullGapWeight b gap := by
  simp only [← gapBetween_eq_some, tryJoin]
  cases hg : gapBetween settings.maxGapBlocks a b with
  | none => simp
  | some gap =>
    cases hc : (checkGap image (a.physicalEnd + sectorsPerBlock) gap).obstacle with
    | none => simp [hc, eq_comm]
    | some obstacle => simp [hc]

section Merging

variable {attempt : Run → Run → Attempt} {settings : Settings} {image : Image} {P : Run → Prop}

theorem mergeFrom_joined {previous next joined : Run} (h : (attempt previous next).joined = some joined)
    (rest : List Run) : (mergeFrom attempt previous (next :: rest)).runs = (mergeFrom attempt joined rest).runs := by
  simp [mergeFrom, h]

theorem mergeFrom_apart {previous next : Run} (h : (attempt previous next).joined = none) (rest : List Run) :
    (mergeFrom attempt previous (next :: rest)).runs = previous :: (mergeFrom attempt next rest).runs := by
  simp [mergeFrom, h]

theorem mergeFrom_eq_self {previous : Run} {rest : List Run}
    (apart : (previous :: rest).IsChain fun a b => (attempt a b).joined = none) :
    (mergeFrom attempt previous rest).runs = previous :: rest := by
  induction rest generalizing previous with
  | nil => rfl
  | cons next rest ih =>
    obtain ⟨here, onward⟩ := List.isChain_cons_cons.mp apart
    rw [mergeFrom_apart here, ih onward]

theorem forall_mergeFrom
    (step : ∀ a b joined, P a → P b → (attempt a b).joined = some joined → P joined)
    {previous : Run} {rest : List Run} (first : P previous) (others : ∀ run ∈ rest, P run) :
    ∀ run ∈ (mergeFrom attempt previous rest).runs, P run := by
  induction rest generalizing previous with
  | nil => simpa [mergeFrom] using first
  | cons next rest ih =>
    obtain ⟨hn, others⟩ := List.forall_mem_cons.mp others
    cases h : (attempt previous next).joined with
    | none =>
      rw [mergeFrom_apart h]
      exact List.forall_mem_cons.mpr ⟨first, ih hn others⟩
    | some joined =>
      rw [mergeFrom_joined h]
      exact ih (step previous next joined first hn h) others

theorem forall_mergeRuns
    (step : ∀ a b joined, P a → P b → (tryJoin settings image a b).joined = some joined → P joined)
    {runs : List Run} (h : ∀ run ∈ runs, P run) : ∀ run ∈ (mergeRuns settings image runs).runs, P run := by
  have inOrder : ∀ run ∈ sorted Run.atMost runs, P run := fun run member => h run (mem_sorted.mp member)
  unfold mergeRuns
  cases hs : sorted Run.atMost runs with
  | nil => simp
  | cons first rest =>
    rw [hs] at inOrder
    obtain ⟨hf, hr⟩ := List.forall_mem_cons.mp inOrder
    exact forall_mergeFrom step hf hr

theorem forall_mergeRuns_of_join
    (join : ∀ a b gap, P a → P b → a.Tiles settings.maxGapBlocks b gap → P (a.join settings.nullGapWeight b gap))
    {runs : List Run} (h : ∀ run ∈ runs, P run) : ∀ run ∈ (mergeRuns settings image runs).runs, P run := by
  apply forall_mergeRuns _ h
  intro a b joined ha hb taken
  obtain ⟨gap, tiles, -, rfl⟩ := tryJoin_joined.mp taken
  exact join a b gap ha hb tiles

structure Run.PartOf (part whole : Run) : Prop where
  source_eq : part.source = whole.source
  stretch : part.placements <:+: whole.placements

theorem Run.PartOf.refl (run : Run) : run.PartOf run := ⟨rfl, List.infix_rfl⟩

theorem Run.PartOf.trans {a b c : Run} (hab : a.PartOf b) (hbc : b.PartOf c) : a.PartOf c :=
  ⟨hab.source_eq.trans hbc.source_eq, hab.stretch.trans hbc.stretch⟩

theorem tryJoin_partOf {a b joined : Run} (h : (tryJoin settings image a b).joined = some joined) :
    a.PartOf joined ∧ b.PartOf joined := by
  obtain ⟨gap, tiles, -, rfl⟩ := tryJoin_joined.mp h
  constructor
  · exact ⟨rfl, [], a.gapAfter gap ++ b.placements, by simp [Run.join]⟩
  · exact ⟨tiles.source_eq.symm, a.placements ++ a.gapAfter gap, [], by simp [Run.join]⟩

theorem mergeFrom_covers
    (step : ∀ a b joined, (attempt a b).joined = some joined → a.PartOf joined ∧ b.PartOf joined)
    (previous : Run) (rest : List Run) :
    ∀ run ∈ previous :: rest, ∃ whole ∈ (mergeFrom attempt previous rest).runs, run.PartOf whole := by
  induction rest generalizing previous with
  | nil =>
    intro run member
    exact ⟨run, by simpa [mergeFrom] using member, .refl run⟩
  | cons next rest ih =>
    cases h : (attempt previous next).joined with
    | none =>
      rw [mergeFrom_apart h]
      intro run member
      rcases List.mem_cons.mp member with rfl | member
      · exact ⟨run, by simp, .refl run⟩
      · obtain ⟨whole, hw, part⟩ := ih next run member
        exact ⟨whole, List.mem_cons_of_mem _ hw, part⟩
    | some joined =>
      rw [mergeFrom_joined h]
      obtain ⟨left, right⟩ := step previous next joined h
      obtain ⟨whole, hw, part⟩ := ih joined joined (by simp)
      intro run member
      rcases List.mem_cons.mp member with rfl | member
      · exact ⟨whole, hw, left.trans part⟩
      · rcases List.mem_cons.mp member with rfl | member
        · exact ⟨whole, hw, right.trans part⟩
        · exact ih joined run (List.mem_cons_of_mem _ member)

theorem mergeRuns_covers {runs : List Run} {run : Run} (h : run ∈ runs) :
    ∃ whole ∈ (mergeRuns settings image runs).runs, run.PartOf whole := by
  have member : run ∈ sorted Run.atMost runs := mem_sorted.mpr h
  unfold mergeRuns
  cases hs : sorted Run.atMost runs with
  | nil => simp [hs] at member
  | cons first rest =>
    rw [hs] at member
    exact mergeFrom_covers (fun a b joined => tryJoin_partOf) first rest run member

end Merging

end FragmentSearch
