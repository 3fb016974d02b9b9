import FragmentSearch.Proofs.DoubleOrder
import FragmentSearch.Proofs.EvidenceOrigins
import FragmentSearch.Proofs.GapEvidence
import Mathlib.Algebra.Order.BigOperators.Group.List
import Mathlib.Algebra.Order.Field.Rat
import Mathlib.Tactic.Linarith
import Mathlib.Tactic.Ring

namespace FragmentSearch

structure Arithmetic (α : Type) where
  ofNat : Nat → α
  constant : Float → α
  add : α → α → α
  mul : α → α → α
  div : α → α → α

namespace Arithmetic

def doubles : Arithmetic Float := ⟨Decimal.ofNat, id, (· + ·), (· * ·), (· / ·)⟩

/-- Exact arithmetic; `read` tells which number a double of the settings is taken for. -/
def rationals (read : Float → ℚ) : Arithmetic ℚ := ⟨Nat.cast, read, (· + ·), (· * ·), (· / ·)⟩

end Arithmetic

section Reckoning

variable {α : Type} (arithmetic : Arithmetic α)

def Weight.reckon : Weight → α
  | .nothing => arithmetic.ofNat 0
  | .reciprocal count => arithmetic.div (arithmetic.ofNat 1) (arithmetic.ofNat count)
  | .constant x => arithmetic.constant x

def Score.reckon : Score → α
  | .given x => arithmetic.constant x
  | .total weights =>
    weights.foldl (fun sum weight => arithmetic.add sum (weight.reckon arithmetic)) (arithmetic.ofNat 0)
  | .joined first second gap gapWeight =>
    arithmetic.add (arithmetic.add first.reckon second.reckon)
      (arithmetic.mul (arithmetic.ofNat gap) (arithmetic.constant gapWeight))

end Reckoning

theorem Decimal.ofNat_zero : ofNat 0 = 0 := by decide +kernel

theorem Decimal.ofNat_one : ofNat 1 = 1 := by decide +kernel

theorem Weight.value_eq_reckon (weight : Weight) : weight.value = weight.reckon .doubles := by
  cases weight with
  | nothing => exact Decimal.ofNat_zero.symm
  | reciprocal count => exact congrArg (· / Decimal.ofNat count) Decimal.ofNat_one.symm
  | constant x => rfl

theorem Score.value_eq_reckon (score : Score) : score.value = score.reckon .doubles := by
  induction score with
  | given x => rfl
  | total weights =>
    simp only [Score.value, Score.reckon, Weight.value_eq_reckon]
    exact congrArg (weights.foldl _) Decimal.ofNat_zero.symm
  | joined first second gap gapWeight first_eq second_eq =>
    rw [Score.value, Score.reckon, first_eq, second_eq]
    rfl

def Placement.worth (gapWeight : ℚ) (placement : Placement) : ℚ :=
  match placement.evidence with
  | .hash count => 1 / count
  | .nullGap => gapWeight

def Score.exact (read : Float → ℚ) (score : Score) : ℚ := score.reckon (.rationals read)

variable {read : Float → ℚ} {gapWeight : Float}

theorem Placement.reckon_weight (placement : Placement) :
    (placement.weight gapWeight).reckon (.rationals read) = placement.worth (read gapWeight) := by
  rw [weight, worth]
  cases placement.evidence with
  | hash count =>
    cases count with
    | zero => simp [Weight.reckon, Arithmetic.rationals]
    | succ count => simp [Weight.reckon, Arithmetic.rationals]
  | nullGap => rfl

theorem Score.exact_total (placements : List Placement) :
    (Score.total (placements.map (Placement.weight gapWeight))).exact read =
      (placements.map (Placement.worth (read gapWeight))).sum := by
  rw [exact, reckon, List.foldl_map, List.sum_eq_foldl, List.foldl_map]
  simp only [Placement.reckon_weight]
  rfl

theorem Score.exact_joined (first second : Score) (gap : Nat) :
    (Score.joined first second gap gapWeight).exact read =
      first.exact read + second.exact read + gap * read gapWeight := rfl

section Worth

variable {weight : ℚ}

theorem worth_gaps (run : Run) (gap : Nat) :
    ((run.gapAfter gap).map (Placement.worth weight)).sum = gap * weight := by
  have all : (run.gapAfter gap).map (Placement.worth weight) = (List.range' 1 gap).map fun _ => weight := by
    rw [Run.gapAfter, List.map_map]
    rfl
  rw [all, List.map_const', List.length_range', List.sum_replicate, nsmul_eq_mul]

theorem worth_eq_counts_add_gaps (placements : List Placement) :
    (placements.map (Placement.worth weight)).sum =
      ((placements.filterMap Placement.count).map fun count : Nat => (1 / count : ℚ)).sum +
        placements.countP Placement.isGap * weight := by
  induction placements with
  | nil => simp
  | cons placement placements ih =>
    rw [List.map_cons, List.sum_cons, ih]
    cases evidence : placement.evidence with
    | hash count => simp [Placement.worth, Placement.count, Placement.isGap, evidence, add_assoc]
    | nullGap =>
      have worth : placement.worth weight = weight := by rw [Placement.worth, evidence]
      have uncounted : placement.count = none := by rw [Placement.count, evidence]
      have isGap : placement.isGap = true := by simp [Placement.isGap, evidence]
      rw [worth, List.filterMap_cons_none uncounted, List.countP_cons_of_pos isGap, Nat.cast_succ]
      ring

theorem counts_and_gaps (placements : List Placement) :
    (placements.filterMap Placement.count).length + placements.countP Placement.isGap = placements.length := by
  rw [List.length_filterMap_eq_countP, Nat.add_comm, List.length_eq_countP_add_countP Placement.isGap]
  congr 2
  funext placement
  cases evidence : placement.evidence <;> simp [Placement.count, Placement.isGap, evidence]

theorem countP_isUnique (placements : List Placement) :
    placements.countP Placement.isUnique = (placements.filterMap Placement.count).count 1 := by
  rw [List.count, List.countP_filterMap]
  congr 1
  funext placement
  rw [Bool.eq_iff_iff]
  cases evidence : placement.evidence <;> simp [Placement.count, Placement.isUnique, evidence]

theorem count_one_le_reciprocals (counts : List Nat) :
    (counts.count 1 : ℚ) ≤ (counts.map fun count : Nat => (1 / count : ℚ)).sum := by
  induction counts with
  | nil => simp
  | cons count counts ih =>
    rw [List.map_cons, List.sum_cons, List.count_cons]
    by_cases one : count = 1
    · simp only [one, beq_self_eq_true, if_true, Nat.cast_add, Nat.cast_one, div_one]
      linarith
    · have positive : (0 : ℚ) ≤ 1 / count := div_nonneg zero_le_one (Nat.cast_nonneg count)
      simp only [beq_iff_eq, one, if_false, Nat.add_zero]
      linarith

theorem reciprocals_le_length (counts : List Nat) :
    (counts.map fun count : Nat => (1 / count : ℚ)).sum ≤ counts.length := by
  have each : ∀ share ∈ counts.map fun count : Nat => (1 / count : ℚ), share ≤ 1 := by
    intro share member
    obtain ⟨count, -, rfl⟩ := List.mem_map.mp member
    rcases Nat.eq_zero_or_pos count with rfl | positive
    · simp
    · exact div_le_one_of_le₀ (by exact_mod_cast positive) (Nat.cast_nonneg count)
  simpa using List.sum_le_card_nsmul _ 1 each

end Worth

namespace Run

def Accounted (gapWeight : Float) (run : Run) : Prop :=
  ∀ read, run.score.exact read = (run.placements.map (Placement.worth (read gapWeight))).sum

theorem accounted_ofPlacements (gapWeight : Float) (source : Nat) (placements : List Placement) :
    (ofPlacements gapWeight source placements).Accounted gapWeight :=
  fun _ => Score.exact_total placements

theorem Accounted.join {a b : Run} (ha : a.Accounted gapWeight) (hb : b.Accounted gapWeight) (gap : Nat) :
    (a.join gapWeight b gap).Accounted gapWeight := by
  intro read
  calc (a.join gapWeight b gap).score.exact read
      = a.score.exact read + b.score.exact read + gap * read gapWeight := Score.exact_joined _ _ _
    _ = (a.placements.map (Placement.worth (read gapWeight))).sum +
          ((a.gapAfter gap).map (Placement.worth (read gapWeight))).sum +
          (b.placements.map (Placement.worth (read gapWeight))).sum := by
        rw [ha, hb, worth_gaps]
        ring
    _ = ((a.join gapWeight b gap).placements.map (Placement.worth (read gapWeight))).sum := by
        rw [Run.join, List.map_append, List.map_append, List.sum_append, List.sum_append]

end Run

namespace Search

variable {search : Search} {source : Nat} {image : Option Image} {run : Run}

theorem accounted_candidate (h : run ∈ search.candidateRuns source) :
    run.Accounted search.settings.nullGapWeight := by
  obtain ⟨bucket, -, row, -, rfl⟩ := mem_candidateRuns.mp h
  exact Run.accounted_ofPlacements _ _ _

theorem accounted_find (found : run ∈ search.find image) : run.Accounted search.settings.nullGapWeight := by
  obtain ⟨source, -, merged, -⟩ := mem_find.mp found
  apply forall_merged_of_join _ (fun _ => accounted_candidate) run merged
  exact fun a b gap ha hb _ => ha.join hb gap

theorem count_pos_of_find (found : run ∈ search.find image) :
    ∀ count ∈ run.placements.filterMap Placement.count, 0 < count := by
  intro count member
  obtain ⟨p, within, known⟩ := List.mem_filterMap.mp member
  cases evidence : p.evidence with
  | hash n =>
    have sighted := mem_placements_of_find found within evidence
    obtain ⟨hash, -, blocks, m, -, -, positive, sector, -, rfl⟩ := mem_placements.mp sighted
    cases known
    exact positive
  | nullGap => simp [Placement.count, evidence] at known

theorem find_scores_exact (found : run ∈ search.find image) :
    let counts := run.placements.filterMap Placement.count
    (∀ count ∈ counts, 0 < count) ∧ counts.length + run.gapBlocks = run.length ∧
      run.score.value = run.score.reckon .doubles ∧
      ∀ read : Float → ℚ,
        run.score.exact read =
            (counts.map fun count : Nat => (1 / count : ℚ)).sum + read search.settings.nullGapWeight * run.gapBlocks ∧
          (run.gapBlocks = 0 →
            (run.placements.countP Placement.isUnique : ℚ) ≤ run.score.exact read ∧
              run.score.exact read ≤ run.length) := by
  intro counts
  refine ⟨count_pos_of_find found, counts_and_gaps run.placements, run.score.value_eq_reckon, ?_⟩
  intro read
  have sum : run.score.exact read =
      (counts.map fun count : Nat => (1 / count : ℚ)).sum + read search.settings.nullGapWeight * run.gapBlocks := by
    rw [mul_comm]
    exact (accounted_find found read).trans (worth_eq_counts_add_gaps run.placements)
  refine ⟨sum, fun gapless => ?_⟩
  have length : counts.length = run.length := by
    have parts : counts.length + run.gapBlocks = run.length := counts_and_gaps run.placements
    omega
  rw [sum, gapless, Nat.cast_zero, mul_zero, add_zero, countP_isUnique, ← length]
  exact ⟨count_one_le_reciprocals counts, reciprocals_le_length counts⟩

theorem find_scores_exact_joined_twice :
    let records : List Record := [.association ⟨"a", ⟨1, none⟩, [⟨1, 0⟩]⟩, .association ⟨"b", ⟨2, none⟩, [⟨1, 4096⟩]⟩,
      .association ⟨"c", ⟨1, none⟩, [⟨1, 12288⟩]⟩, .association ⟨"d", ⟨3, none⟩, [⟨1, 20480⟩]⟩]
    let observations : List Observation := [⟨0, "a", none, .none⟩, ⟨4096, "b", none, .none⟩, ⟨12288, "c", none, .none⟩,
      ⟨20480, "d", none, .none⟩, ⟨512, "a", none, .none⟩, ⟨4608, "b", none, .none⟩]
    let catalog := Catalog.load (fun _ => 0) (Candidates.select {} records) records
    let search : Search := { catalog, sightings := catalog.sightings observations, settings := {} }
    let image := Image.ofBytes 24576 fun _ => 0
    let score (run : Run) : ℚ := run.score.exact Decimal.exact
    (∃ run ∈ search.find (some image), run.placements = [⟨0, [0], .hash 1⟩, ⟨8, [1], .hash 2⟩, ⟨16, [2], .nullGap⟩,
        ⟨24, [3], .hash 1⟩, ⟨32, [4], .nullGap⟩, ⟨40, [5], .hash 3⟩] ∧
      score run = 1 + 1 / 2 + 1 + 1 / 3 + 1 / 4 * 2) ∧
      ∃ run ∈ search.find (some image), run.placements = [⟨1, [0], .hash 1⟩, ⟨9, [1], .hash 2⟩] ∧
        1 ≤ score run ∧ score run ≤ 2 := by
  intro records observations catalog search image score
  have result : (search.find (some image)).map (·.placements) =
      [[⟨0, [0], .hash 1⟩, ⟨8, [1], .hash 2⟩, ⟨16, [2], .nullGap⟩, ⟨24, [3], .hash 1⟩, ⟨32, [4], .nullGap⟩,
        ⟨40, [5], .hash 3⟩], [⟨1, [0], .hash 1⟩, ⟨9, [1], .hash 2⟩]] := by decide +kernel
  have weight : Decimal.exact search.settings.nullGapWeight = 1 / 4 := by decide +kernel
  constructor
  · obtain ⟨run, found, placements⟩ := List.mem_map.mp (result ▸ List.mem_cons_self)
    have counts : run.placements.filterMap Placement.count = [1, 2, 1, 3] := by rw [placements]; rfl
    have gaps : run.gapBlocks = 2 := by rw [Run.gapBlocks, placements]; rfl
    obtain ⟨-, -, -, exact⟩ := find_scores_exact found
    refine ⟨run, found, placements, (exact Decimal.exact).1.trans ?_⟩
    rw [counts, weight, gaps]
    norm_num
  · obtain ⟨run, found, placements⟩ := List.mem_map.mp (result ▸ List.mem_cons_of_mem _ List.mem_cons_self)
    obtain ⟨-, -, -, exact⟩ := find_scores_exact found
    have gapless : run.gapBlocks = 0 := by rw [Run.gapBlocks, placements]; rfl
    obtain ⟨low, high⟩ := (exact Decimal.exact).2 gapless
    rw [placements] at low
    rw [Run.length, placements] at high
    exact ⟨run, found, placements, low, high⟩

end Search

end FragmentSearch
