import Mathlib.Data.List.Perm.Basic
import FragmentSearch.Proofs.FurtherSightings

namespace FragmentSearch

theorem compare_eq_lt_iff {earlier later : List Nat} : compare earlier later = .lt ↔ earlier < later := by
  induction earlier generalizing later with
  | nil => cases later <;> simp
  | cons a earlier ih =>
    cases later with
    | nil => simp
    | cons b later =>
      rw [List.compare_cons_cons, Ordering.then_eq_lt, ih, Nat.compare_eq_lt, Nat.compare_eq_eq, List.cons_lt_cons_iff]

namespace Placement

/-- By sector, then by the blocks, of which those come first that have the lesser block where they begin to differ or
end there, then by count. -/
def InOrder (a b : Placement) : Prop :=
  a.sector < b.sector ∨ a.sector = b.sector ∧ (a.blocks < b.blocks ∨ a.blocks = b.blocks ∧ a.count ≤ b.count)

theorem isLE_compare_count {a b : Placement} : (compare a.count b.count).isLE ↔ a.count ≤ b.count := by
  cases a.count with
  | none => cases b.count <;> exact iff_of_true rfl (by simp)
  | some m =>
    cases b.count with
    | none => exact iff_of_false Bool.false_ne_true (by simp)
    | some n => exact Nat.isLE_compare

theorem atMost_iff_inOrder {a b : Placement} : a.atMost b = true ↔ a.InOrder b := by
  simp only [atMost, Ordering.isLE_then_iff_or, Ordering.then_eq_lt, Ordering.then_eq_eq, Nat.compare_eq_lt,
    compare_eq_lt_iff, Std.compare_eq_iff_eq, isLE_compare_count, InOrder]
  tauto

end Placement

namespace Search

structure Joins (search : Search) (source c : Nat) (pair : String × Nat) : Prop where
  listed : pair.1 ∈ search.catalog.hashesOf source
  counted : ∃ count, search.catalog.hashCount pair.1 = some count ∧ 1 ≤ count
  seen : pair.2 ∈ search.sightings.sectorsOf pair.1
  class_eq : pair.2 % 8 = c

structure Yields (search : Search) (source : Nat) (pair : String × Nat) (p : Placement) : Prop where
  sector_eq : p.sector = pair.2
  blocks_eq : search.catalog.fileBlocks pair.1 source = some p.blocks
  count_eq : ∃ count, search.catalog.hashCount pair.1 = some count ∧ p.evidence = .hash count

def countedSectors (search : Search) (hash : String) : List Nat :=
  if (search.catalog.hashCount hash).any (0 < ·) then search.sightings.sectorsOf hash else []

def pairs (search : Search) (source : Nat) : List (String × Nat) :=
  (search.catalog.hashesOf source).flatMap fun hash => (search.countedSectors hash).map (hash, ·)

variable {search : Search} {source c sector : Nat} {hash : String} {pair : String × Nat}

theorem mem_countedSectors : sector ∈ search.countedSectors hash ↔
    (∃ count, search.catalog.hashCount hash = some count ∧ 1 ≤ count) ∧ sector ∈ search.sightings.sectorsOf hash := by
  have counted : (search.catalog.hashCount hash).any (0 < ·) = true ↔
      ∃ count, search.catalog.hashCount hash = some count ∧ 1 ≤ count := by
    simp only [Option.any_eq_true, decide_eq_true_eq, Nat.succ_le_iff]
  rw [countedSectors, ← counted]
  split <;> simp_all

theorem mem_pairs : pair ∈ search.pairs source ↔ search.Joins source (pair.2 % 8) pair := by
  simp only [pairs, List.mem_flatMap, List.mem_map, mem_countedSectors]
  constructor
  · rintro ⟨hash, listed, sector, ⟨counted, seen⟩, rfl⟩
    exact ⟨listed, counted, seen, rfl⟩
  · rintro ⟨listed, counted, seen, -⟩
    exact ⟨pair.1, listed, pair.2, ⟨counted, seen⟩, rfl⟩

theorem nodup_pairs (search : Search) (source : Nat) : (search.pairs source).Nodup := by
  apply List.nodup_flatMap.mpr
  constructor
  · intro hash _
    have sectors : (search.countedSectors hash).Nodup := by
      rw [countedSectors]
      split
      · exact search.sightings.nodup_sectorsOf hash
      · exact .nil
    exact sectors.map fun _ _ same => (Prod.mk.inj same).2
  · apply (search.catalog.nodup_hashesOf source).imp
    intro hash other apart pair ofHash ofOther
    obtain ⟨sector, -, rfl⟩ := List.mem_map.mp ofHash
    obtain ⟨_, -, same⟩ := List.mem_map.mp ofOther
    exact apart (Prod.mk.inj same).1.symm

theorem yields_of_hash {blocks : List Nat} (hb : search.catalog.fileBlocks hash source = some blocks) :
    List.Forall₂ (search.Yields source) ((search.countedSectors hash).map (hash, ·))
      (placementsAt search.catalog source hash (search.sightings.sectorsOf hash)) := by
  by_cases counted : ∃ count, search.catalog.hashCount hash = some (count + 1)
  · obtain ⟨count, hc⟩ := counted
    have sectors : search.countedSectors hash = search.sightings.sectorsOf hash := by
      rw [countedSectors, hc]
      simp
    rw [sectors, placementsAt_eq_map hb hc, List.forall₂_map_left_iff, List.forall₂_map_right_iff, List.forall₂_same]
    exact fun sector _ => ⟨rfl, hb, count + 1, hc, rfl⟩
  · have sectors : search.countedSectors hash = [] := by
      apply List.eq_nil_iff_forall_not_mem.mpr
      intro sector member
      obtain ⟨⟨count, hc, positive⟩, -⟩ := mem_countedSectors.mp member
      exact counted ⟨count - 1, by rw [hc, Nat.sub_add_cancel positive]⟩
    rw [sectors, placementsAt_eq_nil fun ⟨_, count, _, hc⟩ => counted ⟨count, hc⟩]
    exact .nil

theorem yields_placements (placed : search.catalog.Placed) (source : Nat) :
    List.Forall₂ (search.Yields source) (search.pairs source) (search.placements source) := by
  have same : List.Forall₂ (fun hash other => hash = other ∧ hash ∈ search.catalog.hashesOf source)
      (search.catalog.hashesOf source) (search.catalog.hashesOf source) :=
    List.forall₂_same.mpr fun hash listed => ⟨rfl, listed⟩
  rw [placements_eq_flatMap]
  apply List.rel_flatMap same
  rintro hash _ ⟨rfl, listed⟩
  obtain ⟨blocks, hb⟩ := placed source hash listed
  exact yields_of_hash hb

theorem yields_bucket (placed : search.catalog.Placed) (source c : Nat) :
    ∃ pairs : List (String × Nat), pairs.Nodup ∧ (∀ pair, pair ∈ pairs ↔ search.Joins source c pair) ∧
      List.Forall₂ (search.Yields source) pairs (search.bucket source c) := by
  have ofClass : List.Forall₂ (search.Yields source) ((search.pairs source).filter fun pair => pair.2 % 8 = c)
      ((search.placements source).filter fun p => alignment p.sector = c) := by
    apply List.rel_filter _ (yields_placements placed source)
    intro pair p yields
    simp only [alignment, sectorsPerBlock, yields.sector_eq]
  have inOrder : (search.bucket source c).Perm ((search.placements source).filter fun p => alignment p.sector = c) :=
    perm_sorted _ _
  obtain ⟨pairs, yields, perm⟩ := List.perm_comp_forall₂ inOrder ofClass.flip
  refine ⟨pairs, perm.nodup_iff.mpr ((nodup_pairs search source).filter _), fun pair => ?_, yields.flip⟩
  rw [perm.mem_iff, List.mem_filter, mem_pairs, decide_eq_true_eq]
  constructor
  · rintro ⟨joins, rfl⟩
    exact joins
  · intro joins
    have same := joins.class_eq
    subst same
    exact ⟨joins, rfl⟩

theorem gather_exact_join (localSize : String → Nat) (candidates : Candidates) (records : List Record)
    (sightings : Sightings) (settings : Settings) (source : Nat) :
    let search : Search := ⟨.load localSize candidates records, sightings, settings⟩
    (search.gather source).length = 8 ∧
      (∀ c bucket, (search.gather source)[c]? = some bucket →
        (∃ pairs : List (String × Nat), pairs.Nodup ∧ (∀ pair, pair ∈ pairs ↔ search.Joins source c pair) ∧
          List.Forall₂ (search.Yields source) pairs bucket) ∧
        bucket.Pairwise Placement.InOrder ∧ ∀ p ∈ bucket, p.blocks.Pairwise (· < ·)) ∧
      (source ∉ candidates → ∀ bucket ∈ search.gather source, bucket = []) := by
  intro search
  have placed : ∀ p ∈ search.placements source, source ∈ candidates ∧ p.blocks.Pairwise (· < ·) := by
    intro p member
    obtain ⟨hash, -, blocks, count, hb, -, -, sector, -, rfl⟩ := mem_placements.mp member
    obtain ⟨association, -, -, -, candidate, lists⟩ := Catalog.fileBlocks_load hb
    exact ⟨candidate, lists.ascending⟩
  refine ⟨rfl, ?_, ?_⟩
  · intro c bucket found
    rw [gather_eq_map, List.getElem?_map, Option.map_eq_some_iff] at found
    obtain ⟨d, found, rfl⟩ := found
    obtain ⟨inside, rfl⟩ := List.getElem?_eq_some_iff.mp found
    rw [List.getElem_range]
    refine ⟨yields_bucket (Catalog.placed_load records) source c, ?_, ?_⟩
    · exact (Placement.pairwise_sorted _).imp fun before => Placement.atMost_iff_inOrder.mp before
    · exact fun p member => (placed p (mem_bucket.mp member).1).2
  · intro other bucket gathered
    apply List.eq_nil_iff_forall_not_mem.mpr
    intro p member
    exact other (placed p (mem_gather.mp (List.mem_flatten.mpr ⟨bucket, gathered, member⟩))).1

theorem gather_exact_join_shared_sector :
    let records : List Record := [.association ⟨"a", ⟨2, none⟩, [⟨1, 8192⟩, ⟨2, 0⟩, ⟨1, 0⟩]⟩,
      .association ⟨"b", ⟨1, none⟩, [⟨1, 4096⟩]⟩, .association ⟨"z", ⟨0, none⟩, [⟨1, 4096⟩]⟩]
    let observations : List Observation := [⟨8192, "a", none, .none⟩, ⟨4096, "b", none, .none⟩,
      ⟨4096, "z", none, .none⟩, ⟨4096, "a", none, .none⟩, ⟨512, "a", none, .none⟩]
    let candidates := Candidates.select {} records
    let search : Search := ⟨.load (fun _ => 0) candidates records, .ofList observations, {}⟩
    let bucket := [⟨8, [0, 2], .hash 2⟩, ⟨8, [1], .hash 1⟩, ⟨16, [0, 2], .hash 2⟩]
    (search.gather 1)[0]? = some bucket ∧
      (∃ pairs : List (String × Nat), pairs.Nodup ∧ (∀ pair, pair ∈ pairs ↔ search.Joins 1 0 pair) ∧
        List.Forall₂ (search.Yields 1) pairs bucket) ∧
      2 ∉ candidates ∧ ∀ empty ∈ search.gather 2, empty = [] := by
  intro records observations candidates search bucket
  have gathered : (search.gather 1)[0]? = some bucket := by decide +kernel
  have other : 2 ∉ candidates := by decide +kernel
  obtain ⟨-, buckets, -⟩ := gather_exact_join (fun _ => 0) candidates records (.ofList observations) {} 1
  obtain ⟨-, -, nothing⟩ := gather_exact_join (fun _ => 0) candidates records (.ofList observations) {} 2
  exact ⟨gathered, (buckets 0 bucket gathered).1, other, nothing other⟩

end Search

end FragmentSearch
