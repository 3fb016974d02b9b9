import Mathlib.Algebra.BigOperators.Finprod
import FragmentSearch.Proofs.SightedSectors

namespace FragmentSearch

def Observation.sighting (observation : Observation) : String × Nat := (observation.hash, observation.sector)

namespace Sightings

variable {sightings : Sightings} {seen : Finset (String × Nat)}

/-- The index has these pairs of a hash and a sector, and its number is how many they are. -/
structure Counts (sightings : Sightings) (seen : Finset (String × Nat)) : Prop where
  mem_iff : ∀ hash sector, sector ∈ sightings.sectorsOf hash ↔ (hash, sector) ∈ seen
  size_eq : sightings.size = seen.card

theorem counts_empty : ({} : Sightings).Counts ∅ := by
  refine ⟨fun hash sector => ?_, rfl⟩
  simp [sectorsOf, sectorSet]

theorem Counts.insert (h : sightings.Counts seen) (observation : Observation) :
    (sightings.insert observation).Counts (Insert.insert observation.sighting seen) := by
  constructor
  · intro hash sector
    rw [mem_sectorsOf_insert, h.mem_iff, Finset.mem_insert, Observation.sighting, Prod.mk.injEq, or_comm,
      eq_comm (a := hash), eq_comm (a := sector)]
  · by_cases known : observation.sighting ∈ seen
    · rw [insert_of_seen ((h.mem_iff _ _).mpr known), Finset.insert_eq_of_mem known, h.size_eq]
    · rw [size_insert_of_new fun member => known ((h.mem_iff _ _).mp member), Finset.card_insert_of_notMem known,
        h.size_eq]

theorem Counts.foldl (h : sightings.Counts seen) (observations : List Observation) :
    (observations.foldl Sightings.insert sightings).Counts
      (seen ∪ (observations.map Observation.sighting).toFinset) := by
  induction observations generalizing sightings seen with
  | nil => simpa using h
  | cons observation rest ih =>
    have counted := ih (h.insert observation)
    rwa [Finset.insert_union, ← Finset.union_insert, ← List.toFinset_cons] at counted

theorem counts_ofList (observations : List Observation) :
    (ofList observations).Counts (observations.map Observation.sighting).toFinset := by
  have counted := counts_empty.foldl observations
  rwa [Finset.empty_union] at counted

theorem Counts.length_eq (h : sightings.Counts seen) (hash : String) :
    (sightings.sectorsOf hash).length = (seen.filter fun pair => pair.1 = hash).card := by
  have fiber : seen.filter (fun pair => pair.1 = hash) = (sightings.sectorsOf hash).toFinset.image (hash, ·) := by
    ext ⟨other, sector⟩
    simp only [Finset.mem_filter, Finset.mem_image, List.mem_toFinset, h.mem_iff, Prod.mk.injEq]
    constructor
    · rintro ⟨member, rfl⟩
      exact ⟨sector, member, rfl, rfl⟩
    · rintro ⟨_, member, rfl, rfl⟩
      exact ⟨member, rfl⟩
  rw [fiber, Finset.card_image_of_injective _ (Prod.mk_right_injective hash),
    List.toFinset_card_of_nodup (nodup_sectorsOf sightings hash)]

theorem Counts.size_eq_sum (h : sightings.Counts seen) :
    sightings.size = ∑ᶠ hash, (sightings.sectorsOf hash).length := by
  -- only the hashes of the pairs have sectors, so the sum over all hashes is a finite one
  have observed : (Function.support fun hash => (sightings.sectorsOf hash).length) ⊆ seen.image Prod.fst := by
    intro hash sighted
    obtain ⟨sector, member⟩ := List.exists_mem_of_length_pos (Nat.pos_of_ne_zero sighted)
    exact Finset.mem_image.mpr ⟨(hash, sector), (h.mem_iff hash sector).mp member, rfl⟩
  rw [finsum_eq_sum_of_support_subset _ observed, h.size_eq, Finset.card_eq_sum_card_image Prod.fst seen]
  exact Finset.sum_congr rfl fun hash _ => (h.length_eq hash).symm

end Sightings

structure Intake where
  sightings : Sightings := {}
  disagreements : Nat := 0

namespace Catalog

def takeIn (catalog : Catalog) (intake : Intake) (observation : Observation) : Intake :=
  if catalog.containsHash observation.hash then
    { sightings := intake.sightings.insert observation
      disagreements := intake.disagreements + if catalog.agrees observation then 0 else 1 }
  else intake

def takeAll? (catalog : Catalog) (arrivals : List (Except Fault Observation)) : Except Fault Intake :=
  arrivals.foldlM (fun intake arrival => return catalog.takeIn intake (← arrival)) {}

def Contradicts (catalog : Catalog) (observation : Observation) : Prop :=
  (∃ seen ∈ observation.count, ∃ known ∈ catalog.hashCount observation.hash, seen ≠ known) ∨
    ¬ observation.flags.isEmpty ∧ ∃ known ∈ catalog.hashFlags observation.hash, known ≠ observation.flags

instance (catalog : Catalog) (observation : Observation) : Decidable (catalog.Contradicts observation) :=
  inferInstanceAs (Decidable (_ ∨ _))

variable {catalog : Catalog} {observation : Observation}

theorem takeIn_of_unknown (unknown : catalog.containsHash observation.hash = false) (intake : Intake) :
    catalog.takeIn intake observation = intake := by
  simp [takeIn, unknown]

theorem known_cons_of_unknown (unknown : catalog.containsHash observation.hash = false) (rest : List Observation) :
    catalog.known (observation :: rest) = catalog.known rest :=
  List.filter_cons_of_neg (by simp [unknown])

theorem known_cons (contained : catalog.containsHash observation.hash = true) (rest : List Observation) :
    catalog.known (observation :: rest) = observation :: catalog.known rest :=
  List.filter_cons_of_pos contained

theorem disagreements_cons (contained : catalog.containsHash observation.hash = true) (rest : List Observation) :
    catalog.disagreements (observation :: rest) =
      (if catalog.agrees observation then 0 else 1) + catalog.disagreements rest := by
  rw [disagreements, known_cons contained, List.countP_cons, Nat.add_comm, disagreements]
  cases catalog.agrees observation <;> rfl

theorem foldl_takeIn (catalog : Catalog) (observations : List Observation) (intake : Intake) :
    observations.foldl catalog.takeIn intake =
      { sightings := (catalog.known observations).foldl Sightings.insert intake.sightings
        disagreements := intake.disagreements + catalog.disagreements observations } := by
  induction observations generalizing intake with
  | nil => rfl
  | cons observation rest ih =>
    rw [List.foldl_cons, ih]
    cases contained : catalog.containsHash observation.hash with
    | false => rw [takeIn_of_unknown contained, disagreements, disagreements, known_cons_of_unknown contained]
    | true =>
      rw [known_cons contained, disagreements_cons contained, List.foldl_cons, takeIn, if_pos contained, Nat.add_assoc]

theorem foldlM_takeIn (catalog : Catalog) (arrivals : List (Except Fault Observation)) (intake : Intake) :
    arrivals.foldlM (fun intake arrival => return catalog.takeIn intake (← arrival)) intake =
      (arrivals.mapM id).map fun observations => observations.foldl catalog.takeIn intake := by
  induction arrivals generalizing intake with
  | nil => rfl
  | cons arrival rest ih =>
    cases arrival with
    | error fault => rfl
    | ok observation =>
      rw [List.foldlM_cons, List.mapM_cons]
      refine (ih (catalog.takeIn intake observation)).trans ?_
      cases rest.mapM id <;> rfl

theorem takeAll?_eq (catalog : Catalog) (arrivals : List (Except Fault Observation)) :
    catalog.takeAll? arrivals = (arrivals.mapM id).map fun observations =>
      ⟨catalog.sightings observations, catalog.disagreements observations⟩ := by
  rw [takeAll?, foldlM_takeIn]
  congr 1
  funext observations
  rw [foldl_takeIn, Nat.zero_add]
  rfl

theorem agrees_iff : catalog.agrees observation = true ↔ ¬ catalog.Contradicts observation := by
  simp only [agrees, Contradicts, Bool.and_eq_true, not_or]
  apply and_congr
  · cases observation.count <;> cases catalog.hashCount observation.hash <;> simp
  · cases observation.flags.isEmpty <;> cases catalog.hashFlags observation.hash <;> simp

theorem disagreements_eq_length (catalog : Catalog) (observations : List Observation) :
    catalog.disagreements observations =
      ((catalog.known observations).filter fun observation => catalog.Contradicts observation).length := by
  rw [disagreements, List.countP_eq_length_filter]
  congr 2
  funext observation
  rw [Bool.eq_iff_iff, Bool.not_eq_true', ← Bool.not_eq_true, agrees_iff, Classical.not_not, decide_eq_true_iff]

end Catalog

namespace Sightings

theorem counts_distinct_sightings (catalog : Catalog) (observations : List Observation) :
    let index := ofList observations
    let kept := observations.filter fun o => catalog.containsHash o.hash
    (∀ hash, (index.sectorsOf hash).Pairwise (· < ·) ∧ ∀ sector,
        sector ∈ index.sectorsOf hash ↔ ∃ o ∈ observations, o.hash = hash ∧ o.offset / 512 = sector) ∧
      index.size = ∑ᶠ hash, (index.sectorsOf hash).length ∧
      index.size = (observations.map fun o => (o.hash, o.offset / 512)).toFinset.card ∧
      catalog.sightings observations = ofList kept ∧
      catalog.disagreements observations = (kept.filter fun o => catalog.Contradicts o).length ∧
      ∀ arrivals, catalog.takeAll? arrivals = (arrivals.mapM id).map fun arrived =>
        ⟨catalog.sightings arrived, catalog.disagreements arrived⟩ := by
  intro index kept
  have counted := counts_ofList observations
  have sectors : ∀ hash, (index.sectorsOf hash).Pairwise (· < ·) ∧ ∀ sector,
      sector ∈ index.sectorsOf hash ↔ ∃ o ∈ observations, o.hash = hash ∧ o.offset / 512 = sector :=
    fun hash => ⟨ascending_sectorsOf index hash, mem_sectorsOf_ofList observations hash⟩
  exact ⟨sectors, counted.size_eq_sum, counted.size_eq, rfl, catalog.disagreements_eq_length observations,
    catalog.takeAll?_eq⟩

-- two observations in one sector, with another count than the catalog's: one sighting, two disagreements
example :
    let catalog := Catalog.load (fun _ => 0) (.ofList [1]) [.association ⟨"a", ⟨1, none⟩, [⟨1, 0⟩]⟩]
    let observations : List Observation :=
      [⟨513, "a", some 2, .none⟩, ⟨1023, "a", some 2, .none⟩, ⟨512, "b", some 2, .none⟩]
    (catalog.sightings observations).size = 1 ∧ catalog.disagreements observations = 2 := by
  decide +kernel

end Sightings

end FragmentSearch
