import FragmentSearch.Sightings

namespace FragmentSearch.Sightings

theorem sectorsOf_eq_of_mem_iff {sightings others : Sightings} {hash : String}
    (same : ∀ sector, sector ∈ sightings.sectorsOf hash ↔ sector ∈ others.sectorsOf hash) :
    sightings.sectorsOf hash = others.sectorsOf hash := by
  apply Std.TreeSet.Equiv.toList_eq
  apply Std.TreeSet.Equiv.of_forall_mem_iff
  intro sector
  rw [← Std.TreeSet.mem_toList, ← Std.TreeSet.mem_toList]
  exact same sector

theorem mem_sectorSet_insert (sightings : Sightings) (observation : Observation) (hash : String) (sector : Nat) :
    sector ∈ (sightings.insert observation).sectorSet hash ↔
      sector ∈ sightings.sectorSet hash ∨ observation.hash = hash ∧ observation.sector = sector := by
  unfold insert
  dsimp only
  split
  · rename_i seen
    constructor
    · exact .inl
    · rintro (known | ⟨rfl, rfl⟩)
      · exact known
      · exact Std.TreeSet.mem_iff_contains.mpr seen
  · simp only [sectorSet, Std.TreeMap.getElem?_insert]
    by_cases h : observation.hash = hash
    · subst h
      simp only [Std.ReflCmp.compare_self, ↓reduceIte, Option.getD_some, Std.TreeSet.mem_insert, Nat.compare_eq_eq,
        true_and]
      exact or_comm
    · have other : ¬ compare observation.hash hash = .eq := fun same => h (Std.LawfulEqCmp.eq_of_compare same)
      simp only [other, ↓reduceIte, h, false_and, or_false]

theorem mem_sectorsOf_insert (sightings : Sightings) (observation : Observation) (hash : String) (sector : Nat) :
    sector ∈ (sightings.insert observation).sectorsOf hash ↔
      sector ∈ sightings.sectorsOf hash ∨ observation.hash = hash ∧ observation.sector = sector := by
  rw [sectorsOf, sectorsOf, Std.TreeSet.mem_toList, Std.TreeSet.mem_toList, mem_sectorSet_insert]

theorem insert_of_seen {sightings : Sightings} {observation : Observation}
    (seen : observation.sector ∈ sightings.sectorsOf observation.hash) : sightings.insert observation = sightings := by
  rw [sectorsOf, Std.TreeSet.mem_toList, Std.TreeSet.mem_iff_contains] at seen
  rw [insert]
  simp [seen]

theorem size_insert_of_new {sightings : Sightings} {observation : Observation}
    (new : observation.sector ∉ sightings.sectorsOf observation.hash) :
    (sightings.insert observation).size = sightings.size + 1 := by
  rw [sectorsOf, Std.TreeSet.mem_toList, Std.TreeSet.mem_iff_contains] at new
  rw [insert]
  simp [new]

theorem sectorsOf_insert_of_ne {sightings : Sightings} {observation : Observation} {hash : String}
    (other : observation.hash ≠ hash) : (sightings.insert observation).sectorsOf hash = sightings.sectorsOf hash := by
  apply sectorsOf_eq_of_mem_iff
  intro sector
  rw [mem_sectorsOf_insert]
  simp [other]

theorem ascending_sectorsOf (sightings : Sightings) (hash : String) :
    (sightings.sectorsOf hash).Pairwise (· < ·) :=
  (sightings.sectorSet hash).ordered_toList.imp Nat.compare_eq_lt.mp

theorem nodup_sectorsOf (sightings : Sightings) (hash : String) : (sightings.sectorsOf hash).Nodup :=
  (ascending_sectorsOf sightings hash).imp Nat.ne_of_lt

theorem sectorsOf_insert_perm {sightings : Sightings} {observation : Observation}
    (new : observation.sector ∉ sightings.sectorsOf observation.hash) :
    ((sightings.insert observation).sectorsOf observation.hash).Perm
      (observation.sector :: sightings.sectorsOf observation.hash) := by
  have nodup : (observation.sector :: sightings.sectorsOf observation.hash).Nodup :=
    List.nodup_cons.mpr ⟨new, nodup_sectorsOf _ _⟩
  apply (List.perm_ext_iff_of_nodup (nodup_sectorsOf _ _) nodup).mpr
  intro sector
  rw [List.mem_cons, mem_sectorsOf_insert]
  simp only [true_and, or_comm, eq_comm]

theorem mem_sectorSet_foldl (observations : List Observation) (sightings : Sightings) (hash : String) (sector : Nat) :
    sector ∈ (observations.foldl insert sightings).sectorSet hash ↔
      sector ∈ sightings.sectorSet hash ∨ ∃ o ∈ observations, o.hash = hash ∧ o.sector = sector := by
  induction observations generalizing sightings with
  | nil => simp
  | cons o rest ih =>
    rw [List.foldl_cons, ih, mem_sectorSet_insert]
    simp only [List.mem_cons, exists_eq_or_imp, or_assoc]

theorem mem_sectorsOf_ofList (observations : List Observation) (hash : String) (sector : Nat) :
    sector ∈ (ofList observations).sectorsOf hash ↔ ∃ o ∈ observations, o.hash = hash ∧ o.sector = sector := by
  rw [sectorsOf, Std.TreeSet.mem_toList, ofList, mem_sectorSet_foldl]
  simp [sectorSet]

theorem sectorsOf_sightings {catalog : Catalog} {hash : String} (known : catalog.containsHash hash = true)
    (observations : List Observation) :
    (catalog.sightings observations).sectorsOf hash = (ofList observations).sectorsOf hash := by
  apply sectorsOf_eq_of_mem_iff
  intro sector
  rw [Catalog.sightings, mem_sectorsOf_ofList, mem_sectorsOf_ofList]
  constructor
  · rintro ⟨o, member, seen⟩
    exact ⟨o, (List.mem_filter.mp member).1, seen⟩
  · rintro ⟨o, member, rfl, seen⟩
    exact ⟨o, List.mem_filter.mpr ⟨member, known⟩, rfl, seen⟩

end FragmentSearch.Sightings
