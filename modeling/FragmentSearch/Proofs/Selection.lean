import FragmentSearch.Proofs.CatalogEntries

namespace FragmentSearch

structure Policy.Admits (policy : Policy) (count : Nat) (flags : Flags) : Prop where
  counted : 1 ≤ count
  rare : count ≤ policy.maxCount
  unflagged : policy.allowFlagged = true ∨ flags.isEmpty = true

theorem Policy.qualifies_iff {policy : Policy} (selective : policy.includeAll = false) {provenance : Provenance} :
    policy.qualifies provenance = true ↔ policy.Admits provenance.count provenance.flags := by
  simp only [qualifies, selective, Bool.false_or, Bool.and_eq_true, decide_eq_true_eq, Bool.or_eq_true]
  constructor
  · rintro ⟨⟨counted, rare⟩, unflagged⟩
    exact ⟨counted, rare, unflagged⟩
  · rintro ⟨counted, rare, unflagged⟩
    exact ⟨⟨counted, rare⟩, unflagged⟩

def DistinctHashes (records : List Record) : Prop := ((associations records).map (·.hash)).Nodup

theorem DistinctHashes.firstTouching_eq {records : List Record} (distinct : DistinctHashes records)
    {association : Association} (member : association ∈ associations records) {candidates : Candidates}
    (touched : association.touches candidates = true) :
    firstTouching candidates association.hash records = some association := by
  cases found : firstTouching candidates association.hash records with
  | none =>
    have passed := List.find?_eq_none.mp found association member
    simp [touched] at passed
  | some first =>
    obtain ⟨recorded, named, -⟩ := firstTouching_some found
    rw [List.inj_on_of_nodup_map distinct (mem_associations.mpr recorded) member named]

namespace Candidates

variable {policy : Policy}

theorem mem_qualified {record : Record} {source : Nat} :
    source ∈ qualified policy record ↔
      ∃ association ∈ associations [record], policy.qualifies association.provenance = true ∧
        association.Names source := by
  cases record with
  | description description => simp [qualified, associations, Record.asAssociation?]
  | association association =>
    have only : associations [.association association] = [association] := rfl
    simp only [only, qualified, List.mem_singleton, exists_eq_left]
    split
    · rename_i qualifies
      simp [qualifies, Association.Names]
    · rename_i unqualified
      simp [unqualified]

theorem mem_foldl_add (records : List Record) (candidates : Candidates) (source : Nat) :
    source ∈ records.foldl (add policy) candidates ↔
      source ∈ candidates ∨ ∃ association ∈ associations records, policy.qualifies association.provenance = true ∧
        association.Names source := by
  induction records generalizing candidates with
  | nil => simp [associations]
  | cons record records ih =>
    rw [List.foldl_cons, ih, ← List.singleton_append, associations_append, add, Std.TreeSet.mem_insertMany_list,
      List.contains_iff_mem, mem_qualified]
    simp only [List.mem_append, or_and_right, exists_or, or_assoc]

theorem mem_select {records : List Record} {source : Nat} :
    source ∈ select policy records ↔
      ∃ association ∈ associations records, policy.qualifies association.provenance = true ∧
        association.Names source := by
  rw [select, mem_foldl_add]
  simp

end Candidates

namespace Catalog

variable {localSize : String → Nat} {candidates : Candidates} {policy : Policy}

def Upholds (catalog : Catalog) (policy : Policy) (source : Nat) : Prop :=
  ∃ hash ∈ catalog.hashesOf source, ∃ count flags,
    catalog.hashCount hash = some count ∧ catalog.hashFlags hash = some flags ∧ policy.Admits count flags

theorem upholds_load_iff {records : List Record} {source : Nat} :
    (load localSize candidates records).Upholds policy source ↔
      source ∈ candidates ∧ ∃ association, association.Names source ∧
        policy.Admits association.provenance.count association.provenance.flags ∧
        firstTouching candidates association.hash records = some association := by
  constructor
  · rintro ⟨hash, member, count, flags, hc, hf, admitted⟩
    obtain ⟨candidate, association, first, named⟩ := mem_hashesOf_load.mp member
    obtain ⟨-, rfl, -⟩ := firstTouching_some first
    rw [hashCount_load, first] at hc
    rw [hashFlags_load, first] at hf
    cases hc
    cases hf
    exact ⟨candidate, association, named, admitted, first⟩
  · rintro ⟨candidate, association, named, admitted, first⟩
    refine ⟨association.hash, mem_hashesOf_load.mpr ⟨candidate, association, first, named⟩, _, _, ?_, ?_, admitted⟩
    · rw [hashCount_load, first]
      rfl
    · rw [hashFlags_load, first]
      rfl

theorem select_upheld (localSize : String → Nat) (policy : Policy) (selective : policy.includeAll = false)
    (records : List Record) :
    let candidates := Candidates.select policy records
    let catalog := load localSize candidates records
    (∀ source, catalog.Upholds policy source ↔
        ∃ association ∈ associations records, association.Names source ∧
          policy.qualifies association.provenance = true ∧
          firstTouching candidates association.hash records = some association) ∧
      (DistinctHashes records → ∀ source ∈ candidates, catalog.Upholds policy source) := by
  intro candidates catalog
  have upheld : ∀ source, catalog.Upholds policy source ↔
      ∃ association ∈ associations records, association.Names source ∧
        policy.qualifies association.provenance = true ∧
        firstTouching candidates association.hash records = some association := by
    intro source
    rw [upholds_load_iff]
    constructor
    · rintro ⟨-, association, named, admitted, first⟩
      have member := mem_associations.mpr (firstTouching_some first).1
      exact ⟨association, member, named, (Policy.qualifies_iff selective).mpr admitted, first⟩
    · rintro ⟨association, member, named, qualifies, first⟩
      have candidate : source ∈ candidates := Candidates.mem_select.mpr ⟨association, member, qualifies, named⟩
      exact ⟨candidate, association, named, (Policy.qualifies_iff selective).mp qualifies, first⟩
  refine ⟨upheld, fun distinct source candidate => ?_⟩
  obtain ⟨association, member, qualifies, named⟩ := Candidates.mem_select.mp candidate
  exact (upheld source).mpr
    ⟨association, member, named, qualifies, distinct.firstTouching_eq member (named.touches candidate)⟩

theorem select_upheld_before_repeat :
    let distinct : List Record := [.association ⟨"b", ⟨1, none⟩, [⟨1, 4096⟩, ⟨2, 0⟩]⟩,
      .association ⟨"c", ⟨2, none⟩, [⟨2, 4096⟩]⟩]
    let records := distinct ++ [.association ⟨"b", ⟨4, some "H"⟩, [⟨2, 8192⟩]⟩]
    ({} : Policy).includeAll = false ∧ DistinctHashes distinct ∧ 2 ∈ Candidates.select {} distinct ∧
      (load (fun _ => 0) (Candidates.select {} distinct) distinct).Upholds {} 2 ∧ ¬ DistinctHashes records ∧
      (load (fun _ => 0) (Candidates.select {} records) records).Upholds {} 2 := by
  intro distinct records
  have single : DistinctHashes distinct := by unfold DistinctHashes; decide +kernel
  have repeated : ¬ DistinctHashes records := by unfold DistinctHashes; decide +kernel
  have candidate : 2 ∈ Candidates.select {} distinct := by decide +kernel
  obtain ⟨-, upheld⟩ := select_upheld (fun _ => 0) {} rfl distinct
  obtain ⟨upheld_iff, -⟩ := select_upheld (fun _ => 0) {} rfl records
  refine ⟨rfl, single, candidate, upheld single 2 candidate, repeated, (upheld_iff 2).mpr ?_⟩
  exact ⟨_, List.mem_cons_self, ⟨⟨2, 0⟩, by simp, rfl⟩, rfl, rfl⟩

theorem select_not_upheld :
    let records : List Record :=
      [.association ⟨"a", ⟨5, none⟩, [⟨1, 0⟩]⟩, .association ⟨"a", ⟨1, none⟩, [⟨1, 0⟩]⟩]
    let candidates := Candidates.select {} records
    1 ∈ candidates ∧ ¬ (load (fun _ => 0) candidates records).Upholds {} 1 := by
  intro records candidates
  refine ⟨by decide +kernel, ?_⟩
  rintro ⟨hash, member, count, flags, known, -, admitted⟩
  have only : (load (fun _ => 0) candidates records).hashesOf 1 = ["a"] := by decide +kernel
  have five : (load (fun _ => 0) candidates records).hashCount "a" = some 5 := by decide +kernel
  rw [only, List.mem_singleton] at member
  rw [member, five] at known
  cases known
  exact absurd admitted.rare (by decide)

end Catalog

end FragmentSearch
