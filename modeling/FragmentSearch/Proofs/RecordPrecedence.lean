import FragmentSearch.Proofs.CatalogEntries

namespace FragmentSearch.Catalog

variable {localSize : String → Nat} {candidates : Candidates} {association : Association}

theorem load_ignores {before after : List Record}
    (passed : association.touches candidates = false ∨
      (firstTouching candidates association.hash before).isSome = true) :
    load localSize candidates (before ++ .association association :: after) =
      load localSize candidates (before ++ after) := by
  have unchanged :
      (load localSize candidates before).addAssociation association = load localSize candidates before := by
    rcases passed with untouched | repeated
    · apply addAssociation_of_untouched
      rw [candidates_load, untouched]
    · apply addAssociation_of_known
      rw [containsHash_load, repeated]
  rw [load] at unchanged
  rw [load, load, List.foldl_append, List.foldl_cons, add, unchanged, List.foldl_append]

theorem firstTouching_of_earliest {records : List Record} {hash : String}
    (earliest : (associations records).find? (fun other => other.hash = hash) = some association)
    (touched : association.touches candidates = true) : firstTouching candidates hash records = some association := by
  obtain ⟨named, before, after, split, others⟩ := List.find?_eq_some_iff_append.mp earliest
  rw [decide_eq_true_eq] at named
  apply List.find?_eq_some_iff_append.mpr
  refine ⟨by simp [named, touched], before, after, split, fun other member => ?_⟩
  have unnamed : ¬ other.hash = hash := by simpa using others other member
  simp [unnamed]

theorem load_first_touching (localSize : String → Nat) (candidates : Candidates) (records : List Record)
    (hash : String) :
    let catalog := load localSize candidates records
    let first := firstTouching candidates hash records
    catalog.containsHash hash = first.isSome ∧ catalog.hashCount hash = first.map (·.provenance.count) ∧
      catalog.hashFlags hash = first.map (·.provenance.flags) ∧
      (∀ source blocks, catalog.fileBlocks hash source = some blocks ↔
        source ∈ candidates ∧ ∃ association, first = some association ∧ association.Lists source blocks) ∧
      (∀ earliest, (associations records).find? (fun association => association.hash = hash) = some earliest →
        earliest.touches candidates = true → first = some earliest) ∧
      ∀ before association after, records = before ++ .association association :: after → association.hash = hash →
        association.touches candidates = false ∨ (firstTouching candidates hash before).isSome = true →
          catalog = load localSize candidates (before ++ after) := by
  refine ⟨containsHash_load _ _, hashCount_load _ _, hashFlags_load _ _, fun _ _ => fileBlocks_load_iff, ?_, ?_⟩
  · exact fun _ => firstTouching_of_earliest
  · rintro before association after rfl rfl passed
    exact load_ignores passed

theorem load_first_touching_repeated :
    let records : List Record := [.association ⟨"a", ⟨5, some "H"⟩, [⟨2, 0⟩]⟩,
      .association ⟨"a", ⟨1, none⟩, [⟨1, 4096⟩, ⟨1, 40960⟩]⟩, .association ⟨"a", ⟨9, none⟩, [⟨1, 8192⟩]⟩]
    let earliest : Association := ⟨"a", ⟨5, some "H"⟩, [⟨2, 0⟩]⟩
    let narrow : Candidates := .ofList [1]
    let wide : Candidates := .ofList [1, 2]
    let catalog := load (fun _ => 0) narrow records
    (firstTouching narrow "a" records).map (·.provenance.count) = some 1 ∧ catalog.hashCount "a" = some 1 ∧
      catalog.fileBlocks "a" 1 = some [1, 10] ∧ catalog = load (fun _ => 0) narrow (records.take 2) ∧
      load (fun _ => 0) narrow (records.take 2) = load (fun _ => 0) narrow [records[1]] ∧
      earliest.touches wide = true ∧ firstTouching wide "a" records = some earliest := by
  intro records earliest narrow wide catalog
  obtain ⟨-, count, -, -, -, ignored⟩ := load_first_touching (fun _ => 0) narrow records "a"
  obtain ⟨-, -, -, -, -, passed⟩ := load_first_touching (fun _ => 0) narrow (records.take 2) "a"
  obtain ⟨-, -, -, -, wins, -⟩ := load_first_touching (fun _ => 0) wide records "a"
  have first : (firstTouching narrow "a" records).map (·.provenance.count) = some 1 := by decide +kernel
  have blocks : catalog.fileBlocks "a" 1 = some [1, 10] := by decide +kernel
  have touched : earliest.touches wide = true := by decide +kernel
  refine ⟨first, count.trans first, blocks, ?_, ?_, touched, wins earliest rfl touched⟩
  · exact ignored (records.take 2) _ [] rfl rfl (.inr (by decide +kernel))
  · exact passed [] _ [records[1]] rfl rfl (.inl (by decide +kernel))

theorem load_earliest_passed_over :
    let records : List Record :=
      [.association ⟨"a", ⟨5, none⟩, [⟨2, 0⟩]⟩, .association ⟨"a", ⟨1, none⟩, [⟨1, 4096⟩]⟩]
    let narrow := load (fun _ => 0) (.ofList [1]) records
    let wide := load (fun _ => 0) (.ofList [1, 2]) records
    ((associations records).find? fun association => association.hash = "a").map (·.provenance.count) = some 5 ∧
      narrow.hashCount "a" = some 1 ∧ narrow.fileBlocks "a" 1 = some [1] ∧
      wide.hashCount "a" = some 5 ∧ wide.fileBlocks "a" 1 = none := by
  decide +kernel

end FragmentSearch.Catalog
