import FragmentSearch.Proofs.CatalogIndices
import FragmentSearch.Proofs.SourceViews

namespace FragmentSearch

structure Queries.Consistent (queries : Queries) (candidates : Candidates) : Prop where
  flags_iff : ∀ hash, queries.contains hash = true ↔ (queries.flags hash).isSome
  table_iff : ∀ hash, queries.contains hash = true ↔ (queries.table hash).isSome
  hashes_iff : ∀ hash source, hash ∈ queries.hashes source ↔ (queries.blocks hash source).isSome
  blocks : ∀ hash source blocks, queries.blocks hash source = some blocks →
    blocks ≠ [] ∧ queries.contains hash = true ∧ source ∈ candidates
  touched : ∀ hash, queries.contains hash = true → ∃ source, hash ∈ queries.hashes source

structure Indices.Confined (indices : Indices) : Prop where
  hashes : ∀ source ∈ indices.hashes, source ∈ indices.candidates
  scores : ∀ source ∈ indices.scores, source ∈ indices.candidates
  sources : ∀ source ∈ indices.sources, source ∈ indices.candidates

namespace Catalog

variable {candidates : Candidates} {catalog : Catalog} {indices : Indices} {source : Nat} {hash : String}

/-- Indices and a catalog that records lead to, one after the other; the files at hand may be others each time. -/
inductive Reachable (candidates : Candidates) : Indices → Catalog → Prop
  | start : Reachable candidates { candidates } { candidates }
  | add {indices : Indices} {catalog : Catalog} (before : Reachable candidates indices catalog)
      (localSize : String → Nat) (record : Record) :
    Reachable candidates (indices.add localSize record) (catalog.add localSize record)

theorem reachable_load (localSize : String → Nat) (candidates : Candidates) (records : List Record) :
    Reachable candidates (records.foldl (Indices.add localSize) { candidates })
      (load localSize candidates records) := by
  induction records using List.reverseRecOn with
  | nil => exact .start
  | append_singleton records record ih =>
    rw [load_concat, List.foldl_concat]
    exact ih.add localSize record

def Made (catalog : Catalog) : Prop :=
  ∀ (hash : String) (entry : HashEntry), catalog.entries[hash]? = some entry →
    ∃ association, association.touches catalog.candidates = true ∧ entry = catalog.entryOf association

theorem made_addAssociation (made : catalog.Made) (association : Association) :
    (catalog.addAssociation association).Made := by
  cases touched : association.touches catalog.candidates with
  | false => rwa [addAssociation_of_untouched touched]
  | true =>
    rcases catalog.addAssociation_cases association with same | ⟨-, added⟩
    · rwa [same]
    · rw [added]
      intro hash entry found
      rw [Std.TreeMap.getElem?_insert] at found
      split at found
      · cases found
        exact ⟨association, touched, rfl⟩
      · exact made hash entry found

theorem mem_of_mem_credit {count : Nat} {standings : Std.TreeMap Nat Standing} {occurrences : List Occurrence}
    (h : source ∈ credit hash count standings occurrences) :
    source ∈ standings ∨ ∃ o ∈ occurrences, o.source = source := by
  by_cases named : ∃ o ∈ occurrences, o.source = source
  · exact .inr named
  · have nowhere : occurrences.filter (·.source = source) = [] := by simpa using named
    rw [Std.TreeMap.mem_iff_isSome_getElem?, getElem?_credit, nowhere] at h
    exact .inl (Std.TreeMap.mem_iff_isSome_getElem?.mpr h)

structure Confined (catalog : Catalog) : Prop where
  standings : ∀ source ∈ catalog.standings, source ∈ catalog.candidates
  sources : ∀ source ∈ catalog.sources, source ∈ catalog.candidates

theorem confined_addAssociation (confined : catalog.Confined) (association : Association) :
    (catalog.addAssociation association).Confined := by
  rcases catalog.addAssociation_cases association with same | ⟨-, added⟩
  · rwa [same]
  · rw [added]
    refine ⟨fun source member => ?_, confined.sources⟩
    rcases mem_of_mem_credit member with before | ⟨o, relevant, rfl⟩
    · exact confined.standings source before
    · simpa using (List.mem_filter.mp relevant).2

structure Coherent (catalog : Catalog) : Prop where
  made : catalog.Made
  placed : catalog.Placed
  credited : catalog.Credited
  confined : catalog.Confined

theorem coherent_start (candidates : Candidates) : ({ candidates } : Catalog).Coherent := by
  refine ⟨?_, ?_, ?_, ?_, ?_⟩
  · intro hash entry found
    simp at found
  · intro source hash member
    simp [mem_hashesOf, hashSet] at member
  · intro source hash blocks found
    simp [fileBlocks] at found
  · intro source member
    simp at member
  · intro source member
    simp at member

theorem Coherent.addDescription (coherent : catalog.Coherent) (localSize : String → Nat) (description : Description) :
    (catalog.addDescription localSize description).Coherent := by
  rw [Catalog.addDescription]
  split
  · rename_i candidate
    refine ⟨coherent.made, coherent.placed, coherent.credited, coherent.confined.standings, ?_⟩
    intro source member
    rcases Std.TreeMap.mem_insert.mp member with same | before
    · rw [← Std.LawfulEqCmp.eq_of_compare same]
      simpa using candidate
    · exact coherent.confined.sources source before
  · exact coherent

theorem Coherent.add (coherent : catalog.Coherent) (localSize : String → Nat) (record : Record) :
    (catalog.add localSize record).Coherent := by
  cases record with
  | association association =>
    exact ⟨made_addAssociation coherent.made association, placed_addAssociation coherent.placed association,
      credited_addAssociation coherent.credited association, confined_addAssociation coherent.confined association⟩
  | description description => exact coherent.addDescription localSize description

theorem Reachable.coherent (reached : Reachable candidates indices catalog) : catalog.Coherent := by
  induction reached with
  | start => exact coherent_start candidates
  | add before localSize record ih => exact ih.add localSize record

theorem Reachable.candidates_eq (reached : Reachable candidates indices catalog) : catalog.candidates = candidates := by
  induction reached with
  | start => rfl
  | add before localSize record ih => rw [candidates_add, ih]

theorem Reachable.mirrors (reached : Reachable candidates indices catalog) : indices.Mirrors catalog := by
  induction reached with
  | start => exact Indices.mirrors_start candidates
  | add before localSize record ih => exact ih.add localSize record

theorem Coherent.blocks_of_candidate (coherent : catalog.Coherent) {blocks : List Nat}
    (found : catalog.fileBlocks hash source = some blocks) : source ∈ catalog.candidates ∧ blocks ≠ [] := by
  simp only [fileBlocks, Option.bind_eq_bind, Option.bind_eq_some_iff, Option.some.injEq] at found
  obtain ⟨entry, known, set, places, rfl⟩ := found
  obtain ⟨association, -, rfl⟩ := coherent.made hash entry known
  obtain ⟨candidate, lists⟩ := places_lists places
  exact ⟨candidate, lists.ne_nil⟩

theorem Coherent.exists_source (coherent : catalog.Coherent) (known : catalog.containsHash hash = true) :
    ∃ source, hash ∈ catalog.hashesOf source := by
  rw [containsHash_eq_isSome, Option.isSome_iff_exists] at known
  obtain ⟨entry, found⟩ := known
  obtain ⟨association, touched, rfl⟩ := coherent.made hash entry found
  obtain ⟨o, listed, candidate⟩ := List.any_eq_true.mp touched
  obtain ⟨set, places⟩ := places_of_names catalog (by simpa using candidate) ⟨o, listed, rfl⟩
  exact ⟨o.source, coherent.credited o.source hash _ (fileBlocks_eq_some found places)⟩

theorem Coherent.consistent (coherent : catalog.Coherent) : catalog.queries.Consistent catalog.candidates := by
  refine ⟨?_, ?_, ?_, ?_, fun _ => coherent.exists_source⟩
  · intro hash
    change catalog.containsHash hash = true ↔ (catalog.entries[hash]?.map (·.flags)).isSome = true
    rw [containsHash_eq_isSome, Option.isSome_map]
  · intro hash
    change catalog.containsHash hash = true ↔ (catalog.entries[hash]?.map (·.places)).isSome = true
    rw [containsHash_eq_isSome, Option.isSome_map]
  · intro hash source
    rw [Option.isSome_iff_exists]
    exact ⟨coherent.placed source hash, fun found => found.elim fun blocks => coherent.credited source hash blocks⟩
  · intro hash source blocks found
    obtain ⟨candidate, filled⟩ := coherent.blocks_of_candidate found
    exact ⟨filled, containsHash_of_fileBlocks found, candidate⟩

theorem Confined.mirrored (confined : catalog.Confined) (mirrors : indices.Mirrors catalog) : indices.Confined := by
  refine ⟨fun source member => ?_, fun source member => ?_, fun source member => ?_⟩
  · rw [Std.TreeMap.mem_iff_isSome_getElem?, mirrors.hashes, Option.isSome_map,
      ← Std.TreeMap.mem_iff_isSome_getElem?] at member
    exact mirrors.candidates ▸ confined.standings source member
  · exact mirrors.candidates ▸ confined.standings source (mirrors.scores source member)
  · exact mirrors.candidates ▸ confined.sources source (mirrors.sources ▸ member)

def Passes (catalog : Catalog) : Record → Prop
  | .association association =>
    catalog.containsHash association.hash = true ∨ association.touches catalog.candidates = false
  | .description description => description.source ∉ catalog.candidates

theorem add_of_passes {record : Record} (passes : catalog.Passes record) (localSize : String → Nat) :
    catalog.add localSize record = catalog := by
  cases record with
  | association association =>
    rcases passes with known | untouched
    · exact addAssociation_of_known known
    · exact addAssociation_of_untouched untouched
  | description description =>
    have other : ¬ catalog.candidates.contains description.source = true := by simpa [Passes] using passes
    rw [add, addDescription, if_neg other]

theorem add_of_passes_mirrored {record : Record} (passes : catalog.Passes record) (mirrors : indices.Mirrors catalog)
    (localSize : String → Nat) : indices.add localSize record = indices := by
  cases record with
  | association association =>
    rcases passes with known | untouched
    · exact Indices.addAssociation_of_known ((mirrors.contains_eq _).trans known)
    · exact Indices.addAssociation_of_untouched (mirrors.candidates ▸ untouched)
  | description description =>
    have other : indices.candidates.contains description.source = false := by
      rw [mirrors.candidates, Bool.eq_false_iff]
      simpa [Passes] using passes
    rw [Indices.add, Indices.addDescription, other]
    rfl

theorem containsHash_addAssociation (catalog : Catalog) (association : Association) (hash : String) :
    (catalog.addAssociation association).containsHash hash = true ↔
      catalog.containsHash hash = true ∨
        association.hash = hash ∧ association.touches catalog.candidates = true := by
  have entry : (catalog.add (fun _ => 0) (.association association)).entries[hash]? = _ :=
    getElem?_entries_add (.association association) hash
  rw [add, firstTouching_association] at entry
  rw [containsHash_eq_isSome, entry, Option.isSome_or, Bool.or_eq_true, Option.isSome_map, containsHash_eq_isSome]
  split <;> simp [*]

theorem reachable_consistent (reached : Reachable candidates indices catalog) :
    indices.queries = catalog.queries ∧ catalog.queries.Consistent candidates ∧
      (indices.candidates = candidates ∧ indices.Confined) ∧ (catalog.candidates = candidates ∧ catalog.Confined) ∧
      (∀ localSize record, catalog.Passes record →
        indices.add localSize record = indices ∧ catalog.add localSize record = catalog) ∧
      ∀ localSize association hash, (catalog.add localSize (.association association)).containsHash hash = true ↔
        catalog.containsHash hash = true ∨ association.hash = hash ∧ association.touches candidates = true := by
  have mirrors := reached.mirrors
  have coherent := reached.coherent
  have same := reached.candidates_eq
  refine ⟨mirrors.queries_eq, same ▸ coherent.consistent,
    ⟨mirrors.candidates.trans same, coherent.confined.mirrored mirrors⟩, ⟨same, coherent.confined⟩, ?_, ?_⟩
  · exact fun localSize _ passes => ⟨add_of_passes_mirrored passes mirrors localSize, add_of_passes passes localSize⟩
  · intro _ association hash
    rw [add, containsHash_addAssociation, same]

theorem reachable_consistent_uncounted :
    let candidates : Candidates := .ofList [1, 2]
    let uncounted : Association := ⟨"a", ⟨0, some "H"⟩, [⟨1, 4096⟩, ⟨3, 0⟩, ⟨1, 4100⟩, ⟨2, 8192⟩]⟩
    let repeated : Association := ⟨"a", ⟨1, none⟩, [⟨2, 0⟩]⟩
    let elsewhere : Association := ⟨"b", ⟨1, none⟩, [⟨3, 0⟩]⟩
    let indices := (({ candidates } : Indices).add (fun _ => 0) (.association uncounted)).add (fun _ => 512)
      (.description ⟨1, "name", none⟩)
    let catalog := (({ candidates } : Catalog).add (fun _ => 0) (.association uncounted)).add (fun _ => 512)
      (.description ⟨1, "name", none⟩)
    Reachable candidates indices catalog ∧ indices.queries = catalog.queries ∧
      catalog.queries.Consistent candidates ∧ catalog.fileBlocks "a" 1 = some [1] ∧
      indices.hashesOf 2 = ["a"] ∧ indices.hashesOf 3 = [] ∧ indices.scores.isEmpty ∧
      catalog.Passes (.association repeated) ∧ indices.add (fun _ => 0) (.association repeated) = indices ∧
      catalog.Passes (.association elsewhere) ∧ indices.add (fun _ => 0) (.association elsewhere) = indices ∧
      catalog.Passes (.description ⟨3, "name", some 1⟩) := by
  intro candidates uncounted repeated elsewhere indices catalog
  have reached : Reachable candidates indices catalog := (Reachable.start.add _ _).add _ _
  obtain ⟨same, consistent, -, -, unchanged, -⟩ := reachable_consistent reached
  have known : catalog.containsHash "a" = true := by decide +kernel
  have untouched : elsewhere.touches catalog.candidates = false := by decide +kernel
  have unknown : 3 ∉ catalog.candidates := by decide +kernel
  have passes : catalog.Passes (.association repeated) := .inl known
  have passes' : catalog.Passes (.association elsewhere) := .inr untouched
  refine ⟨reached, same, consistent, by decide +kernel, by decide +kernel, by decide +kernel, by decide +kernel,
    passes, (unchanged _ _ passes).1, passes', (unchanged _ _ passes').1, unknown⟩

end Catalog

end FragmentSearch
