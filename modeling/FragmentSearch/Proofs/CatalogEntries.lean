import Mathlib.Data.List.Sort
import FragmentSearch.Catalog

namespace FragmentSearch

structure Association.Lists (association : Association) (source : Nat) (blocks : List Nat) : Prop where
  ne_nil : blocks ≠ []
  ascending : blocks.Pairwise (· < ·)
  mem_iff : ∀ block, block ∈ blocks ↔ ∃ o ∈ association.occurrences, o.source = source ∧ o.block = block

theorem Association.Lists.unique {association : Association} {source : Nat} {blocks others : List Nat}
    (h : association.Lists source blocks) (h' : association.Lists source others) : blocks = others :=
  h.ascending.eq_of_mem_iff h'.ascending fun block => (h.mem_iff block).trans (h'.mem_iff block).symm

def Record.asAssociation? : Record → Option Association
  | .association held => some held
  | .description _ => none

def associations (records : List Record) : List Association := records.filterMap Record.asAssociation?

theorem associations_append (records others : List Record) :
    associations (records ++ others) = associations records ++ associations others := List.filterMap_append

theorem mem_associations {records : List Record} {association : Association} :
    association ∈ associations records ↔ .association association ∈ records := by
  rw [associations, List.mem_filterMap]
  constructor
  · rintro ⟨record, member, carried⟩
    cases record with
    | association other => cases carried; exact member
    | description _ => cases carried
  · exact fun member => ⟨_, member, rfl⟩

def Association.Names (association : Association) (source : Nat) : Prop :=
  ∃ o ∈ association.occurrences, o.source = source

theorem Association.Lists.names {association : Association} {source : Nat} {blocks : List Nat}
    (h : association.Lists source blocks) : association.Names source := by
  obtain ⟨block, member⟩ := List.exists_mem_of_ne_nil blocks h.ne_nil
  obtain ⟨o, listed, named, -⟩ := (h.mem_iff block).mp member
  exact ⟨o, listed, named⟩

def Association.touches (association : Association) (candidates : Candidates) : Bool :=
  association.occurrences.any fun o => candidates.contains o.source

theorem Association.Names.touches {association : Association} {source : Nat} {candidates : Candidates}
    (h : association.Names source) (candidate : source ∈ candidates) : association.touches candidates = true := by
  obtain ⟨o, listed, rfl⟩ := h
  exact List.any_eq_true.mpr ⟨o, listed, by simpa using candidate⟩

/-- The earliest association of a hash that names a candidate. -/
def firstTouching (candidates : Candidates) (hash : String) (records : List Record) : Option Association :=
  (associations records).find? fun association => association.hash = hash && association.touches candidates

theorem firstTouching_some {candidates : Candidates} {hash : String} {records : List Record}
    {association : Association} (h : firstTouching candidates hash records = some association) :
    .association association ∈ records ∧ association.hash = hash ∧ association.touches candidates = true := by
  have found := List.find?_some h
  rw [Bool.and_eq_true, decide_eq_true_eq] at found
  exact ⟨mem_associations.mp (List.mem_of_find?_eq_some h), found⟩

namespace Catalog

variable {localSize : String → Nat} {candidates : Candidates} {catalog : Catalog}

def addPlace (places : Std.TreeMap Nat BlockSet) (o : Occurrence) : Std.TreeMap Nat BlockSet :=
  places.alter o.source fun set => some ((set.getD ∅).insert o.block)

theorem placesOf_eq_foldl (occurrences : List Occurrence) : placesOf occurrences = occurrences.foldl addPlace ∅ := rfl

theorem getElem?_addPlace (places : Std.TreeMap Nat BlockSet) (o : Occurrence) (source : Nat) :
    (addPlace places o)[source]? =
      if o.source = source then some ((places[source]?.getD ∅).insert o.block) else places[source]? := by
  rw [addPlace, Std.TreeMap.getElem?_alter]
  by_cases h : o.source = source <;> simp [h]

theorem isSome_foldl_addPlace (occurrences : List Occurrence) (places : Std.TreeMap Nat BlockSet) (source : Nat) :
    (occurrences.foldl addPlace places)[source]?.isSome ↔
      places[source]?.isSome ∨ ∃ o ∈ occurrences, o.source = source := by
  induction occurrences generalizing places with
  | nil => simp
  | cons o rest ih =>
    rw [List.foldl_cons, ih, getElem?_addPlace]
    by_cases h : o.source = source <;> simp [h]

theorem mem_foldl_addPlace (occurrences : List Occurrence) (places : Std.TreeMap Nat BlockSet) (source block : Nat) :
    block ∈ (occurrences.foldl addPlace places)[source]?.getD ∅ ↔
      block ∈ places[source]?.getD ∅ ∨ ∃ o ∈ occurrences, o.source = source ∧ o.block = block := by
  induction occurrences generalizing places with
  | nil => simp
  | cons o rest ih =>
    rw [List.foldl_cons, ih, getElem?_addPlace]
    by_cases h : o.source = source
    · simp only [h, ↓reduceIte, Option.getD_some, Std.TreeSet.mem_insert, Nat.compare_eq_eq, List.mem_cons,
        exists_eq_or_imp, true_and, or_assoc]
      exact or_left_comm
    · simp only [h, ↓reduceIte, List.mem_cons, exists_eq_or_imp, false_and, false_or]

theorem isSome_placesOf (occurrences : List Occurrence) (source : Nat) :
    (placesOf occurrences)[source]?.isSome ↔ ∃ o ∈ occurrences, o.source = source := by
  rw [placesOf_eq_foldl, isSome_foldl_addPlace]
  simp

theorem mem_placesOf (occurrences : List Occurrence) (source block : Nat) :
    block ∈ (placesOf occurrences)[source]?.getD ∅ ↔ ∃ o ∈ occurrences, o.source = source ∧ o.block = block := by
  rw [placesOf_eq_foldl, mem_foldl_addPlace]
  simp

theorem places_lists {association : Association} {source : Nat} {set : BlockSet}
    (h : (placesOf (catalog.relevant association))[source]? = some set) :
    source ∈ catalog.candidates ∧ association.Lists source set.toList := by
  obtain ⟨o, ho, rfl⟩ := (isSome_placesOf (catalog.relevant association) source).mp (by rw [h]; rfl)
  have candidate : o.source ∈ catalog.candidates := by simpa using (List.mem_filter.mp ho).2
  have blocks : ∀ block, block ∈ set ↔ ∃ x ∈ catalog.relevant association, x.source = o.source ∧ x.block = block := by
    intro block
    rw [← mem_placesOf, h, Option.getD_some]
  refine ⟨candidate, ?_, ?_, ?_⟩
  · exact List.ne_nil_of_mem (Std.TreeSet.mem_toList.mpr ((blocks o.block).mpr ⟨o, ho, rfl, rfl⟩))
  · exact set.ordered_toList.imp Nat.compare_eq_lt.mp
  · intro block
    rw [Std.TreeSet.mem_toList, blocks]
    constructor
    · rintro ⟨other, hm, hs, hb⟩
      exact ⟨other, (List.mem_filter.mp hm).1, hs, hb⟩
    · rintro ⟨other, hm, hs, hb⟩
      refine ⟨other, List.mem_filter.mpr ⟨hm, ?_⟩, hs, hb⟩
      simpa [hs] using candidate

theorem places_of_names (catalog : Catalog) {association : Association} {source : Nat}
    (candidate : source ∈ catalog.candidates) (named : association.Names source) :
    ∃ set, (placesOf (catalog.relevant association))[source]? = some set := by
  obtain ⟨o, listed, rfl⟩ := named
  apply Option.isSome_iff_exists.mp
  exact (isSome_placesOf _ _).mpr ⟨o, List.mem_filter.mpr ⟨listed, by simpa using candidate⟩, rfl⟩

def entryOf (catalog : Catalog) (association : Association) : HashEntry :=
  ⟨association.provenance.count, association.provenance.flags, placesOf (catalog.relevant association)⟩

theorem candidates_add (record : Record) : (catalog.add localSize record).candidates = catalog.candidates := by
  cases record with
  | association association =>
    simp only [add, addAssociation]
    split <;> rfl
  | description description =>
    simp only [add, addDescription]
    split <;> rfl

theorem candidates_foldl (records : List Record) (catalog : Catalog) :
    (records.foldl (add localSize) catalog).candidates = catalog.candidates := by
  induction records generalizing catalog with
  | nil => rfl
  | cons record records ih => rw [List.foldl_cons, ih, candidates_add]

theorem candidates_load (records : List Record) : (load localSize candidates records).candidates = candidates :=
  candidates_foldl records { candidates }

theorem load_concat (records : List Record) (record : Record) :
    load localSize candidates (records ++ [record]) = (load localSize candidates records).add localSize record := by
  rw [load, load, List.foldl_append]
  rfl

theorem entryOf_add (record : Record) : (catalog.add localSize record).entryOf = catalog.entryOf := by
  funext association
  simp only [entryOf, relevant, candidates_add]

theorem relevant_eq_nil_iff {association : Association} :
    catalog.relevant association = [] ↔ association.touches catalog.candidates = false := by
  simp [relevant, Association.touches]

theorem addAssociation_of_untouched {association : Association}
    (untouched : association.touches catalog.candidates = false) : catalog.addAssociation association = catalog := by
  rw [addAssociation]
  simp [relevant_eq_nil_iff.mpr untouched]

theorem addAssociation_of_known {association : Association} (known : catalog.containsHash association.hash = true) :
    catalog.addAssociation association = catalog := by
  rw [containsHash] at known
  rw [addAssociation]
  simp [known]

theorem addAssociation_of_new {association : Association} (touched : association.touches catalog.candidates = true)
    (new : catalog.containsHash association.hash = false) :
    catalog.addAssociation association =
      { catalog with
        entries := catalog.entries.insert association.hash (catalog.entryOf association)
        standings := credit association.hash association.provenance.count catalog.standings
          (catalog.relevant association) } := by
  have some_relevant : ¬ catalog.relevant association = [] := by
    rw [relevant_eq_nil_iff, touched]
    decide
  rw [containsHash] at new
  rw [addAssociation]
  simp [some_relevant, new, entryOf]

theorem addAssociation_cases (catalog : Catalog) (association : Association) :
    catalog.addAssociation association = catalog ∨
      catalog.containsHash association.hash = false ∧
        catalog.addAssociation association =
          { catalog with
            entries := catalog.entries.insert association.hash (catalog.entryOf association)
            standings := credit association.hash association.provenance.count catalog.standings
              (catalog.relevant association) } := by
  cases touched : association.touches catalog.candidates with
  | false => exact .inl (addAssociation_of_untouched touched)
  | true =>
    cases known : catalog.containsHash association.hash with
    | true => exact .inl (addAssociation_of_known known)
    | false => exact .inr ⟨rfl, addAssociation_of_new touched known⟩

theorem firstTouching_association (candidates : Candidates) (hash : String) (association : Association) :
    firstTouching candidates hash [.association association] =
      if association.hash = hash ∧ association.touches candidates = true then some association else none := by
  have only : associations [.association association] = [association] := rfl
  rw [firstTouching, only, List.find?_singleton]
  simp only [Bool.and_eq_true, decide_eq_true_eq]

theorem firstTouching_cons (candidates : Candidates) (hash : String) (record : Record) (records : List Record) :
    firstTouching candidates hash (record :: records) =
      (firstTouching candidates hash [record]).or (firstTouching candidates hash records) := by
  rw [← List.singleton_append, firstTouching, associations_append, List.find?_append]
  rfl

theorem getElem?_entries_add (record : Record) (hash : String) :
    (catalog.add localSize record).entries[hash]? =
      catalog.entries[hash]?.or ((firstTouching catalog.candidates hash [record]).map catalog.entryOf) := by
  cases record with
  | description description =>
    have nothing : firstTouching catalog.candidates hash [.description description] = none := rfl
    simp only [add, addDescription, nothing, Option.map_none, Option.or_none]
    split <;> rfl
  | association association =>
    rw [add, firstTouching_association]
    cases touched : association.touches catalog.candidates with
    | false =>
      rw [addAssociation_of_untouched touched]
      simp
    | true =>
      cases known : catalog.containsHash association.hash with
      | true =>
        rw [addAssociation_of_known known]
        by_cases same : association.hash = hash
        · obtain ⟨entry, found⟩ := Option.isSome_iff_exists.mp
            (Std.TreeMap.contains_eq_isSome_getElem?.symm.trans known)
          rw [← same, found, Option.some_or]
        · simp [same]
      | false =>
        rw [addAssociation_of_new touched known, Std.TreeMap.getElem?_insert]
        by_cases same : association.hash = hash
        · subst same
          have new : catalog.entries[association.hash]? = none :=
            Std.TreeMap.getElem?_eq_none_of_contains_eq_false known
          simp [new]
        · simp [same]

theorem getElem?_entries_foldl (records : List Record) (catalog : Catalog) (hash : String) :
    (records.foldl (add localSize) catalog).entries[hash]? =
      catalog.entries[hash]?.or ((firstTouching catalog.candidates hash records).map catalog.entryOf) := by
  induction records generalizing catalog with
  | nil => simp [firstTouching, associations]
  | cons record records ih =>
    rw [List.foldl_cons, ih, getElem?_entries_add, candidates_add, entryOf_add, Option.or_assoc, ← Option.map_or,
      ← firstTouching_cons]

theorem getElem?_entries_load (records : List Record) (hash : String) :
    (load localSize candidates records).entries[hash]? =
      (firstTouching candidates hash records).map ({ candidates } : Catalog).entryOf := by
  rw [load, getElem?_entries_foldl]
  simp

theorem hashCount_load (records : List Record) (hash : String) :
    (load localSize candidates records).hashCount hash =
      (firstTouching candidates hash records).map (·.provenance.count) := by
  rw [hashCount, getElem?_entries_load, Option.map_map]
  rfl

theorem hashFlags_load (records : List Record) (hash : String) :
    (load localSize candidates records).hashFlags hash =
      (firstTouching candidates hash records).map (·.provenance.flags) := by
  rw [hashFlags, getElem?_entries_load, Option.map_map]
  rfl

theorem containsHash_load (records : List Record) (hash : String) :
    (load localSize candidates records).containsHash hash = (firstTouching candidates hash records).isSome := by
  rw [containsHash, Std.TreeMap.contains_eq_isSome_getElem?, getElem?_entries_load, Option.isSome_map]

theorem fileBlocks_load_iff {records : List Record} {hash : String} {source : Nat} {blocks : List Nat} :
    (load localSize candidates records).fileBlocks hash source = some blocks ↔
      source ∈ candidates ∧
        ∃ association, firstTouching candidates hash records = some association ∧ association.Lists source blocks := by
  simp only [fileBlocks, getElem?_entries_load, Option.bind_eq_bind, Option.bind_eq_some_iff, Option.some.injEq,
    Option.map_eq_some_iff]
  constructor
  · rintro ⟨-, ⟨association, first, rfl⟩, set, hs, rfl⟩
    obtain ⟨candidate, lists⟩ := places_lists hs
    exact ⟨candidate, association, first, lists⟩
  · rintro ⟨candidate, association, first, lists⟩
    obtain ⟨set, hs⟩ := places_of_names { candidates } candidate lists.names
    exact ⟨_, ⟨association, first, rfl⟩, set, hs, (places_lists hs).2.unique lists⟩

theorem fileBlocks_load {records : List Record} {hash : String} {source : Nat} {blocks : List Nat}
    (h : (load localSize candidates records).fileBlocks hash source = some blocks) :
    ∃ association, .association association ∈ records ∧ association.hash = hash ∧
      (load localSize candidates records).hashCount hash = some association.provenance.count ∧
      source ∈ candidates ∧ association.Lists source blocks := by
  obtain ⟨candidate, association, first, lists⟩ := fileBlocks_load_iff.mp h
  obtain ⟨member, named, -⟩ := firstTouching_some first
  exact ⟨association, member, named, by rw [hashCount_load, first]; rfl, candidate, lists⟩

def hashSet (standings : Std.TreeMap Nat Standing) (source : Nat) : Std.TreeSet String :=
  (standings[source]?.getD {}).hashes

theorem mem_hashesOf {source : Nat} {hash : String} :
    hash ∈ catalog.hashesOf source ↔ hash ∈ hashSet catalog.standings source := by
  rw [hashesOf, hashSet]
  cases catalog.standings[source]? <;> simp

theorem nodup_hashesOf (catalog : Catalog) (source : Nat) : (catalog.hashesOf source).Nodup := by
  rw [hashesOf]
  split
  · rename_i standing _
    apply standing.hashes.distinct_toList.imp
    rintro hash _ apart rfl
    exact apart Std.ReflCmp.compare_self
  · exact .nil

theorem mem_hashSet_credit (hash : String) (count : Nat) (standings : Std.TreeMap Nat Standing)
    (occurrences : List Occurrence) (source : Nat) (other : String) :
    other ∈ hashSet (credit hash count standings occurrences) source ↔
      other ∈ hashSet standings source ∨ hash = other ∧ ∃ o ∈ occurrences, o.source = source := by
  unfold credit
  induction occurrences generalizing standings with
  | nil => simp
  | cons o rest ih =>
    rw [List.foldl_cons, ih, hashSet, Std.TreeMap.getElem?_alter]
    by_cases same : o.source = source
    · subst same
      simp only [Std.ReflCmp.compare_self, ↓reduceIte, Option.getD_some, Standing.add, Std.TreeSet.mem_insert,
        Std.compare_eq_iff_eq, List.mem_cons, exists_eq_or_imp, true_or, and_true, hashSet]
      by_cases new : hash = other <;> simp [new]
    · simp only [Nat.compare_eq_eq, same, ↓reduceIte, List.mem_cons, exists_eq_or_imp, false_or, hashSet]

def Placed (catalog : Catalog) : Prop :=
  ∀ source, ∀ hash ∈ catalog.hashesOf source, ∃ blocks, catalog.fileBlocks hash source = some blocks

theorem containsHash_of_fileBlocks {source : Nat} {hash : String} {blocks : List Nat}
    (h : catalog.fileBlocks hash source = some blocks) : catalog.containsHash hash = true := by
  simp only [fileBlocks, Option.bind_eq_bind, Option.bind_eq_some_iff] at h
  obtain ⟨entry, he, -⟩ := h
  rw [containsHash, Std.TreeMap.contains_eq_isSome_getElem?, he]
  rfl

theorem fileBlocks_eq_some {source : Nat} {hash : String} {entry : HashEntry} (h : catalog.entries[hash]? = some entry)
    {set : BlockSet} (hs : entry.places[source]? = some set) : catalog.fileBlocks hash source = some set.toList := by
  simp [fileBlocks, h, hs]

theorem placed_addAssociation (placed : catalog.Placed) (association : Association) :
    (catalog.addAssociation association).Placed := by
  rcases catalog.addAssociation_cases association with same | ⟨new, added⟩
  · rwa [same]
  · rw [added]
    intro source hash member
    rw [mem_hashesOf, mem_hashSet_credit] at member
    rcases member with before | ⟨rfl, named⟩
    · obtain ⟨blocks, hb⟩ := placed source hash (mem_hashesOf.mpr before)
      refine ⟨blocks, ?_⟩
      -- a hash that is known already is not the new one, so its entry stays
      have other : ¬ association.hash = hash := by
        rintro rfl
        rw [containsHash_of_fileBlocks hb] at new
        cases new
      simpa [fileBlocks, Std.TreeMap.getElem?_insert, other] using hb
    · obtain ⟨set, hs⟩ := Option.isSome_iff_exists.mp ((isSome_placesOf _ source).mpr named)
      exact ⟨_, fileBlocks_eq_some Std.TreeMap.getElem?_insert_self hs⟩

def Credited (catalog : Catalog) : Prop :=
  ∀ source hash blocks, catalog.fileBlocks hash source = some blocks → hash ∈ catalog.hashesOf source

theorem credited_addAssociation (credited : catalog.Credited) (association : Association) :
    (catalog.addAssociation association).Credited := by
  rcases catalog.addAssociation_cases association with same | ⟨-, added⟩
  · rwa [same]
  · rw [added]
    intro source hash blocks hb
    rw [mem_hashesOf, mem_hashSet_credit]
    by_cases same : association.hash = hash
    · right
      subst same
      simp only [fileBlocks, Std.TreeMap.getElem?_insert_self, Option.bind_eq_bind, Option.bind_some, entryOf,
        Option.bind_eq_some_iff] at hb
      obtain ⟨set, hs, -⟩ := hb
      exact ⟨rfl, (isSome_placesOf _ source).mp (by rw [hs]; rfl)⟩
    · left
      apply mem_hashesOf.mp
      apply credited source hash blocks
      simpa [fileBlocks, Std.TreeMap.getElem?_insert, same] using hb

theorem load_preserves {P : Catalog → Prop} (start : P { candidates })
    (step : ∀ catalog, P catalog → ∀ association, P (catalog.addAssociation association))
    (described : ∀ catalog, P catalog → ∀ sources, P { catalog with sources }) (records : List Record) :
    P (load localSize candidates records) := by
  have run : ∀ catalog, P catalog → P (records.foldl (add localSize) catalog) := by
    induction records with
    | nil => exact fun _ before => before
    | cons record records ih =>
      intro catalog before
      apply ih
      cases record with
      | association association => exact step catalog before association
      | description description =>
        rw [add, addDescription]
        split
        · exact described catalog before _
        · exact before
  exact run _ start

theorem placed_load (records : List Record) : (load localSize candidates records).Placed := by
  apply load_preserves _ (fun _ => placed_addAssociation) (fun _ placed _ => placed)
  intro source hash member
  simp [mem_hashesOf, hashSet] at member

theorem credited_load (records : List Record) : (load localSize candidates records).Credited := by
  apply load_preserves _ (fun _ => credited_addAssociation) (fun _ credited _ => credited)
  intro source hash blocks hb
  simp [fileBlocks] at hb

theorem mem_hashesOf_load {records : List Record} {source : Nat} {hash : String} :
    hash ∈ (load localSize candidates records).hashesOf source ↔
      source ∈ candidates ∧
        ∃ association, firstTouching candidates hash records = some association ∧ association.Names source := by
  constructor
  · intro member
    obtain ⟨blocks, hb⟩ := placed_load records source hash member
    obtain ⟨candidate, association, first, lists⟩ := fileBlocks_load_iff.mp hb
    exact ⟨candidate, association, first, lists.names⟩
  · rintro ⟨candidate, association, first, named⟩
    obtain ⟨set, hs⟩ := places_of_names { candidates } candidate named
    apply credited_load records source hash set.toList
    exact fileBlocks_load_iff.mpr ⟨candidate, association, first, (places_lists hs).2⟩

end Catalog

end FragmentSearch
