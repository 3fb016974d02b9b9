import FragmentSearch.Report.Row
import FragmentSearch.Proofs.CandidateFiltering
import FragmentSearch.Proofs.CatalogConsistency
import FragmentSearch.Proofs.RecordPrecedence
import FragmentSearch.Proofs.StreamOrder

namespace FragmentSearch

/-- An association that lists an occurrence of another once more, at any place. -/
structure Association.Repeats (association other : Association) (o : Occurrence) : Prop where
  hash_eq : other.hash = association.hash
  provenance_eq : other.provenance = association.provenance
  listed : o ∈ association.occurrences
  inserted : ∃ front back, association.occurrences = front ++ back ∧ other.occurrences = front ++ o :: back

structure Association.Alike (association other : Association) : Prop where
  hash_eq : other.hash = association.hash
  provenance_eq : other.provenance = association.provenance
  mem_iff : ∀ o, o ∈ other.occurrences ↔ o ∈ association.occurrences

namespace Association

variable {association other : Association} {o : Occurrence} {source : Nat}

theorem Alike.refl (association : Association) : association.Alike association := ⟨rfl, rfl, fun _ => Iff.rfl⟩

theorem Repeats.alike (h : association.Repeats other o) : association.Alike other := by
  obtain ⟨front, back, listed, inserted⟩ := h.inserted
  refine ⟨h.hash_eq, h.provenance_eq, fun x => ?_⟩
  have member := h.listed
  rw [listed] at member
  rw [inserted, listed]
  simp only [List.mem_append, List.mem_cons] at member ⊢
  constructor
  · rintro (early | rfl | late)
    · exact .inl early
    · exact member
    · exact .inr late
  · rintro (early | late)
    · exact .inl early
    · exact .inr (.inr late)

theorem Alike.touches_eq (h : association.Alike other) (candidates : Candidates) :
    other.touches candidates = association.touches candidates := by
  apply Bool.eq_iff_iff.mpr
  simp only [touches, List.any_eq_true, h.mem_iff]

theorem Alike.names_iff (h : association.Alike other) : other.Names source ↔ association.Names source := by
  simp only [Names, h.mem_iff]

theorem Alike.lists_iff (h : association.Alike other) {blocks : List Nat} :
    other.Lists source blocks ↔ association.Lists source blocks := by
  constructor
  · rintro ⟨ne_nil, ascending, mem_iff⟩
    exact ⟨ne_nil, ascending, by simpa only [h.mem_iff] using mem_iff⟩
  · rintro ⟨ne_nil, ascending, mem_iff⟩
    exact ⟨ne_nil, ascending, by simpa only [h.mem_iff] using mem_iff⟩

def creditsIn (source : Nat) (association : Association) : List Nat :=
  (association.occurrences.filter (·.source = source)).map fun _ => association.provenance.count

theorem Repeats.creditsIn_of_ne (h : association.Repeats other o) (apart : source ≠ o.source) :
    other.creditsIn source = association.creditsIn source := by
  obtain ⟨front, back, listed, inserted⟩ := h.inserted
  have dropped : (o :: back).filter (·.source = source) = back.filter (·.source = source) := by
    simp [apart.symm]
  rw [creditsIn, creditsIn, h.provenance_eq, listed, inserted, List.filter_append, List.filter_append, dropped]

theorem Repeats.exists_creditsIn (h : association.Repeats other o) :
    ∃ front back, association.creditsIn o.source = front ++ back ∧
      other.creditsIn o.source = front ++ association.provenance.count :: back := by
  obtain ⟨front, back, listed, inserted⟩ := h.inserted
  refine ⟨(front.filter (·.source = o.source)).map fun _ => association.provenance.count,
    (back.filter (·.source = o.source)).map fun _ => association.provenance.count, ?_, ?_⟩
  · rw [creditsIn, listed, List.filter_append, List.map_append]
  · simp [creditsIn, inserted, h.provenance_eq]

end Association

section Related

variable {α β : Type} {R : α → α → Prop} {found other : Option α}

theorem map_eq_of_related (related : Option.Rel R found other) {f : α → β} (same : ∀ a b, R a b → f b = f a) :
    other.map f = found.map f := by
  cases related with
  | none => rfl
  | some held => exact congrArg some (same _ _ held)

theorem exists_some_iff_of_related (related : Option.Rel R found other) {P : α → Prop}
    (same : ∀ a b, R a b → (P b ↔ P a)) : (∃ b, other = some b ∧ P b) ↔ ∃ a, found = some a ∧ P a := by
  cases related with
  | none => simp
  | some held => simpa using same _ _ held

end Related

theorem firstTouching_alike {association other : Association} (h : association.Alike other) (candidates : Candidates)
    (hash : String) (before after : List Record) :
    Option.Rel Association.Alike (firstTouching candidates hash (before ++ .association association :: after))
      (firstTouching candidates hash (before ++ .association other :: after)) := by
  have refl : ∀ found : Option Association, Option.Rel Association.Alike found found := by
    rintro (_ | found)
    · exact .none
    · exact .some (.refl found)
  have split : ∀ held, associations (before ++ .association held :: after) =
      associations before ++ held :: associations after := fun held => associations_append before _
  rw [firstTouching, firstTouching, split, split, List.find?_append, List.find?_append, List.find?_cons,
    List.find?_cons, h.hash_eq, h.touches_eq]
  cases (associations before).find? _ with
  | some found => exact refl _
  | none =>
    split
    · exact .some h
    · exact refl _

/-- The associations that a catalog takes up when it has some hashes already: of each other hash the first that touches
a candidate. -/
def takenUp (candidates : Candidates) (known : List String) : List Association → List Association
  | [] => []
  | association :: rest =>
    if association.touches candidates && !known.contains association.hash then
      association :: takenUp candidates (association.hash :: known) rest
    else takenUp candidates known rest

theorem exists_takenUp_split (candidates : Candidates) {known : List String} {hash : String} {before : List Association}
    (new : hash ∉ known) (first : ∀ earlier ∈ before, earlier.hash = hash → earlier.touches candidates = false)
    (after : List Association) :
    ∃ earlier later, ∀ association : Association, association.hash = hash → association.touches candidates = true →
      takenUp candidates known (before ++ association :: after) = earlier ++ association :: later := by
  induction before generalizing known with
  | nil =>
    refine ⟨[], takenUp candidates (hash :: known) after, ?_⟩
    rintro association rfl touched
    simp [takenUp, touched, new]
  | cons head before ih =>
    obtain ⟨passed, first⟩ := List.forall_mem_cons.mp first
    by_cases taken : (head.touches candidates && !known.contains head.hash) = true
    · have apart : hash ≠ head.hash := by
        rintro rfl
        simp [passed rfl] at taken
      have newer : hash ∉ head.hash :: known := by simp [apart, new]
      obtain ⟨earlier, later, split⟩ := ih newer first
      refine ⟨head :: earlier, later, fun association named touched => ?_⟩
      rw [List.cons_append, takenUp, if_pos taken, split association named touched, List.cons_append]
    · obtain ⟨earlier, later, split⟩ := ih new first
      refine ⟨earlier, later, fun association named touched => ?_⟩
      rw [List.cons_append, takenUp, if_neg taken, split association named touched]

namespace Catalog

variable {localSize : String → Nat} {candidates : Candidates} {catalog other : Catalog} {source : Nat}

def raised (score : Float) (counts : List Nat) : Float := counts.foldl (fun sum count => sum + rarity count) score

def credits (candidates : Candidates) (records : List Record) (source : Nat) : List Nat :=
  (takenUp candidates [] (associations records)).flatMap (·.creditsIn source)

theorem score_eq (catalog : Catalog) (source : Nat) :
    catalog.score source = (catalog.standings[source]?.getD {}).score := by
  rw [score]
  cases catalog.standings[source]? <;> rfl

theorem score_credited (standing : Option Standing) (hash : String) (count : Nat) (occurrences : List Occurrence) :
    ((occurrences.foldl (fun standing _ => some ((standing.getD {}).add hash count)) standing).getD {}).score =
      raised (standing.getD {}).score (occurrences.map fun _ => count) := by
  induction occurrences generalizing standing with
  | nil => rfl
  | cons o rest ih =>
    rw [List.foldl_cons, ih]
    rfl

theorem score_addAssociation (candidate : source ∈ catalog.candidates) {association : Association}
    (new : catalog.containsHash association.hash = false) :
    (catalog.addAssociation association).score source =
      raised (catalog.score source) (association.creditsIn source) := by
  rw [score_eq, standings_addAssociation candidate new, Standing.credited, score_credited, ← score_eq]
  rfl

theorem containsHash_add_of_new {association : Association} (touched : association.touches catalog.candidates = true)
    (new : catalog.containsHash association.hash = false) (hash : String) :
    (catalog.addAssociation association).containsHash hash =
      (association.hash == hash || catalog.containsHash hash) := by
  have same : (compare association.hash hash == .eq) = (association.hash == hash) := by
    rw [Bool.eq_iff_iff, beq_iff_eq, beq_iff_eq, Std.compare_eq_iff_eq]
  rw [addAssociation_of_new touched new, containsHash, containsHash, Std.TreeMap.contains_insert, same]

theorem addDescription_parts (localSize : String → Nat) (catalog : Catalog) (description : Description) :
    (catalog.addDescription localSize description).entries = catalog.entries ∧
      (catalog.addDescription localSize description).standings = catalog.standings := by
  rw [addDescription]
  split <;> exact ⟨rfl, rfl⟩

theorem score_foldl (candidate : source ∈ catalog.candidates) (records : List Record) {known : List String}
    (contained : ∀ hash, catalog.containsHash hash = known.contains hash) :
    (records.foldl (add localSize) catalog).score source =
      raised (catalog.score source)
        ((takenUp catalog.candidates known (associations records)).flatMap (·.creditsIn source)) := by
  induction records generalizing catalog known with
  | nil => rfl
  | cons record records ih =>
    have listed : (catalog.add localSize record).candidates = catalog.candidates := candidates_add record
    have onward := @ih (catalog.add localSize record) (by rwa [listed])
    rw [listed] at onward
    rw [List.foldl_cons]
    cases record with
    | description description =>
      obtain ⟨entries, standings⟩ := addDescription_parts localSize catalog description
      rw [@onward known, score_eq, score_eq, add, standings]
      · rfl
      · intro hash
        rw [add, containsHash, entries]
        exact contained hash
    | association association =>
      have first : associations (.association association :: records) = association :: associations records := rfl
      rw [first, takenUp]
      split
      · rename_i taken
        rw [Bool.and_eq_true, Bool.not_eq_true', ← contained] at taken
        obtain ⟨touched, new⟩ := taken
        rw [@onward (association.hash :: known), add, score_addAssociation candidate new, List.flatMap_cons,
          raised, raised, raised, List.foldl_append]
        intro hash
        rw [add, containsHash_add_of_new touched new, contained, List.contains_cons, Bool.beq_comm]
      · rename_i passed
        rw [Bool.and_eq_true, Bool.not_eq_true', ← contained, not_and_or, Bool.not_eq_true, Bool.not_eq_false] at passed
        have unchanged : catalog.addAssociation association = catalog :=
          passed.elim addAssociation_of_untouched addAssociation_of_known
        rw [@onward known, add, unchanged]
        rwa [add, unchanged]

theorem score_load (candidate : source ∈ candidates) (records : List Record) :
    (load localSize candidates records).score source = raised 0 (credits candidates records source) := by
  have start : ∀ hash, ({ candidates } : Catalog).containsHash hash = [].contains hash := by simp [containsHash]
  exact score_foldl candidate records start

theorem load_of_foreign (foreign : source ∉ candidates) (records : List Record) :
    (load localSize candidates records).standings[source]? = none ∧
      (load localSize candidates records).sources[source]? = none := by
  have confined := (reachable_load localSize candidates records).coherent.confined
  have foreign : source ∉ (load localSize candidates records).candidates := by rwa [candidates_load]
  exact ⟨Std.TreeMap.getElem?_eq_none (mt (confined.standings source) foreign),
    Std.TreeMap.getElem?_eq_none (mt (confined.sources source) foreign)⟩

theorem source_load_of_association (records : List Record) (held : Association) (after : List Record) (source : Nat) :
    (load localSize candidates (records ++ .association held :: after)).source source =
      (load localSize candidates (records ++ after)).source source := by
  by_cases candidate : source ∈ candidates
  · rw [Catalog.source, Catalog.source, sources_load candidate, sources_load candidate, List.foldl_append,
      List.foldl_append]
    rfl
  · rw [Catalog.source, Catalog.source, (load_of_foreign candidate _).2, (load_of_foreign candidate _).2]

theorem exists_credits_split (candidates : Candidates) {hash : String} {before : List Record}
    (new : firstTouching candidates hash before = none) (after : List Record) :
    ∃ earlier later : Nat → List Nat, ∀ held : Association, held.hash = hash → held.touches candidates = true →
      ∀ source, credits candidates (before ++ .association held :: after) source =
        earlier source ++ held.creditsIn source ++ later source := by
  have first : ∀ passed ∈ associations before, passed.hash = hash → passed.touches candidates = false := by
    intro passed member named
    simpa [named] using List.find?_eq_none.mp new passed member
  obtain ⟨earlier, later, split⟩ := exists_takenUp_split candidates List.not_mem_nil first (associations after)
  refine ⟨fun source => earlier.flatMap (·.creditsIn source), fun source => later.flatMap (·.creditsIn source), ?_⟩
  intro held named touched source
  have listed : associations (before ++ .association held :: after) =
      associations before ++ held :: associations after := associations_append before _
  rw [credits, listed, split held named touched, List.flatMap_append, List.flatMap_cons, List.append_assoc]

structure SameExcept (catalog other : Catalog) (source : Nat) : Prop where
  candidates_eq : other.candidates = catalog.candidates
  places : other.SamePlaces catalog
  flags : ∀ hash, other.hashFlags hash = catalog.hashFlags hash
  descriptions : ∀ id, other.source id = catalog.source id
  scores : ∀ id, id ≠ source → other.score id = catalog.score id

theorem SameExcept.ranked_eq (same : catalog.SameExcept other source) :
    other.ranked.filter (· ≠ source) = catalog.ranked.filter (· ≠ source) := by
  apply eq_filter_ranked (other.pairwise_ranked.filter _)
  · rw [ranked, ranked, same.candidates_eq]
    exact ((perm_sorted _ _).trans (perm_sorted _ _).symm).filter _
  · have apart : ∀ id ∈ catalog.ranked.filter (· ≠ source), id ≠ source :=
      fun id member => of_decide_eq_true (List.mem_filter.mp member).2
    intro a ha b hb
    rw [ranksBefore, ranksBefore, same.scores a (apart a ha), same.scores b (apart b hb), same.descriptions,
      same.descriptions]

def compareSetRows : SetRow → SetRow → Ordering :=
  compareLex (compareLex (fun a b => compareOn (fun row => Decimal.orderKey (row.normalized.getD (-1))) b a)
    (fun a b => compareOn (fun row => Decimal.orderKey row.score) b a)) (compareOn SetRow.file)

instance : Std.TransCmp compareSetRows :=
  inferInstanceAs (Std.TransCmp (compareLex (compareLex _ _) _))

theorem SameExcept.sets_eq (same : catalog.SameExcept other source) :
    other.sets.filter (·.source ≠ source) = catalog.sets.filter (·.source ≠ source) := by
  have rows : (other.candidates.toList.map other.setRow).filter (·.source ≠ source) =
      (catalog.candidates.toList.map catalog.setRow).filter (·.source ≠ source) := by
    rw [same.candidates_eq, List.filter_map, List.filter_map]
    apply List.map_congr_left
    intro id member
    have apart : id ≠ source := of_decide_eq_true (List.mem_filter.mp member).2
    rw [setRow, setRow, same.descriptions, same.scores id apart]
  have stable := filter_sorted compareSetRows (·.source ≠ source)
  exact (stable _).trans ((congrArg _ rows).trans (stable _).symm)

section Repeated

variable {association held : Association} {o : Occurrence} {before after : List Record}

theorem addAssociation_of_foreign (repeats : association.Repeats held o) (foreign : o.source ∉ catalog.candidates) :
    catalog.addAssociation held = catalog.addAssociation association := by
  obtain ⟨front, back, listed, inserted⟩ := repeats.inserted
  have same : catalog.relevant held = catalog.relevant association := by
    simp [relevant, listed, inserted, foreign]
  simp only [addAssociation, same, repeats.hash_eq, repeats.provenance_eq]

theorem load_of_uncounted (localSize : String → Nat) (repeats : association.Repeats held o)
    (uncounted : o.source ∉ candidates ∨ (firstTouching candidates association.hash before).isSome = true)
    (after : List Record) :
    load localSize candidates (before ++ .association held :: after) =
      load localSize candidates (before ++ .association association :: after) := by
  rcases uncounted with foreign | known
  · have listed : (load localSize candidates before).candidates = candidates := candidates_load before
    have same : (load localSize candidates before).addAssociation held =
        (load localSize candidates before).addAssociation association :=
      addAssociation_of_foreign repeats (by rwa [listed])
    rw [load] at same
    rw [load, load, List.foldl_append, List.foldl_append, List.foldl_cons, List.foldl_cons, add, add, same]
  · rw [load_ignores (.inr known), load_ignores (.inr (repeats.hash_eq.symm ▸ known))]

theorem samePlaces_of_alike (localSize : String → Nat) (candidates : Candidates) (alike : association.Alike held)
    (before after : List Record) :
    (load localSize candidates (before ++ .association held :: after)).SamePlaces
      (load localSize candidates (before ++ .association association :: after)) := by
  have first := fun hash => firstTouching_alike alike candidates hash before after
  have counts := fun hash =>
    map_eq_of_related (first hash) (f := (·.provenance.count)) fun _ _ same => by rw [same.provenance_eq]
  constructor
  · intro hash
    rw [containsHash_load, containsHash_load]
    simpa using congrArg Option.isSome (counts hash)
  · intro hash
    rw [hashCount_load, hashCount_load]
    exact counts hash
  · intro source hash
    apply Option.ext
    intro blocks
    rw [fileBlocks_load_iff, fileBlocks_load_iff,
      exists_some_iff_of_related (first hash) fun _ _ same => same.lists_iff]
  · intro source
    apply hashesOf_eq_of_mem_iff
    intro hash
    rw [mem_hashesOf_load, mem_hashesOf_load, exists_some_iff_of_related (first hash) fun _ _ same => same.names_iff]

theorem exists_credits_repeated (repeats : association.Repeats held o) (candidate : o.source ∈ candidates)
    (new : firstTouching candidates association.hash before = none) (after : List Record) :
    (∀ source, source ≠ o.source → credits candidates (before ++ .association held :: after) source =
        credits candidates (before ++ .association association :: after) source) ∧
      ∃ earlier later,
        credits candidates (before ++ .association association :: after) o.source = earlier ++ later ∧
          credits candidates (before ++ .association held :: after) o.source =
            earlier ++ association.provenance.count :: later := by
  obtain ⟨earlier, later, split⟩ := exists_credits_split candidates new after
  have named : association.Names o.source := ⟨o, repeats.listed, rfl⟩
  have touched := named.touches candidate
  have single := split association rfl touched
  have double := split held repeats.hash_eq ((repeats.alike.touches_eq candidates).trans touched)
  constructor
  · intro source apart
    rw [single, double, repeats.creditsIn_of_ne apart]
  · obtain ⟨front, back, once, twice⟩ := repeats.exists_creditsIn
    refine ⟨earlier o.source ++ front, back ++ later o.source, ?_, ?_⟩
    · rw [single, once]
      simp only [List.append_assoc]
    · rw [double, twice]
      simp only [List.append_assoc, List.cons_append]

theorem load_sameExcept (localSize : String → Nat) (candidates : Candidates) (repeats : association.Repeats held o)
    (before after : List Record) :
    (load localSize candidates (before ++ .association association :: after)).SameExcept
      (load localSize candidates (before ++ .association held :: after)) o.source := by
  have alike := repeats.alike
  refine ⟨?_, samePlaces_of_alike localSize candidates alike before after, ?_, ?_, ?_⟩
  · rw [candidates_load, candidates_load]
  · intro hash
    rw [hashFlags_load, hashFlags_load]
    apply map_eq_of_related (firstTouching_alike alike candidates hash before after)
    exact fun _ _ same => by rw [same.provenance_eq]
  · intro id
    rw [source_load_of_association, source_load_of_association]
  · intro id apart
    by_cases uncounted : o.source ∉ candidates ∨ (firstTouching candidates association.hash before).isSome = true
    · rw [load_of_uncounted localSize repeats uncounted]
    · rw [not_or, Classical.not_not, Bool.not_eq_true, Option.isSome_eq_false_iff,
        Option.isNone_iff_eq_none] at uncounted
      by_cases candidate : id ∈ candidates
      · rw [score_load candidate, score_load candidate,
          (exists_credits_repeated repeats uncounted.1 uncounted.2 after).1 id apart]
      · rw [score, score, (load_of_foreign candidate _).1, (load_of_foreign candidate _).1]

theorem load_repeated (localSize : String → Nat) (candidates : Candidates) (before after : List Record)
    (repeats : association.Repeats held o) :
    let records := before ++ .association association :: after
    let repeated := before ++ .association held :: after
    let catalog := load localSize candidates records
    let other := load localSize candidates repeated
    (o.source ∉ candidates ∨ (firstTouching candidates association.hash before).isSome = true → other = catalog) ∧
      catalog.SameExcept other o.source ∧
      other.ranked.filter (· ≠ o.source) = catalog.ranked.filter (· ≠ o.source) ∧
      other.sets.filter (·.source ≠ o.source) = catalog.sets.filter (·.source ≠ o.source) ∧
      (o.source ∈ candidates → firstTouching candidates association.hash before = none → ∃ earlier later,
        credits candidates records o.source = earlier ++ later ∧
          credits candidates repeated o.source = earlier ++ association.provenance.count :: later) ∧
      ∀ source ∈ candidates, catalog.score source = raised 0 (credits candidates records source) ∧
        other.score source = raised 0 (credits candidates repeated source) := by
  intro records repeated catalog other
  have same : catalog.SameExcept other o.source := load_sameExcept localSize candidates repeats before after
  refine ⟨fun uncounted => load_of_uncounted localSize repeats uncounted after, same, same.ranked_eq, same.sets_eq,
    ?_, ?_⟩
  · exact fun candidate new => (exists_credits_repeated repeats candidate new after).2
  · exact fun source candidate => ⟨score_load candidate records, score_load candidate repeated⟩

end Repeated

theorem load_repeated_in_stream :
    let association : Association := ⟨"a", ⟨2, none⟩, [⟨1, 0⟩, ⟨2, 4096⟩]⟩
    let held : Association := ⟨"a", ⟨2, none⟩, [⟨1, 0⟩, ⟨2, 4096⟩, ⟨1, 0⟩]⟩
    let before : List Record := [.association ⟨"b", ⟨4, none⟩, [⟨1, 4096⟩]⟩]
    let after : List Record := [.association ⟨"c", ⟨1, none⟩, [⟨1, 8192⟩, ⟨2, 0⟩]⟩, .description ⟨1, "one", some 12288⟩]
    let candidates : Candidates := .ofList [1, 2]
    let records := before ++ .association association :: after
    let repeated := before ++ .association held :: after
    let catalog := load (fun _ => 0) candidates records
    let other := load (fun _ => 0) candidates repeated
    association.Repeats held ⟨1, 0⟩ ∧ 1 ∈ candidates ∧ firstTouching candidates "a" before = none ∧
      catalog.SameExcept other 1 ∧
      credits candidates records 1 = [4, 2, 1] ∧ credits candidates repeated 1 = [4, 2, 2, 1] ∧
      catalog.score 1 = 1.75 ∧ other.score 1 = 2.25 ∧ catalog.score 2 = 1.5 ∧ other.score 2 = 1.5 := by
  intro association held before after candidates records repeated catalog other
  have repeats : association.Repeats held ⟨1, 0⟩ :=
    ⟨rfl, rfl, List.mem_cons_self, [⟨1, 0⟩, ⟨2, 4096⟩], [], rfl, rfl⟩
  obtain ⟨-, same, -⟩ := load_repeated (fun _ => 0) candidates before after repeats
  refine ⟨repeats, ?_, ?_, same, ?_⟩ <;> decide +kernel

theorem load_repeated_outranks :
    let candidates : Candidates := .ofList [1, 2]
    let rest : List Record := [.association ⟨"b", ⟨1, none⟩, [⟨1, 0⟩]⟩]
    let catalog := load (fun _ => 0) candidates (.association ⟨"a", ⟨1, none⟩, [⟨2, 0⟩]⟩ :: rest)
    let other := load (fun _ => 0) candidates (.association ⟨"a", ⟨1, none⟩, [⟨2, 0⟩, ⟨2, 0⟩]⟩ :: rest)
    catalog.score 2 = 1 ∧ other.score 2 = 2 ∧ catalog.ranked = [1, 2] ∧ other.ranked = [2, 1] ∧
      catalog.sets.map (·.source) = [1, 2] ∧ other.sets.map (·.source) = [2, 1] := by
  decide +kernel

end Catalog

end FragmentSearch
