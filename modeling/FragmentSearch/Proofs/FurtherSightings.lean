import Mathlib.Data.List.Nodup
import FragmentSearch.Proofs.CatalogEntries
import FragmentSearch.Proofs.NoiseTolerance
import FragmentSearch.Proofs.RunOrder
import FragmentSearch.Proofs.SightedSectors

namespace FragmentSearch

/-- A row cut in two before or after a placement on the sector. -/
structure CutBeside (sector : Nat) (row left right : List Placement) : Prop where
  row_eq : row = left ++ right
  left_ne : left ≠ []
  right_ne : right ≠ []
  beside : (∃ p, left.getLast? = some p ∧ p.sector = sector) ∨ ∃ p, right.head? = some p ∧ p.sector = sector

theorem sector_eq_of_between {last first : Placement} {sector c : Nat} (linked : last.leadsTo first = true)
    (after : last.sector ≤ sector) (before : sector ≤ first.sector) (lastClass : alignment last.sector = c)
    (sectorClass : alignment sector = c) : last.sector = sector ∨ first.sector = sector := by
  have adjoins := (Placement.leadsTo_iff.mp linked).1
  simp only [Placement.Adjoins, alignment, sectorsPerBlock] at adjoins lastClass sectorClass
  omega

theorem stretch_or_cut {before after row : List Placement} {t : Placement} {c : Nat} (within : row <:+: before ++ after)
    (linked : row.IsChain fun a b => a.leadsTo b = true)
    (ordered : (before ++ t :: after).Pairwise fun a b => a.sector ≤ b.sector)
    (oneClass : ∀ p ∈ before ++ t :: after, alignment p.sector = c) :
    row <:+: before ++ t :: after ∨ ∃ left right, CutBeside t.sector row left right ∧
      left <:+: before ++ t :: after ∧ right <:+: before ++ t :: after := by
  rcases List.infix_append_iff_ne_nil.mp within with inside | inside | ⟨left, right, hl, hr, rfl, ends, begins⟩
  · exact .inl (inside.trans (List.prefix_append _ _).isInfix)
  · exact .inl (inside.trans ((List.suffix_cons t after).trans (List.suffix_append _ _)).isInfix)
  · have leads := linked.rel_getLast_head_of_append hl hr
    have lastBefore : left.getLast hl ∈ before := ends.subset (List.getLast_mem hl)
    have firstAfter : right.head hr ∈ after := begins.subset (List.head_mem hr)
    obtain ⟨-, later, earlier⟩ := List.pairwise_append.mp ordered
    -- Neighbours are one block apart, so nothing of their class stands strictly between them.
    have between := sector_eq_of_between leads (earlier _ lastBefore t List.mem_cons_self)
      ((List.pairwise_cons.mp later).1 _ firstAfter) (oneClass _ (List.mem_append_left _ lastBefore))
      (oneClass t (by simp))
    refine .inr ⟨left, right, ⟨rfl, hl, hr, ?_⟩, ?_, ?_⟩
    · rcases between with same | same
      · exact .inl ⟨_, List.getLast?_eq_getLast_of_ne_nil hl, same⟩
      · exact .inr ⟨_, List.head?_eq_some_head hr, same⟩
    · exact ends.isInfix.trans (List.prefix_append _ _).isInfix
    · exact begins.isInfix.trans ((List.suffix_cons t after).trans (List.suffix_append _ _)).isInfix

theorem flatMap_perm_cons {α β : Type} {f g : α → List β} {list : List α} {a : α} {b : β} (nodup : list.Nodup)
    (member : a ∈ list) (same : ∀ x, x ≠ a → g x = f x) (more : (g a).Perm (b :: f a)) :
    (list.flatMap g).Perm (b :: list.flatMap f) := by
  obtain ⟨before, after, rfl⟩ := List.append_of_mem member
  obtain ⟨absent, -⟩ := List.nodup_cons.mp (List.nodup_middle.mp nodup)
  have unchanged : ∀ part : List α, a ∉ part → part.flatMap g = part.flatMap f := by
    intro part missing
    apply List.flatMap_congr
    intro x hx
    exact same x fun e => missing (e ▸ hx)
  rw [List.mem_append, not_or] at absent
  simp only [List.flatMap_append, List.flatMap_cons, unchanged before absent.1, unchanged after absent.2]
  exact ((more.append_right _).append_left _).trans List.perm_middle

namespace Search

variable {search : Search} {source : Nat} {o : Observation}

def observe (search : Search) (o : Observation) : Search := { search with sightings := search.sightings.insert o }

structure Adds (search : Search) (source : Nat) (o : Observation) : Prop where
  listed : o.hash ∈ search.catalog.hashesOf source
  counted : ∃ count, search.catalog.hashCount o.hash = some count ∧ 0 < count
  new : o.sector ∉ search.sightings.sectorsOf o.hash

def placementsAt (catalog : Catalog) (source : Nat) (hash : String) (sectors : List Nat) : List Placement :=
  match catalog.fileBlocks hash source, catalog.hashCount hash with
  | some blocks, some (count + 1) => sectors.map fun sector => ⟨sector, blocks, .hash (count + 1)⟩
  | _, _ => []

theorem placements_eq_flatMap (search : Search) (source : Nat) :
    search.placements source = (search.catalog.hashesOf source).flatMap fun hash =>
      placementsAt search.catalog source hash (search.sightings.sectorsOf hash) := rfl

theorem placementsAt_eq_map {catalog : Catalog} {hash : String} {blocks : List Nat} {count : Nat}
    (hb : catalog.fileBlocks hash source = some blocks) (hc : catalog.hashCount hash = some (count + 1))
    (sectors : List Nat) :
    placementsAt catalog source hash sectors = sectors.map fun sector => ⟨sector, blocks, .hash (count + 1)⟩ := by
  rw [placementsAt, hb, hc]

theorem placementsAt_eq_nil {catalog : Catalog} {hash : String}
    (h : ¬ ∃ blocks count, catalog.fileBlocks hash source = some blocks ∧ catalog.hashCount hash = some (count + 1))
    (sectors : List Nat) : placementsAt catalog source hash sectors = [] := by
  unfold placementsAt
  split
  · rename_i blocks count hb hc
    exact absurd ⟨blocks, count, hb, hc⟩ h
  · rfl

theorem placements_observe (search : Search) (source : Nat) (o : Observation) :
    (search.observe o).placements source = search.placements source ∨
      search.Adds source o ∧ ∃ t, t.sector = o.sector ∧
        ((search.observe o).placements source).Perm (t :: search.placements source) := by
  have elsewhere : ∀ hash, hash ≠ o.hash → placementsAt search.catalog source hash
      ((search.sightings.insert o).sectorsOf hash) =
        placementsAt search.catalog source hash (search.sightings.sectorsOf hash) := by
    intro hash other
    rw [Sightings.sectorsOf_insert_of_ne other.symm]
  by_cases new : o.sector ∈ search.sightings.sectorsOf o.hash
  · left
    rw [observe, Sightings.insert_of_seen new]
  · by_cases counted : ∃ blocks count, search.catalog.fileBlocks o.hash source = some blocks ∧
        search.catalog.hashCount o.hash = some (count + 1)
    · by_cases listed : o.hash ∈ search.catalog.hashesOf source
      · obtain ⟨blocks, count, hb, hc⟩ := counted
        refine .inr ⟨⟨listed, ⟨_, hc, Nat.succ_pos _⟩, new⟩, ⟨o.sector, blocks, .hash (count + 1)⟩, rfl, ?_⟩
        rw [placements_eq_flatMap, placements_eq_flatMap]
        apply flatMap_perm_cons (search.catalog.nodup_hashesOf source) listed elsewhere
        rw [placementsAt_eq_map hb hc, placementsAt_eq_map hb hc]
        exact (Sightings.sectorsOf_insert_perm new).map _
      · left
        apply List.flatMap_congr
        intro hash member
        exact elsewhere hash fun e => listed (e ▸ member)
    · left
      apply List.flatMap_congr
      intro hash _
      by_cases same : hash = o.hash
      · subst same
        exact (placementsAt_eq_nil counted _).trans (placementsAt_eq_nil counted _).symm
      · exact elsewhere hash same

theorem bucket_observe (search : Search) (source : Nat) (o : Observation) (c : Nat) :
    (search.observe o).bucket source c = search.bucket source c ∨
      search.Adds source o ∧ ∃ t before after, t.sector = o.sector ∧ search.bucket source c = before ++ after ∧
        (search.observe o).bucket source c = before ++ t :: after := by
  rcases placements_observe search source o with unchanged | ⟨adds, t, sector, perm⟩
  · left
    rw [bucket, bucket, unchanged]
  · have sameClass := perm.filter fun p => alignment p.sector = c
    by_cases inClass : alignment t.sector = c
    · obtain ⟨before, after, apart, inserted⟩ := sorted_cons Placement.compareKeys t
        ((search.placements source).filter fun p => alignment p.sector = c)
      rw [List.filter_cons_of_pos (by simpa using inClass)] at sameClass
      refine .inr ⟨adds, t, before, after, sector, apart, ?_⟩
      exact (Placement.sorted_eq_of_perm sameClass).trans inserted
    · left
      rw [List.filter_cons_of_neg (by simpa using inClass)] at sameClass
      exact Placement.sorted_eq_of_perm sameClass

theorem mem_candidateRuns_iff {run : Run} :
    run ∈ search.candidateRuns source ↔ ∃ c, c < sectorsPerBlock ∧ ∃ row ∈ chains (search.bucket source c),
      run = .ofPlacements search.settings.nullGapWeight source row := by
  rw [mem_candidateRuns]
  constructor
  · rintro ⟨_, gathered, row, cut, rfl⟩
    obtain ⟨c, hc, rfl⟩ := List.mem_map.mp gathered
    exact ⟨c, List.mem_range.mp hc, row, cut, rfl⟩
  · rintro ⟨c, hc, row, cut, rfl⟩
    exact ⟨_, List.mem_map.mpr ⟨c, List.mem_range.mpr hc, rfl⟩, row, cut, rfl⟩

theorem exists_candidate_of_stretch {c : Nat} (hc : c < sectorsPerBlock) {piece : List Placement} (hn : piece ≠ [])
    (linked : piece.IsChain fun a b => a.leadsTo b = true) (within : piece <:+: search.bucket source c) :
    ∃ whole ∈ search.candidateRuns source, whole.source = source ∧ piece <:+: whole.placements := by
  obtain ⟨row, cut, inRow⟩ := exists_chain_of_stretch hn linked within
  exact ⟨_, mem_candidateRuns_iff.mpr ⟨c, hc, row, cut, rfl⟩, rfl, inRow⟩

theorem mem_detect {run : Run} :
    run ∈ search.detect source ↔ run ∈ search.candidateRuns source ∧ search.settings.keeps run = true := by
  rw [detect, List.mem_filter]

structure Survives (search : Search) (source : Nat) (piece : List Placement) : Prop where
  candidate : ∃ whole ∈ search.candidateRuns source, piece <:+: whole.placements
  detected : search.settings.keeps (.ofPlacements search.settings.nullGapWeight source piece) = true →
    ∃ whole ∈ search.detect source, piece <:+: whole.placements

theorem survives_of_stretch {c : Nat} (hc : c < sectorsPerBlock) {piece : List Placement} (hn : piece ≠ [])
    (linked : piece.IsChain fun a b => a.leadsTo b = true) (within : piece <:+: search.bucket source c) :
    search.Survives source piece := by
  obtain ⟨whole, candidate, source_eq, stretch⟩ := exists_candidate_of_stretch hc hn linked within
  refine ⟨⟨whole, candidate, stretch⟩, fun kept => ⟨whole, mem_detect.mpr ⟨candidate, ?_⟩, stretch⟩⟩
  exact Settings.keeps_of_partOf ⟨source_eq.symm, stretch⟩ kept

theorem detect_observe (search : Search) (source : Nat) (o : Observation) {run : Run}
    (h : run ∈ search.detect source) :
    (∃ whole ∈ (search.observe o).detect source, run.placements <:+: whole.placements) ∨
      search.Adds source o ∧ ∃ left right, CutBeside o.sector run.placements left right ∧
        (search.observe o).Survives source left ∧ (search.observe o).Survives source right := by
  obtain ⟨candidate, kept⟩ := mem_detect.mp h
  obtain ⟨c, hc, row, cut, rfl⟩ := mem_candidateRuns_iff.mp candidate
  have linked := List.isChain_of_mem_splitBy cut
  have nonempty := List.ne_nil_of_mem_splitBy cut
  have stretch : row <:+: search.bucket source c := by
    rw [← List.flatten_splitBy Placement.leadsTo (search.bucket source c)]
    exact List.infix_of_mem_flatten cut
  rcases bucket_observe search source o c with unchanged | ⟨adds, t, before, after, sector, apart, inserted⟩
  · left
    exact (survives_of_stretch hc nonempty linked (unchanged ▸ stretch)).detected kept
  · have ordered : (before ++ t :: after).Pairwise fun a b => a.sector ≤ b.sector := inserted ▸ bucket_ordered
    have oneClass : ∀ p ∈ before ++ t :: after, alignment p.sector = c := by
      intro p member
      rw [← inserted] at member
      exact (mem_bucket.mp member).2
    rcases stretch_or_cut (apart ▸ stretch) linked ordered oneClass with inside | ⟨left, right, pieces, inLeft, inRight⟩
    · left
      exact (survives_of_stretch hc nonempty linked (inserted ▸ inside)).detected kept
    · right
      have chain : (left ++ right).IsChain fun a b => a.leadsTo b = true := pieces.row_eq ▸ linked
      refine ⟨adds, left, right, sector ▸ pieces, ?_, ?_⟩
      · exact survives_of_stretch hc pieces.left_ne chain.left_of_append (inserted ▸ inLeft)
      · exact survives_of_stretch hc pieces.right_ne chain.right_of_append (inserted ▸ inRight)

theorem detect_observe_cut :
    let records : List Record := [.association ⟨"a", ⟨1, none⟩, [⟨1, 0⟩]⟩, .association ⟨"b", ⟨2, none⟩, [⟨1, 4096⟩]⟩,
      .association ⟨"c", ⟨1, none⟩, [⟨1, 8192⟩]⟩, .association ⟨"d", ⟨3, none⟩, [⟨1, 12288⟩]⟩,
      .association ⟨"x", ⟨3, none⟩, [⟨1, 40960⟩]⟩]
    let observations : List Observation :=
      [⟨0, "a", none, .none⟩, ⟨4096, "b", none, .none⟩, ⟨8192, "c", none, .none⟩, ⟨12288, "d", none, .none⟩]
    let catalog := Catalog.load (fun _ => 0) (Candidates.select {} records) records
    let search : Search := { catalog, sightings := catalog.sightings observations, settings := {} }
    let o : Observation := ⟨4096, "x", none, .none⟩
    ((search.observe o).detect 1).map (·.length) = [2, 2] ∧ ∃ run ∈ search.detect 1, run.length = 4 ∧
      ((∃ whole ∈ (search.observe o).detect 1, run.placements <:+: whole.placements) ∨
        search.Adds 1 o ∧ ∃ left right, CutBeside o.sector run.placements left right ∧
          (search.observe o).Survives 1 left ∧ (search.observe o).Survives 1 right) := by
  intro records observations catalog search o
  have result : (search.detect 1).map (·.length) = [4] := by decide +kernel
  obtain ⟨run, found, length⟩ := List.mem_map.mp (result ▸ List.mem_cons_self)
  exact ⟨by decide +kernel, run, found, length, detect_observe search 1 o found⟩

theorem detect_observe_lost :
    let records : List Record := [.association ⟨"a", ⟨1, none⟩, [⟨1, 0⟩]⟩, .association ⟨"b", ⟨1, none⟩, [⟨1, 4096⟩]⟩,
      .association ⟨"x", ⟨1, none⟩, [⟨1, 40960⟩]⟩]
    let catalog := Catalog.load (fun _ => 0) (Candidates.select {} records) records
    let observations : List Observation := [⟨0, "a", none, .none⟩, ⟨4096, "b", none, .none⟩]
    let search : Search := { catalog, sightings := .ofList observations, settings := {} }
    let p : Placement := ⟨0, [0], .hash 1⟩
    (∃ run ∈ search.detect 1, p ∈ run.placements) ∧
      ¬ ∃ run ∈ (search.observe ⟨0, "x", none, .none⟩).detect 1, p ∈ run.placements := by
  intro records catalog observations search p
  have before : (search.detect 1).map (·.placements) = [[⟨0, [0], .hash 1⟩, ⟨8, [1], .hash 1⟩]] := by decide +kernel
  have after : ((search.observe ⟨0, "x", none, .none⟩).detect 1).length = 0 := by decide +kernel
  obtain ⟨run, found, placements⟩ := List.mem_map.mp (before ▸ List.mem_cons_self)
  refine ⟨⟨run, found, placements ▸ List.mem_cons_self⟩, ?_⟩
  rintro ⟨other, member, -⟩
  rw [List.length_eq_zero_iff.mp after] at member
  cases member

end Search

end FragmentSearch
