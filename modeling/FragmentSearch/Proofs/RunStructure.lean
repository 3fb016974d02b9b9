import Mathlib.Data.List.Infix
import FragmentSearch.Proofs.CatalogEntries
import FragmentSearch.Proofs.SearchResults

namespace FragmentSearch

theorem Placement.leadsTo_of_mem {a b : Placement} (block : Nat) (h : a.Adjoins b) (ha : block ∈ a.blocks)
    (hb : block + 1 ∈ b.blocks) : a.leadsTo b = true :=
  leadsTo_iff.mpr ⟨h, stepsInto_iff.mpr ⟨block, ha, hb⟩⟩

theorem isChain_append_of_border {α : Type} {R : α → α → Prop} {xs ys : List α} {x y : α} (hx : xs.IsChain R)
    (hy : ys.IsChain R) (last : xs.getLast? = some x) (first : ys.head? = some y) (h : R x y) :
    (xs ++ ys).IsChain R := by
  apply hx.append hy
  intro a ha b hb
  rw [last] at ha
  rw [first] at hb
  cases ha
  cases hb
  exact h

namespace Run

structure Linked (run : Run) : Prop where
  leads : run.placements.IsChain fun a b => a.leadsTo b = true
  start_mem : ∃ first, run.placements.head? = some first ∧ run.logicalStart ∈ first.blocks
  end_mem : ∃ last, run.placements.getLast? = some last ∧ run.logicalEnd ∈ last.blocks

theorem Linked.aligned {run : Run} (h : run.Linked) : run.Aligned := by
  obtain ⟨first, hf, -⟩ := h.start_mem
  refine ⟨?_, h.leads.imp fun a b hab => (Placement.leadsTo_iff.mp hab).1⟩
  rintro empty
  rw [empty] at hf
  cases hf

theorem linked_ofPlacements (gapWeight : Float) (source : Nat) {row : List Placement} (hn : row ≠ [])
    (leads : row.IsChain fun a b => a.leadsTo b = true) (placed : ∀ p ∈ row, p.blocks ≠ []) :
    (ofPlacements gapWeight source row).Linked := by
  refine ⟨leads, ?_, ?_⟩
  · obtain ⟨first, rest, rfl⟩ := List.exists_cons_of_ne_nil hn
    exact ⟨first, rfl, firstBlock_mem (placed first List.mem_cons_self)⟩
  · obtain ⟨last, before, hr⟩ := List.exists_cons_of_ne_nil (List.reverse_ne_nil_iff.mpr hn)
    have tail : row.getLast? = some last := by rw [← List.head?_reverse, hr]; rfl
    refine ⟨last, tail, ?_⟩
    simp only [ofPlacements, hr]
    exact lastBlock_mem (placed last (List.mem_of_getLast? tail))

theorem leads_gapAfter (run : Run) (gap : Nat) : (run.gapAfter gap).IsChain fun a b => a.leadsTo b = true := by
  rw [gapAfter, List.isChain_map]
  apply (List.isChain_range' 1 gap 1).imp
  rintro k _ rfl
  apply Placement.leadsTo_of_mem (run.logicalEnd + k)
  · simp only [Placement.Adjoins, Placement.gap, sectorsPerBlock]
    omega
  · simp [Placement.gap]
  · simp [Placement.gap, Nat.add_assoc]

theorem head?_gapAfter (run : Run) (gap : Nat) :
    (run.gapAfter (gap + 1)).head? = some (.gap (run.physicalEnd + sectorsPerBlock) (run.logicalEnd + 1)) := by
  simp [gapAfter, List.range'_succ]

theorem getLast?_gapAfter (run : Run) (gap : Nat) :
    (run.gapAfter (gap + 1)).getLast? =
      some (.gap (run.physicalEnd + (gap + 1) * sectorsPerBlock) (run.logicalEnd + (gap + 1))) := by
  simp [gapAfter, List.getLast?_map, List.getLast?_range', Nat.add_comm 1]

theorem Tiles.start_eq {maxGap gap : Nat} {a b : Run} (t : a.Tiles maxGap b gap) (aligned : a.Aligned) :
    b.physicalStart = a.physicalEnd + (gap + 1) * sectorsPerBlock := by
  have classes : FragmentSearch.alignment a.physicalEnd = FragmentSearch.alignment b.physicalStart :=
    aligned.alignment_end.trans t.alignment_eq
  have apart := t.apart
  have between := t.gap_eq
  simp only [FragmentSearch.alignment, sectorsPerBlock] at classes between ⊢
  omega

theorem adjoins_gapAfter (run : Run) (gap : Nat) : (run.gapAfter gap).IsChain Placement.Adjoins :=
  (run.leads_gapAfter gap).imp fun _ _ leads => (Placement.leadsTo_iff.mp leads).1

theorem Aligned.join {maxGap gap : Nat} {a b : Run} (gapWeight : Float) (ha : a.Aligned) (hb : b.Aligned)
    (t : a.Tiles maxGap b gap) : (a.join gapWeight b gap).Aligned := by
  have hl := List.getLast?_eq_getLast_of_ne_nil ha.ne_nil
  have hf := List.head?_eq_some_head hb.ne_nil
  have distance := t.start_eq ha
  rw [physicalStart_eq hf] at distance
  refine ⟨by simp [Run.join, hb.ne_nil], ?_⟩
  simp only [Run.join, List.append_assoc]
  cases gap with
  | zero =>
    apply isChain_append_of_border ha.steps hb.steps hl hf
    simp [Placement.Adjoins, distance, physicalEnd_eq hl]
  | succ gap =>
    have intoNext : (a.gapAfter (gap + 1) ++ b.placements).IsChain Placement.Adjoins := by
      apply isChain_append_of_border (a.adjoins_gapAfter _) hb.steps (a.getLast?_gapAfter gap) hf
      simp only [Placement.Adjoins, Placement.gap, distance, sectorsPerBlock]
      omega
    apply isChain_append_of_border ha.steps intoNext hl (by rw [List.head?_append, head?_gapAfter]; rfl)
    simp only [Placement.Adjoins, Placement.gap, physicalEnd_eq hl]

theorem leads_join (gapWeight : Float) {gap : Nat} {a b : Run} {last first : Placement}
    (ha : a.placements.IsChain fun p q => p.leadsTo q = true) (hb : b.placements.IsChain fun p q => p.leadsTo q = true)
    (hl : a.placements.getLast? = some last) (hf : b.placements.head? = some first)
    (endBlock : a.logicalEnd ∈ last.blocks) (onward : a.logicalEnd + (gap + 1) ∈ first.blocks)
    (distance : first.sector = last.sector + (gap + 1) * sectorsPerBlock) :
    (a.join gapWeight b gap).placements.IsChain fun p q => p.leadsTo q = true := by
  simp only [join, List.append_assoc]
  cases gap with
  | zero =>
    apply isChain_append_of_border ha hb hl hf
    exact Placement.leadsTo_of_mem a.logicalEnd (by simp [Placement.Adjoins, distance]) endBlock onward
  | succ gap =>
    have intoNext : (Placement.gap (a.physicalEnd + (gap + 1) * sectorsPerBlock) (a.logicalEnd + (gap + 1))).leadsTo
        first = true := by
      apply Placement.leadsTo_of_mem (a.logicalEnd + (gap + 1))
      · simp only [Placement.Adjoins, Placement.gap, distance, physicalEnd_eq hl, sectorsPerBlock]
        omega
      · simp [Placement.gap]
      · exact onward
    have intoGap : last.leadsTo (.gap (a.physicalEnd + sectorsPerBlock) (a.logicalEnd + 1)) = true := by
      apply Placement.leadsTo_of_mem a.logicalEnd
      · simp only [Placement.Adjoins, Placement.gap, physicalEnd_eq hl]
      · exact endBlock
      · simp [Placement.gap]
    have within : (a.gapAfter (gap + 1) ++ b.placements).IsChain fun p q => p.leadsTo q = true :=
      isChain_append_of_border (a.leads_gapAfter _) hb (a.getLast?_gapAfter gap) hf intoNext
    exact isChain_append_of_border ha within hl (by rw [List.head?_append, head?_gapAfter]; rfl) intoGap

theorem Linked.join {maxGap gap : Nat} {a b : Run} (gapWeight : Float) (ha : a.Linked) (hb : b.Linked)
    (t : a.Tiles maxGap b gap) : (a.join gapWeight b gap).Linked := by
  obtain ⟨last, hl, endBlock⟩ := ha.end_mem
  obtain ⟨first, hf, startBlock⟩ := hb.start_mem
  have distance : first.sector = last.sector + (gap + 1) * sectorsPerBlock := by
    rw [← physicalStart_eq hf, ← physicalEnd_eq hl]
    exact t.start_eq ha.aligned
  have onward : a.logicalEnd + (gap + 1) ∈ first.blocks := t.adjoins ▸ startBlock
  refine ⟨leads_join gapWeight ha.leads hb.leads hl hf endBlock onward distance, ?_, ?_⟩
  · obtain ⟨start, hs, startsIn⟩ := ha.start_mem
    refine ⟨start, ?_, startsIn⟩
    simp [Run.join, List.head?_append, hs]
  · obtain ⟨stop, hs, endsIn⟩ := hb.end_mem
    refine ⟨stop, ?_, endsIn⟩
    rw [getLast?_join gapWeight a gap t.right_ne]
    exact hs

structure Reportable (settings : Settings) (run : Run) : Prop where
  steps : run.placements.IsChain fun a b => a.sector + sectorsPerBlock = b.sector
  one_class : ∀ p ∈ run.placements, FragmentSearch.alignment p.sector = run.alignment
  forward : run.placements.IsChain fun a b => ∃ block ∈ a.blocks, block + 1 ∈ b.blocks
  long_enough : max settings.minRun 2 ≤ run.placements.length
  unique : ∃ p ∈ run.placements, p.evidence = .hash 1
  rare : ∃ least, run.leastCount = some least ∧ least ≤ settings.maxCount
  counted : ∀ p ∈ run.placements, ∀ count, p.evidence = .hash count → 1 ≤ count
  placed : ∀ p ∈ run.placements, p.blocks ≠ []

end Run

namespace Search

variable {search : Search} {source : Nat} {image : Option Image} {run : Run}

theorem count_pos {p : Placement} (h : p ∈ search.placements source) {count : Nat} (he : p.evidence = .hash count) :
    1 ≤ count := by
  obtain ⟨hash, -, blocks, known, -, -, positive, sector, -, rfl⟩ := mem_placements.mp h
  cases he
  exact positive

theorem linked_candidate (placed : ∀ p ∈ search.placements source, p.blocks ≠ [])
    (h : run ∈ search.candidateRuns source) : run.Linked := by
  obtain ⟨bucket, gathered, row, cut, rfl⟩ := mem_candidateRuns.mp h
  apply Run.linked_ofPlacements _ _ (List.ne_nil_of_mem_splitBy cut) (List.isChain_of_mem_splitBy cut)
  exact fun p member => placed p (mem_row gathered cut member)

theorem linked_find (placed : ∀ source, ∀ p ∈ search.placements source, p.blocks ≠ []) (h : run ∈ search.find image) :
    run.Linked := by
  obtain ⟨source, -, merged, -⟩ := mem_find.mp h
  apply forall_merged_of_join _ (fun _ => linked_candidate (placed source)) run merged
  exact fun a b gap ha hb tiles => ha.join _ hb tiles

theorem lists_of_load {localSize : String → Nat} {candidates : Candidates} {records : List Record}
    (loaded : search.catalog = .load localSize candidates records) {p : Placement}
    (h : p ∈ search.placements source) : ∃ association : Association, association.Lists source p.blocks := by
  obtain ⟨hash, -, blocks, count, hb, -, -, sector, -, rfl⟩ := mem_placements.mp h
  rw [loaded] at hb
  obtain ⟨association, -, -, -, -, lists⟩ := Catalog.fileBlocks_load hb
  exact ⟨association, lists⟩

theorem blocks_ne_nil_of_load {localSize : String → Nat} {candidates : Candidates} {records : List Record}
    (loaded : search.catalog = .load localSize candidates records) {p : Placement}
    (h : p ∈ search.placements source) : p.blocks ≠ [] := by
  obtain ⟨association, lists⟩ := lists_of_load loaded h
  exact lists.ne_nil

theorem find_reportable (localSize : String → Nat) (candidates : Candidates) (records : List Record)
    (sightings : Sightings) (settings : Settings) (image : Option Image) {run : Run}
    (h : run ∈ ({ catalog := .load localSize candidates records, sightings, settings } : Search).find image) :
    run.Reportable settings := by
  let search : Search := { catalog := .load localSize candidates records, sightings, settings }
  have placed : ∀ source, ∀ p ∈ search.placements source, p.blocks ≠ [] :=
    fun _ _ member => blocks_ne_nil_of_load rfl member
  have linked := linked_find placed h
  obtain ⟨-, grounded⟩ := grounded_find h
  obtain ⟨-, -, -, keeps⟩ := mem_find.mp h
  obtain ⟨longEnough, unique, rare⟩ := Settings.keeps_iff.mp keeps
  refine ⟨linked.aligned.steps, linked.aligned.alignment_eq, ?_, longEnough, unique, rare, ?_, ?_⟩
  · exact linked.leads.imp fun a b hab => stepsInto_iff.mp (Placement.leadsTo_iff.mp hab).2
  · intro p member count hc
    rcases grounded.placed p member with sighted | ⟨sector, block, rfl⟩
    · exact count_pos sighted hc
    · cases hc
  · intro p member
    rcases grounded.placed p member with sighted | ⟨sector, block, rfl⟩
    · exact placed _ p sighted
    · exact List.cons_ne_nil _ _

theorem find_reportable_joined :
    let records : List Record := [.association ⟨"a", ⟨1, none⟩, [⟨1, 0⟩]⟩,
      .association ⟨"b", ⟨2, none⟩, [⟨1, 4096⟩, ⟨1, 40960⟩]⟩, .association ⟨"d", ⟨1, none⟩, [⟨1, 12288⟩]⟩]
    let observations : List Observation :=
      [⟨0, "a", none, .none⟩, ⟨4096, "b", none, .none⟩, ⟨12288, "d", none, .none⟩]
    let catalog := Catalog.load (fun _ => 0) (Candidates.select {} records) records
    let search : Search := { catalog, sightings := catalog.sightings observations, settings := {} }
    ∃ run ∈ search.find (some (Image.ofBytes 16384 fun _ => 0)),
      run.placements = [⟨0, [0], .hash 1⟩, ⟨8, [1, 10], .hash 2⟩, ⟨16, [2], .nullGap⟩, ⟨24, [3], .hash 1⟩] ∧
        run.Reportable {} := by
  intro records observations catalog search
  have found : (search.find (some (Image.ofBytes 16384 fun _ => 0))).map (·.placements) =
      [[⟨0, [0], .hash 1⟩, ⟨8, [1, 10], .hash 2⟩, ⟨16, [2], .nullGap⟩, ⟨24, [3], .hash 1⟩]] := by decide +kernel
  obtain ⟨run, member, placements⟩ := List.mem_map.mp (found ▸ List.mem_cons_self)
  exact ⟨run, member, placements, find_reportable _ _ _ _ _ _ member⟩

end Search

end FragmentSearch
