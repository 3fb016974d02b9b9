import FragmentSearch.Report.Row
import FragmentSearch.Proofs.CandidateFiltering
import FragmentSearch.Proofs.RunOrder
import FragmentSearch.Proofs.RunStructure

namespace FragmentSearch

namespace Run

variable {run a b : Run}

theorem Aligned.start_lt_end (h : run.Aligned) (two : 2 ≤ run.placements.length) :
    run.physicalStart < run.physicalEnd := by
  rw [h.end_eq, length]
  simp only [sectorsPerBlock]
  omega

def Covers (run : Run) (sector : Nat) : Prop := run.physicalStart ≤ sector ∧ sector ≤ run.physicalEnd

structure Precedes (a b : Run) : Prop where
  start_lt : a.physicalStart < b.physicalStart
  end_lt : a.physicalEnd < b.physicalEnd
  shared : ∀ sector, a.Covers sector → b.Covers sector → sector = a.physicalEnd ∧ sector = b.physicalStart

def StartsApart (a b : Run) : Prop := a.source = b.source → a.physicalStart ≠ b.physicalStart

instance : Std.Symm StartsApart := ⟨fun _ _ apart same start => apart same.symm start.symm⟩

def EndsBefore (a b : Run) : Prop := a.alignment = b.alignment → a.physicalEnd ≤ b.physicalStart

theorem EndsBefore.precedes (h : a.EndsBefore b) (same : a.alignment = b.alignment)
    (ha : a.physicalStart < a.physicalEnd) (hb : b.physicalStart < b.physicalEnd) : a.Precedes b := by
  have border := h same
  refine ⟨by omega, by omega, ?_⟩
  rintro sector ⟨-, notAfter⟩ ⟨notBefore, -⟩
  omega

theorem EndsBefore.start_ne (h : a.EndsBefore b) (ha : a.physicalStart < a.physicalEnd) :
    a.physicalStart ≠ b.physicalStart := by
  intro same
  have border := h (congrArg FragmentSearch.alignment same)
  omega

end Run

section Joining

variable {settings : Settings} {image : Image} {attempt : Run → Run → Attempt} {R : Run → Run → Prop}

theorem pairwise_mergeFrom
    (leftmost : ∀ a b joined c, (attempt a b).joined = some joined → R a c → R b c → R joined c)
    (rightmost : ∀ a b joined c, (attempt a b).joined = some joined → R c a → R c b → R c joined)
    {previous : Run} {rest : List Run} (h : (previous :: rest).Pairwise R) :
    (mergeFrom attempt previous rest).runs.Pairwise R := by
  induction rest generalizing previous with
  | nil => exact h
  | cons next rest ih =>
    obtain ⟨before, later⟩ := List.pairwise_cons.mp h
    obtain ⟨nextBefore, onward⟩ := List.pairwise_cons.mp later
    cases hj : (attempt previous next).joined with
    | none =>
      rw [mergeFrom_apart hj]
      refine List.pairwise_cons.mpr ⟨?_, ih later⟩
      have later : ∀ run ∈ rest, R previous run := fun run member => before run (List.mem_cons_of_mem _ member)
      apply forall_mergeFrom _ (before next List.mem_cons_self) later
      exact fun a b joined ha hb taken => rightmost a b joined previous taken ha hb
    | some joined =>
      rw [mergeFrom_joined hj]
      apply ih
      refine List.pairwise_cons.mpr ⟨fun run member => ?_, onward⟩
      exact leftmost _ _ _ run hj (before run (List.mem_cons_of_mem _ member)) (nextBefore run member)

theorem Run.EndsBefore.joined_left {a b joined c : Run} (taken : (tryJoin settings image a b).joined = some joined)
    (h : b.EndsBefore c) : joined.EndsBefore c := by
  obtain ⟨gap, tiles, -, rfl⟩ := tryJoin_joined.mp taken
  intro same
  rw [alignment_join _ _ _ tiles.left_ne, tiles.alignment_eq] at same
  rw [physicalEnd_join _ _ _ tiles.right_ne]
  exact h same

theorem Run.EndsBefore.joined_right {a b joined c : Run} (taken : (tryJoin settings image a b).joined = some joined)
    (h : c.EndsBefore a) : c.EndsBefore joined := by
  obtain ⟨gap, tiles, -, rfl⟩ := tryJoin_joined.mp taken
  intro same
  rw [alignment_join _ _ _ tiles.left_ne] at same
  rw [physicalStart_join _ _ _ tiles.left_ne]
  exact h same

end Joining

theorem chainRuns_endsBefore (gapWeight : Float) (source : Nat) {bucket : List Placement}
    (ordered : bucket.Pairwise fun p q => p.sector ≤ q.sector) :
    (chainRuns gapWeight source bucket).Pairwise Run.EndsBefore := by
  rw [chainRuns, List.pairwise_map]
  apply (chains_ordered ordered).imp_of_mem
  intro left right hl hr before _
  have leftNe := List.ne_nil_of_mem_splitBy hl
  have rightNe := List.ne_nil_of_mem_splitBy hr
  rw [Run.physicalEnd_eq (List.getLast?_eq_getLast_of_ne_nil leftNe),
    Run.physicalStart_eq (List.head?_eq_some_head rightNe)]
  exact before _ (List.getLast_mem leftNe) _ (List.head_mem rightNe)

namespace Search

variable {search : Search} {source : Nat} {image : Option Image} {run : Run}

theorem candidateRuns_endsBefore (search : Search) (source : Nat) :
    (search.candidateRuns source).Pairwise Run.EndsBefore := by
  apply pairwise_candidateRuns
  · exact fun _ => chainRuns_endsBefore _ _ bucket_ordered
  · exact fun a b _ less same => absurd same (Nat.ne_of_lt less)

theorem merged_endsBefore (search : Search) (image : Option Image) (source : Nat) :
    (search.merged image (search.candidateRuns source)).runs.Pairwise Run.EndsBefore := by
  have before := search.candidateRuns_endsBefore source
  cases image with
  | none => exact before
  | some image =>
    rw [merged_candidateRuns]
    cases hc : search.candidateRuns source with
    | nil => exact .nil
    | cons first rest =>
      rw [hc] at before
      exact pairwise_mergeFrom (fun _ _ _ _ taken _ h => h.joined_left taken)
        (fun _ _ _ _ taken h _ => h.joined_right taken) before

theorem aligned_merged (h : run ∈ (search.merged image (search.candidateRuns source)).runs) : run.Aligned := by
  apply forall_merged_of_join _ (fun _ => aligned_candidate) run h
  exact fun a b gap ha hb tiles => ha.join _ hb tiles

theorem find_endsBefore (search : Search) (image : Option Image) :
    (search.find image).Pairwise fun a b => a.source = b.source → a.EndsBefore b := by
  rw [find_eq_flatMap, List.pairwise_flatMap]
  constructor
  · intro source _
    apply ((search.merged_endsBefore image source).filter _).imp
    intro a b before _
    exact before
  · apply (Catalog.nodup_ranked search.catalog).imp
    intro source other apart a ha b hb same
    rw [(grounded_merged (List.mem_filter.mp ha).1).source_eq,
      (grounded_merged (List.mem_filter.mp hb).1).source_eq] at same
    exact absurd same apart

theorem start_lt_end_of_find (h : run ∈ search.find image) : run.physicalStart < run.physicalEnd := by
  obtain ⟨source, -, merged, kept⟩ := mem_find.mp h
  have longEnough := (Settings.keeps_iff.mp kept).1
  exact (aligned_merged merged).start_lt_end ((Nat.le_max_right _ _).trans longEnough)

theorem find_starts_apart (search : Search) (image : Option Image) :
    (search.find image).Pairwise Run.StartsApart := by
  apply (search.find_endsBefore image).imp_of_mem
  intro a b ha _ before same
  exact (before same).start_ne (start_lt_end_of_find ha)

end Search

namespace Catalog

variable {catalog : Catalog} {runs others : List Run}

def compareRows (ranked : List Nat) : Row → Row → Ordering :=
  compareLex (compareLex (compareLex (compareLex (compareOn fun row => ranked.idxOf row.source) (compareOn Row.source))
    (compareOn Row.logicalStart)) (compareOn Row.physicalStart)) (compareOn Row.alignment)

instance (ranked : List Nat) : Std.TransCmp (compareRows ranked) :=
  inferInstanceAs (Std.TransCmp (compareLex (compareLex (compareLex (compareLex _ _) _) _) _))

theorem pairwise_report (catalog : Catalog) (lookup : Option LayoutLookup) (runs : List Run) :
    (catalog.report lookup runs).Pairwise (rowAtMost catalog.ranked · ·) :=
  pairwise_sorted (compareRows catalog.ranked) _

theorem rows_tied {ranked : List Nat} {a b : Row} (h : rowAtMost ranked a b = true) (h' : rowAtMost ranked b a = true) :
    a.source = b.source ∧ a.physicalStart = b.physicalStart := by
  have same : compareRows ranked a b = .eq := Std.OrientedCmp.isLE_antisymm h h'
  simp only [compareRows, compareLex_eq_eq, compareOn, Std.compare_eq_iff_eq] at same
  exact ⟨same.1.1.1.2, same.1.2⟩

theorem mem_report {lookup : Option LayoutLookup} {row : Row} :
    row ∈ catalog.report lookup runs ↔ ∃ run ∈ runs, catalog.row lookup run = row := by
  rw [report, mem_sorted, List.mem_map]

theorem report_eq_of_perm (lookup : Option LayoutLookup) (perm : others.Perm runs)
    (apart : runs.Pairwise Run.StartsApart) : catalog.report lookup others = catalog.report lookup runs := by
  apply List.Perm.eq_of_pairwise _ (pairwise_report catalog lookup others) (pairwise_report catalog lookup runs)
  · exact (perm_sorted _ _).trans ((perm.map _).trans (perm_sorted _ _).symm)
  · intro a b ha hb before after
    obtain ⟨run, member, rfl⟩ := mem_report.mp ha
    obtain ⟨other, member', rfl⟩ := mem_report.mp hb
    obtain ⟨source, start⟩ := rows_tied before after
    have same : run = other := by
      by_contra different
      exact apart.forall (perm.subset member) member' different source start
    rw [same]

end Catalog

theorem Search.find_report_stable (search : Search) (image : Option Image) :
    (search.find image).Pairwise Run.StartsApart ∧
      (search.find image).Pairwise (fun a b => a.source = b.source → a.alignment = b.alignment → a.Precedes b) ∧
      ∀ (catalog : Catalog) (lookup : Option LayoutLookup) (runs : List Run), runs.Perm (search.find image) →
        catalog.report lookup runs = catalog.report lookup (search.find image) := by
  have apart := search.find_starts_apart image
  refine ⟨apart, ?_, fun catalog lookup runs perm => Catalog.report_eq_of_perm lookup perm apart⟩
  apply (search.find_endsBefore image).imp_of_mem
  intro a b ha hb before source same
  exact (before source).precedes same (start_lt_end_of_find ha) (start_lt_end_of_find hb)

theorem Search.find_report_stable_shared_sector :
    let records : List Record := [.association ⟨"a", ⟨1, none⟩, [⟨1, 0⟩]⟩, .association ⟨"b", ⟨2, none⟩, [⟨1, 4096⟩]⟩,
      .association ⟨"x", ⟨2, none⟩, [⟨1, 40960⟩]⟩, .association ⟨"y", ⟨1, none⟩, [⟨1, 45056⟩]⟩]
    let observations : List Observation :=
      [⟨0, "a", none, .none⟩, ⟨4096, "b", none, .none⟩, ⟨4096, "x", none, .none⟩, ⟨8192, "y", none, .none⟩]
    let catalog := Catalog.load (fun _ => 0) (Candidates.select {} records) records
    let found := ({ catalog, sightings := catalog.sightings observations, settings := {} } : Search).find none
    found.map (fun run => (run.source, run.physicalStart, run.physicalEnd)) = [(1, 0, 8), (1, 8, 16)] ∧
      found.reverse.Perm found ∧ ∀ lookup, catalog.report lookup found.reverse = catalog.report lookup found := by
  intro records observations catalog found
  have reversed : found.reverse.Perm found := List.reverse_perm found
  obtain ⟨-, -, stable⟩ := find_report_stable ⟨catalog, catalog.sightings observations, {}⟩ none
  exact ⟨by decide +kernel, reversed, fun lookup => stable catalog lookup found.reverse reversed⟩

end FragmentSearch
