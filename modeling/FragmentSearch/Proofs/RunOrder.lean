import Mathlib.Data.List.SplitBy
import FragmentSearch.Proofs.JoinGroups
import FragmentSearch.Proofs.SearchResults

namespace FragmentSearch

theorem rel_of_neighbours {α : Type} {R : α → α → Prop} {list : List α} {a b : α} (h : list.IsChain R)
    (next : [a, b] <:+: list) : R a b := by
  obtain ⟨before, after, rfl⟩ := next
  rw [List.append_assoc] at h
  exact (List.isChain_append_cons_cons.mp h).2.1

theorem isChain_flatten_of_pairwise {α : Type} {R : α → α → Prop} {lists : List (List α)}
    (within : ∀ list ∈ lists, list.IsChain R) (across : lists.Pairwise fun l m => ∀ x ∈ l, ∀ y ∈ m, R x y) :
    lists.flatten.IsChain R := by
  induction lists with
  | nil => exact .nil
  | cons list lists ih =>
    obtain ⟨hl, within⟩ := List.forall_mem_cons.mp within
    obtain ⟨onward, across⟩ := List.pairwise_cons.mp across
    apply hl.append (ih within across)
    intro x hx y hy
    obtain ⟨other, member, inside⟩ := List.mem_flatten.mp (List.mem_of_mem_head? hy)
    exact onward other member x (List.mem_of_mem_getLast? hx) y inside

namespace Run

variable {a b : Run}

theorem atMost_of_alignment_lt (source : a.source = b.source) (h : a.alignment < b.alignment) :
    a.atMost b = true := by
  simp [atMost, source, Nat.compare_eq_lt.mpr h]

theorem atMost_of_start_le (source : a.source = b.source) (class_eq : a.alignment = b.alignment)
    (h : a.physicalStart ≤ b.physicalStart) : a.atMost b = true := by
  simpa [atMost, source, class_eq] using Nat.isLE_compare.mpr h

/-- Runs between which none of the given placements lies, and of which the first does not lead on to the second. -/
structure Parted (placements : List Placement) (a b : Run) : Prop where
  unlinked : ∀ last first, a.placements.getLast? = some last → b.placements.head? = some first →
    last.leadsTo first = false
  between : ∀ p ∈ placements, p.sector ≤ a.physicalEnd ∨ b.physicalStart ≤ p.sector

end Run

section Rows

variable {bucket row : List Placement} {c : Nat}

theorem sector_le_or_le {rows : List (List Placement)} {left right : List Placement} {last first : Placement}
    (ordered : rows.flatten.Pairwise fun p q => p.sector ≤ q.sector) (next : [left, right] <:+: rows)
    (hl : left.getLast? = some last) (hf : right.head? = some first) {p : Placement} (member : p ∈ rows.flatten) :
    p.sector ≤ last.sector ∨ first.sector ≤ p.sector := by
  obtain ⟨before, after, rfl⟩ := next
  obtain ⟨front, rfl⟩ := List.getLast?_eq_some_iff.mp hl
  obtain ⟨back, rfl⟩ := List.head?_eq_some_iff.mp hf
  -- `p` stands before the last of `left`, or after the first of `right`, or is one of the two
  have split : (before ++ [front ++ [last], first :: back] ++ after).flatten =
      (before.flatten ++ front) ++ [last, first] ++ (back ++ after.flatten) := by
    simp
  rw [split] at ordered member
  obtain ⟨earlier, -, toLater⟩ := List.pairwise_append.mp ordered
  have toLast := (List.pairwise_append.mp earlier).2.2
  simp only [List.mem_append, List.mem_cons, List.not_mem_nil, or_false] at member toLast toLater
  rcases member with (early | rfl | rfl) | late
  · exact .inl (toLast p early last (.inl rfl))
  · exact .inl (Nat.le_refl _)
  · exact .inr (Nat.le_refl _)
  · exact .inr (toLater first (.inr (.inr rfl)) p late)

theorem alignment_ofPlacements (gapWeight : Float) (source : Nat) (hn : row ≠ [])
    (oneClass : ∀ p ∈ row, alignment p.sector = c) : (Run.ofPlacements gapWeight source row).alignment = c := by
  obtain ⟨first, rest, rfl⟩ := List.exists_cons_of_ne_nil hn
  exact oneClass first List.mem_cons_self

theorem chainRuns_parted (gapWeight : Float) (source : Nat)
    (ordered : bucket.Pairwise fun p q => p.sector ≤ q.sector) :
    (chainRuns gapWeight source bucket).IsChain (Run.Parted bucket) := by
  rw [chainRuns, List.isChain_map]
  apply List.isChain_iff_forall_rel_of_append_cons_cons.mpr
  intro left right before after cut
  have flat : (chains bucket).flatten = bucket := List.flatten_splitBy _ _
  have breaks : (chains bucket).IsChain fun a b => ∃ ha hb, (a.getLast ha).leadsTo (b.head hb) = false :=
    List.isChain_getLast_head_splitBy _ _
  rw [cut] at breaks
  obtain ⟨ha, hb, unrelated⟩ := (List.isChain_append_cons_cons.mp breaks).2.1
  have hl := List.getLast?_eq_getLast_of_ne_nil ha
  have hf := List.head?_eq_some_head hb
  constructor
  · rintro last first hl' hf'
    rw [Run.ofPlacements, hl] at hl'
    rw [Run.ofPlacements, hf] at hf'
    cases hl'
    cases hf'
    exact unrelated
  · intro p member
    rw [Run.physicalEnd_eq hl, Run.physicalStart_eq hf]
    rw [← flat] at ordered member
    exact sector_le_or_le ordered ⟨before, after, by simp [cut]⟩ hl hf member

theorem chains_ordered (ordered : bucket.Pairwise fun p q => p.sector ≤ q.sector) :
    (chains bucket).Pairwise fun left right => ∀ p ∈ left, ∀ q ∈ right, p.sector ≤ q.sector := by
  have flat : (chains bucket).flatten = bucket := List.flatten_splitBy _ _
  rw [← flat, List.pairwise_flatten] at ordered
  exact ordered.2

theorem chainRuns_ordered (gapWeight : Float) (source : Nat)
    (ordered : bucket.Pairwise fun p q => p.sector ≤ q.sector) (oneClass : ∀ p ∈ bucket, alignment p.sector = c) :
    (chainRuns gapWeight source bucket).Pairwise (Run.atMost · ·) := by
  have flat : (chains bucket).flatten = bucket := List.flatten_splitBy _ _
  have within : ∀ row ∈ chains bucket, ∀ p ∈ row, alignment p.sector = c := by
    intro row cut p member
    exact oneClass p (flat ▸ List.mem_flatten.mpr ⟨row, cut, member⟩)
  rw [chainRuns, List.pairwise_map]
  apply (chains_ordered ordered).imp_of_mem
  intro left right hl hr before
  have leftNe := List.ne_nil_of_mem_splitBy hl
  have rightNe := List.ne_nil_of_mem_splitBy hr
  refine Run.atMost_of_start_le rfl ?_ ?_
  · rw [alignment_ofPlacements _ _ leftNe (within left hl), alignment_ofPlacements _ _ rightNe (within right hr)]
  · rw [Run.physicalStart_eq (List.head?_eq_some_head leftNe), Run.physicalStart_eq (List.head?_eq_some_head rightNe)]
    exact before _ (List.head_mem leftNe) _ (List.head_mem rightNe)

end Rows

namespace Search

variable (search : Search) (source : Nat)

def bucket (c : Nat) : List Placement :=
  sorted Placement.atMost ((search.placements source).filter fun placement => alignment placement.sector = c)

theorem gather_eq_map : search.gather source = (List.range sectorsPerBlock).map (search.bucket source) := rfl

theorem candidateRuns_eq_flatMap :
    search.candidateRuns source = ((List.range sectorsPerBlock).map fun c =>
      chainRuns search.settings.nullGapWeight source (search.bucket source c)).flatten := by
  rw [candidateRuns, gather_eq_map, List.flatMap_map, List.flatMap_def]

variable {search source} {c : Nat}

theorem mem_bucket {p : Placement} :
    p ∈ search.bucket source c ↔ p ∈ search.placements source ∧ alignment p.sector = c := by
  rw [bucket, mem_sorted, List.mem_filter, decide_eq_true_eq]

theorem bucket_ordered : (search.bucket source c).Pairwise fun p q => p.sector ≤ q.sector :=
  (Placement.pairwise_sorted _).imp fun hab => Placement.sector_le_of_atMost hab

theorem source_of_mem_chainRuns {gapWeight : Float} {row : List Placement} {run : Run}
    (h : run ∈ chainRuns gapWeight source row) : run.source = source := by
  obtain ⟨cut, -, rfl⟩ := List.mem_map.mp h
  rfl

theorem alignment_of_mem_chainRuns {gapWeight : Float} {run : Run}
    (h : run ∈ chainRuns gapWeight source (search.bucket source c)) : run.alignment = c := by
  obtain ⟨row, cut, rfl⟩ := List.mem_map.mp h
  apply alignment_ofPlacements _ _ (List.ne_nil_of_mem_splitBy cut)
  intro p member
  have inBucket : p ∈ search.bucket source c := by
    rw [← List.flatten_splitBy Placement.leadsTo (search.bucket source c)]
    exact List.mem_flatten.mpr ⟨row, cut, member⟩
  exact (mem_bucket.mp inBucket).2

theorem candidateRuns_parted (search : Search) (source : Nat) :
    (search.candidateRuns source).IsChain fun a b =>
      a.alignment = b.alignment → Run.Parted (search.bucket source a.alignment) a b := by
  rw [candidateRuns_eq_flatMap]
  apply isChain_flatten_of_pairwise
  · intro runs member
    obtain ⟨c, -, rfl⟩ := List.mem_map.mp member
    apply (chainRuns_parted _ _ bucket_ordered).imp_of_mem_imp
    intro a b ha _ parted _
    rwa [alignment_of_mem_chainRuns ha]
  · apply List.pairwise_map.mpr
    apply List.pairwise_lt_range.imp
    intro c d less a ha b hb same
    rw [alignment_of_mem_chainRuns ha, alignment_of_mem_chainRuns hb] at same
    omega

theorem pairwise_candidateRuns {R : Run → Run → Prop}
    (within : ∀ c, (chainRuns search.settings.nullGapWeight source (search.bucket source c)).Pairwise R)
    (across : ∀ a b : Run, a.source = b.source → a.alignment < b.alignment → R a b) :
    (search.candidateRuns source).Pairwise R := by
  rw [candidateRuns_eq_flatMap, List.pairwise_flatten]
  constructor
  · intro runs member
    obtain ⟨c, -, rfl⟩ := List.mem_map.mp member
    exact within c
  · apply List.pairwise_map.mpr
    apply List.pairwise_lt_range.imp
    intro c d less a ha b hb
    apply across a b (by rw [source_of_mem_chainRuns ha, source_of_mem_chainRuns hb])
    rwa [alignment_of_mem_chainRuns ha, alignment_of_mem_chainRuns hb]

theorem candidateRuns_ordered (search : Search) (source : Nat) :
    (search.candidateRuns source).Pairwise (Run.atMost · ·) := by
  apply pairwise_candidateRuns
  · exact fun _ => chainRuns_ordered _ _ bucket_ordered fun p inBucket => (mem_bucket.mp inBucket).2
  · exact fun _ _ => Run.atMost_of_alignment_lt

theorem aligned_candidate {run : Run} (h : run ∈ search.candidateRuns source) : run.Aligned := by
  obtain ⟨bucket, -, row, cut, rfl⟩ := mem_candidateRuns.mp h
  refine ⟨List.ne_nil_of_mem_splitBy cut, (List.isChain_of_mem_splitBy cut).imp fun a b hab => ?_⟩
  exact (Placement.leadsTo_iff.mp hab).1

theorem sorted_candidateRuns (search : Search) (source : Nat) :
    sorted Run.atMost (search.candidateRuns source) = search.candidateRuns source :=
  Run.sorted_eq_self (candidateRuns_ordered search source)

theorem merged_candidateRuns (search : Search) (image : Image) (source : Nat) :
    search.merged (some image) (search.candidateRuns source) =
      match search.candidateRuns source with
      | [] => ⟨[], []⟩
      | first :: rest => mergeFrom (tryJoin search.settings image) first rest := by
  have unmoved := sorted_candidateRuns search source
  cases hc : search.candidateRuns source with
  | nil =>
    rw [hc] at unmoved
    simp only [merged, mergeRuns, unmoved]
  | cons first rest =>
    rw [hc] at unmoved
    simp only [merged, mergeRuns, unmoved]

variable {image : Image}

theorem aligned_candidates {first : Run} {rest : List Run} (h : search.candidateRuns source = first :: rest) :
    first.Aligned ∧ ∀ run ∈ rest, run.Aligned := by
  rw [← List.forall_mem_cons, ← h]
  exact fun run => aligned_candidate

theorem merged_groups (search : Search) (image : Image) (source : Nat) :
    List.Forall₂ (Run.Spans search.settings.maxGapBlocks)
      (joinGroups search.settings image (search.candidateRuns source))
      (search.merged (some image) (search.candidateRuns source)).runs := by
  rw [merged_candidateRuns]
  cases hc : search.candidateRuns source with
  | nil => exact .nil
  | cons first rest =>
    obtain ⟨hf, hr⟩ := aligned_candidates hc
    exact mergeFrom_groups [] hr (.singleton _) (.singleton _ _) (.refl hf)

theorem attempt_of_merged {attempt : Attempt}
    (h : attempt ∈ (search.merged (some image) (search.candidateRuns source)).attempts) :
    ∃ a b grown, [a, b] <:+: search.candidateRuns source ∧ grown.EndsAs a ∧
      attempt = tryJoin search.settings image grown b := by
  rw [merged_candidateRuns] at h
  cases hc : search.candidateRuns source with
  | nil =>
    rw [hc] at h
    exact absurd h List.not_mem_nil
  | cons first rest =>
    rw [hc] at h
    obtain ⟨hf, hr⟩ := aligned_candidates hc
    exact attempts_mergeFrom hr (.refl hf) attempt h

end Search

end FragmentSearch
