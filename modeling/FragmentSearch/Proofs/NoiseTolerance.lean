import Mathlib.Data.List.SplitBy
import FragmentSearch.Proofs.Ordering
import FragmentSearch.Proofs.SearchResults

namespace FragmentSearch

def Placement.Alone (p : Placement) (list : List Placement) : Prop := list.filter (fun q => q.sector = p.sector) = [p]

namespace Placement

variable {p t : Placement} {list : List Placement}

theorem Alone.mem (h : p.Alone list) : p ∈ list := by
  have member : p ∈ list.filter fun q => q.sector = p.sector := by rw [h]; exact List.mem_singleton_self p
  exact (List.mem_filter.mp member).1

theorem Alone.eq (h : p.Alone list) (member : t ∈ list) (same : t.sector = p.sector) : t = p := by
  have filtered : t ∈ list.filter fun q => q.sector = p.sector := List.mem_filter.mpr ⟨member, by simpa using same⟩
  rw [h] at filtered
  exact List.mem_singleton.mp filtered

theorem Alone.of_sublist {part : List Placement} (h : p.Alone list) (sub : part.Sublist list) (member : p ∈ part) :
    p.Alone part := by
  have smaller : (part.filter fun q => q.sector = p.sector).Sublist [p] := h ▸ sub.filter _
  have filtered : p ∈ part.filter fun q => q.sector = p.sector := List.mem_filter.mpr ⟨member, by simp⟩
  rcases List.sublist_singleton.mp smaller with none | one
  · rw [none] at filtered
    cases filtered
  · exact one

theorem sector_lt_of_mem_tail {first : Placement} {rest : List Placement} (h : (first :: rest).IsChain Adjoins) :
    ∀ p ∈ rest, first.sector < p.sector := by
  induction rest generalizing first with
  | nil => simp
  | cons second rest ih =>
    obtain ⟨hs, ht⟩ := List.isChain_cons_cons.mp h
    have onward : first.sector < second.sector := by
      simp only [Adjoins, sectorsPerBlock] at hs
      omega
    intro p member
    rcases List.mem_cons.mp member with rfl | member
    · exact onward
    · exact onward.trans (ih ht p member)

end Placement

open Placement

theorem next_of_alone {t u : Placement} {rest : List Placement} {c : Nat} (next : t.Adjoins u)
    (hu : u.Alone (t :: rest)) (ht : t.Alone (t :: rest))
    (ordered : (t :: rest).Pairwise fun a b => a.sector ≤ b.sector)
    (oneClass : ∀ p ∈ t :: rest, alignment p.sector = c) : ∃ others, rest = u :: others := by
  have later : u ∈ rest := by
    rcases List.mem_cons.mp hu.mem with rfl | member
    · simp [Adjoins, sectorsPerBlock] at next
    · exact member
  obtain ⟨v, others, rfl⟩ := List.exists_cons_of_ne_nil (List.ne_nil_of_mem later)
  obtain ⟨first, tail⟩ := List.pairwise_cons.mp ordered
  have notBefore := first v List.mem_cons_self
  have notSame : v.sector ≠ t.sector := by
    intro same
    have double := ht
    simp [Alone, same] at double
  have upTo : v.sector ≤ u.sector := by
    rcases List.mem_cons.mp later with rfl | member
    · exact Nat.le_refl _
    · exact (List.pairwise_cons.mp tail).1 u member
  have classes : alignment v.sector = alignment t.sector :=
    (oneClass v (by simp)).trans (oneClass t (by simp)).symm
  have same : v.sector = u.sector := by
    simp only [alignment, Adjoins, sectorsPerBlock] at classes next
    omega
  exact ⟨others, by rw [hu.eq (by simp) same]⟩

theorem prefix_of_alone {t : Placement} {more rest : List Placement} {c : Nat} (linked : (t :: more).IsChain Adjoins)
    (alone : ∀ u ∈ t :: more, u.Alone (t :: rest)) (ordered : (t :: rest).Pairwise fun a b => a.sector ≤ b.sector)
    (oneClass : ∀ p ∈ t :: rest, alignment p.sector = c) : t :: more <+: t :: rest := by
  induction more generalizing t rest with
  | nil => exact ⟨rest, rfl⟩
  | cons u more ih =>
    obtain ⟨next, onward⟩ := List.isChain_cons_cons.mp linked
    obtain ⟨others, rfl⟩ := next_of_alone next (alone u (by simp)) (alone t (by simp)) ordered oneClass
    apply (List.prefix_cons_inj t).mpr
    apply ih onward _ (List.pairwise_cons.mp ordered).2 (fun p member => oneClass p (List.mem_cons_of_mem _ member))
    intro w member
    have hw := alone w (List.mem_cons_of_mem _ member)
    apply hw.of_sublist (List.sublist_cons_self _ _)
    rcases List.mem_cons.mp hw.mem with rfl | later
    · exact absurd (sector_lt_of_mem_tail linked w member) (Nat.lt_irrefl _)
    · exact later

theorem stretch_of_alone {chain bucket : List Placement} {c : Nat} (hn : chain ≠ []) (linked : chain.IsChain Adjoins)
    (alone : ∀ u ∈ chain, u.Alone bucket) (ordered : bucket.Pairwise fun a b => a.sector ≤ b.sector)
    (oneClass : ∀ p ∈ bucket, alignment p.sector = c) : chain <:+: bucket := by
  obtain ⟨t, more, rfl⟩ := List.exists_cons_of_ne_nil hn
  have ht := alone t List.mem_cons_self
  obtain ⟨before, rest, rfl⟩ := List.append_of_mem ht.mem
  have fromThere : ∀ u ∈ t :: more, u ∈ t :: rest := by
    intro u member
    have hu := alone u member
    rcases List.mem_append.mp hu.mem with earlier | later
    · -- what stands before `t` is not after it on the image, and the rest of the chain is
      have notAfter := (List.pairwise_append.mp ordered).2.2 u earlier t List.mem_cons_self
      rcases List.mem_cons.mp member with rfl | further
      · exact List.mem_cons_self
      · have onward := sector_lt_of_mem_tail linked u further
        omega
    · exact later
  have start : t :: more <+: t :: rest := by
    apply prefix_of_alone linked
    · intro u member
      exact (alone u member).of_sublist (List.sublist_append_right _ _) (fromThere u member)
    · exact (List.pairwise_append.mp ordered).2.1
    · exact fun p member => oneClass p (List.mem_append_right _ member)
  exact start.isInfix.trans (List.suffix_append _ _).isInfix

theorem exists_group_of_stretch {α : Type} {r : α → α → Bool} {row : List α} (hn : row ≠ [])
    (linked : row.IsChain fun a b => r a b = true) {groups : List (List α)} (nonempty : [] ∉ groups)
    (breaks : groups.IsChain fun a b => ∃ ha hb, r (a.getLast ha) (b.head hb) = false)
    (h : row <:+: groups.flatten) : ∃ group ∈ groups, row <:+: group := by
  induction groups with
  | nil => exact absurd (List.infix_nil.mp h) hn
  | cons group groups ih =>
    rw [List.flatten_cons, List.infix_append_iff_ne_nil] at h
    rcases h with inside | after | ⟨left, right, hl, hr, rfl, ends, begins⟩
    · exact ⟨group, List.mem_cons_self, inside⟩
    · obtain ⟨other, member, within⟩ := ih (fun e => nonempty (List.mem_cons_of_mem _ e)) breaks.tail after
      exact ⟨other, List.mem_cons_of_mem _ member, within⟩
    · -- a row across a border would have the two neighbours of the border related
      cases groups with
      | nil => exact absurd (List.prefix_nil.mp begins) hr
      | cons next groups =>
        obtain ⟨⟨ha, hb, unrelated⟩, -⟩ := List.isChain_cons_cons.mp breaks
        have related := linked.rel_getLast_head_of_append hl hr
        rw [ends.getLast hl, begins.head hr] at related
        simp only [List.flatten_cons, List.head_append_of_ne_nil hb, unrelated] at related
        cases related

theorem exists_chain_of_stretch {row bucket : List Placement} (hn : row ≠ [])
    (linked : row.IsChain fun a b => a.leadsTo b = true) (h : row <:+: bucket) :
    ∃ whole ∈ chains bucket, row <:+: whole := by
  apply exists_group_of_stretch hn linked (List.nil_notMem_splitBy _ _) (List.isChain_getLast_head_splitBy _ _)
  rw [List.flatten_splitBy]
  exact h

theorem Settings.keeps_of_stretch {settings : Settings} {row : List Placement} {run : Run}
    (within : row <:+: run.placements) (two : 2 ≤ row.length) (longEnough : settings.minRun ≤ row.length)
    (unique : ∃ p ∈ row, p.evidence = .hash 1) (rare : 1 ≤ settings.maxCount) : settings.keeps run = true := by
  have length := within.length_le
  obtain ⟨p, member, evidence⟩ := unique
  have inRun : p ∈ run.placements := within.subset member
  have counted : 1 ∈ run.placements.filterMap Placement.count :=
    List.mem_filterMap.mpr ⟨p, inRun, by simp [Placement.count, evidence]⟩
  obtain ⟨least, hm, low⟩ := least_le_of_mem counted
  exact keeps_iff.mpr ⟨Nat.max_le.mpr ⟨by omega, by omega⟩, ⟨p, inRun, evidence⟩, least, hm, low.trans rare⟩

theorem ordered_of_mem_alignedClasses {placements bucket : List Placement} (h : bucket ∈ alignedClasses placements) :
    (bucket.Pairwise fun a b => a.sector ≤ b.sector) ∧ ∃ c, ∀ p ∈ bucket, alignment p.sector = c := by
  obtain ⟨c, -, rfl⟩ := List.mem_map.mp h
  refine ⟨(Placement.pairwise_sorted _).imp fun hab => sector_le_of_atMost hab, c, fun p member => ?_⟩
  simpa using (List.mem_filter.mp (mem_sorted.mp member)).2

theorem mem_bucket_of_alignment_eq {placements bucket : List Placement} {p q : Placement}
    (h : bucket ∈ alignedClasses placements) (hp : p ∈ bucket) (hq : q ∈ placements)
    (same : alignment q.sector = alignment p.sector) : q ∈ bucket := by
  obtain ⟨c, -, rfl⟩ := List.mem_map.mp h
  have hc : alignment p.sector = c := by simpa using (List.mem_filter.mp (mem_sorted.mp hp)).2
  exact mem_sorted.mpr (List.mem_filter.mpr ⟨hq, by simp [same, hc]⟩)

namespace Search

variable {search : Search} {source : Nat}

theorem stretch_candidate {chain : List Placement} (hn : chain ≠ [])
    (linked : chain.IsChain fun a b => a.leadsTo b = true)
    (alone : ∀ t ∈ chain, t.Alone (search.gather source).flatten) :
    ∃ run ∈ search.candidateRuns source, chain <:+: run.placements := by
  have steps : chain.IsChain Adjoins := linked.imp fun a b hab => (leadsTo_iff.mp hab).1
  obtain ⟨t, more, rfl⟩ := List.exists_cons_of_ne_nil hn
  obtain ⟨bucket, gathered, ht⟩ := List.mem_flatten.mp (alone t List.mem_cons_self).mem
  obtain ⟨ordered, c, oneClass⟩ := ordered_of_mem_alignedClasses gathered
  have inBucket : ∀ u ∈ t :: more, u ∈ bucket := by
    intro u member
    have placed : u ∈ search.placements source := mem_gather.mp (alone u member).mem
    exact mem_bucket_of_alignment_eq gathered ht placed (alignment_eq_head steps u member)
  have stretch : t :: more <:+: bucket := by
    apply stretch_of_alone hn steps _ ordered oneClass
    intro u member
    exact (alone u member).of_sublist (List.sublist_flatten_of_mem gathered) (inBucket u member)
  obtain ⟨row, cut, within⟩ := exists_chain_of_stretch hn linked stretch
  exact ⟨_, mem_candidateRuns.mpr ⟨bucket, gathered, row, cut, rfl⟩, within⟩

theorem stretch_find {image : Option Image} {chain : List Placement} {run : Run} (within : chain <:+: run.placements)
    (candidate : source ∈ search.catalog.candidates) (h : run ∈ search.candidateRuns source) (two : 2 ≤ chain.length)
    (unique : ∃ t ∈ chain, t.evidence = .hash 1) (longEnough : search.settings.minRun ≤ chain.length)
    (rare : 1 ≤ search.settings.maxCount) :
    ∃ whole ∈ search.find image, whole.source = source ∧ chain <:+: whole.placements := by
  obtain ⟨whole, merged, part⟩ := merged_covers h
  have stretch : chain <:+: whole.placements := within.trans part.stretch
  refine ⟨whole, ?_, ?_, stretch⟩
  · exact mem_find.mpr ⟨source, candidate, merged, Settings.keeps_of_stretch stretch two longEnough unique rare⟩
  · rw [← part.source_eq, (grounded_candidate h).source_eq]

theorem find_complete (search : Search) (source : Nat) {chain : List Placement} (two : 2 ≤ chain.length)
    (linked : chain.IsChain fun a b => a.sector + sectorsPerBlock = b.sector ∧ stepsInto a.blocks b.blocks = true)
    (alone : ∀ t ∈ chain, t.Alone (search.gather source).flatten) :
    (∃ run ∈ search.candidateRuns source, chain <:+: run.placements) ∧
      (source ∈ search.catalog.candidates → (∃ t ∈ chain, t.evidence = .hash 1) →
        search.settings.minRun ≤ chain.length → 1 ≤ search.settings.maxCount →
          ∀ image, ∃ run ∈ search.find image, run.source = source ∧ chain <:+: run.placements) := by
  have hn : chain ≠ [] := List.ne_nil_of_length_pos (by omega)
  have leads : chain.IsChain fun a b => a.leadsTo b = true := linked.imp fun a b hab => leadsTo_iff.mpr hab
  obtain ⟨run, candidate, within⟩ := stretch_candidate hn leads alone
  refine ⟨⟨run, candidate, within⟩, ?_⟩
  intro listed unique longEnough rare image
  exact stretch_find within listed candidate two unique longEnough rare

theorem find_complete_amid_noise :
    let records : List Record := [.association ⟨"a", ⟨1, none⟩, [⟨1, 0⟩]⟩,
      .association ⟨"b", ⟨2, none⟩, [⟨1, 4096⟩, ⟨2, 40960⟩]⟩, .association ⟨"c", ⟨1, none⟩, [⟨2, 0⟩]⟩,
      .association ⟨"d", ⟨5, none⟩, [⟨1, 8192⟩]⟩]
    let observations : List Observation := [⟨49152, "a", none, .none⟩, ⟨4096, "b", none, .none⟩,
      ⟨8192, "c", none, .none⟩, ⟨1536, "d", none, .none⟩, ⟨0, "a", none, .none⟩, ⟨8192, "d", none, .none⟩]
    let catalog := Catalog.load (fun _ => 0) (Candidates.select {} records) records
    let search : Search := { catalog, sightings := catalog.sightings observations, settings := {} }
    let chain : List Placement := [⟨0, [0], .hash 1⟩, ⟨8, [1], .hash 2⟩]
    (search.gather 1).map List.length = [4, 0, 0, 1, 0, 0, 0, 0] ∧
      (∀ t ∈ chain, t.Alone (search.gather 1).flatten) ∧
        (∃ run ∈ search.candidateRuns 1, chain <:+: run.placements) ∧
          ∀ image, ∃ run ∈ search.find image, run.source = 1 ∧ chain <:+: run.placements := by
  intro records observations catalog search chain
  have linked :
      chain.IsChain fun a b => a.sector + sectorsPerBlock = b.sector ∧ stepsInto a.blocks b.blocks = true := by
    decide
  have alone : ∀ t ∈ chain, t.Alone (search.gather 1).flatten := by
    unfold Placement.Alone
    decide +kernel
  have complete := find_complete search 1 (by decide) linked alone
  refine ⟨by decide +kernel, alone, complete.1, ?_⟩
  exact complete.2 (by decide +kernel) ⟨⟨0, [0], .hash 1⟩, List.mem_cons_self, rfl⟩ (by decide) (by decide)

end Search

end FragmentSearch
