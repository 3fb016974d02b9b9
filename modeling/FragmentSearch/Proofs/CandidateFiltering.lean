import FragmentSearch.Proofs.EvidenceOrigins
import FragmentSearch.Proofs.Ordering
import FragmentSearch.Proofs.SourceViews

namespace FragmentSearch

structure Policy.Tightens (strict lax : Policy) : Prop where
  includeAll : strict.includeAll = true → lax.includeAll = true
  maxCount_le : strict.maxCount ≤ lax.maxCount
  allowFlagged : strict.allowFlagged = true → lax.allowFlagged = true

namespace Policy.Tightens

variable {strict lax : Policy}

theorem qualifies (h : strict.Tightens lax) {provenance : Provenance} (admitted : strict.qualifies provenance = true) :
    lax.qualifies provenance = true := by
  simp only [Policy.qualifies, Bool.or_eq_true, Bool.and_eq_true, decide_eq_true_eq] at admitted ⊢
  rcases admitted with all | ⟨⟨counted, rare⟩, unflagged⟩
  · exact .inl (h.includeAll all)
  · exact .inr ⟨⟨counted, rare.trans h.maxCount_le⟩, unflagged.imp_left h.allowFlagged⟩

theorem mem_select (h : strict.Tightens lax) {records : List Record} {source : Nat}
    (selected : source ∈ Candidates.select strict records) : source ∈ Candidates.select lax records := by
  obtain ⟨association, member, admitted, named⟩ := Candidates.mem_select.mp selected
  exact Candidates.mem_select.mpr ⟨association, member, h.qualifies admitted, named⟩

end Policy.Tightens

namespace Catalog

variable {catalog other : Catalog} {a b : Nat}

def compareRanks (catalog : Catalog) : Nat → Nat → Ordering :=
  compareLex (compareLex (fun a b => compareOn (fun id => Decimal.orderKey (catalog.score id)) b a)
    (compareOn fun id => (catalog.source id).name)) compare

instance (catalog : Catalog) : Std.TransCmp catalog.compareRanks :=
  inferInstanceAs (Std.TransCmp (compareLex (compareLex _ _) _))

theorem ranksBefore_eq (catalog : Catalog) (a b : Nat) :
    catalog.ranksBefore a b = (catalog.compareRanks a b).isLE := rfl

theorem pairwise_ranked (catalog : Catalog) : catalog.ranked.Pairwise (catalog.ranksBefore · ·) :=
  pairwise_sorted catalog.compareRanks _

theorem ranksBefore_antisymm (h : catalog.ranksBefore a b = true) (h' : catalog.ranksBefore b a = true) : a = b := by
  rw [ranksBefore_eq] at h h'
  have same := Std.OrientedCmp.isLE_antisymm h h'
  simp only [compareRanks, compareLex_eq_eq] at same
  exact Nat.compare_eq_eq.mp same.2

theorem SameOn.ranksBefore_eq (ha : catalog.SameOn other a) (hb : catalog.SameOn other b) :
    catalog.ranksBefore a b = other.ranksBefore a b := by
  rw [ranksBefore, ranksBefore, ha.score, hb.score, ha.description, hb.description]

theorem mem_ranked : a ∈ catalog.ranked ↔ a ∈ catalog.candidates := by
  rw [ranked, mem_sorted, Std.TreeSet.mem_toList]

theorem nodup_ranked (catalog : Catalog) : catalog.ranked.Nodup := by
  apply (perm_sorted _ _).nodup_iff.mpr
  exact catalog.candidates.ordered_toList.imp fun less => Nat.ne_of_lt (Nat.compare_eq_lt.mp less)

theorem eq_filter_ranked {list : List Nat} {p : Nat → Bool} (ordered : list.Pairwise (catalog.ranksBefore · ·))
    (perm : list.Perm (other.ranked.filter p))
    (same : ∀ a ∈ other.ranked.filter p, ∀ b ∈ other.ranked.filter p,
      catalog.ranksBefore a b = other.ranksBefore a b) : list = other.ranked.filter p := by
  apply perm.eq_of_pairwise (fun a b _ _ => ranksBefore_antisymm) ordered
  apply (other.pairwise_ranked.filter _).imp_of_mem
  intro a b ha hb before
  rwa [same a ha b hb]

theorem ranked_eq_filter (sub : ∀ source ∈ catalog.candidates, source ∈ other.candidates)
    (same : ∀ source ∈ catalog.candidates, catalog.SameOn other source) :
    catalog.ranked = other.ranked.filter catalog.candidates.contains := by
  apply eq_filter_ranked catalog.pairwise_ranked
  · apply (List.perm_ext_iff_of_nodup catalog.nodup_ranked (other.nodup_ranked.filter _)).mpr
    intro source
    simp only [List.mem_filter, mem_ranked, Std.TreeSet.contains_iff_mem]
    exact ⟨fun member => ⟨sub source member, member⟩, And.right⟩
  · have listed : ∀ source ∈ other.ranked.filter catalog.candidates.contains, source ∈ catalog.candidates :=
      fun source member => Std.TreeSet.contains_iff_mem.mp (List.mem_filter.mp member).2
    exact fun a ha b hb => (same a (listed a ha)).ranksBefore_eq (same b (listed b hb))

end Catalog

theorem filter_flatMap_of_key {α β : Type} (p : α → Bool) {g : α → List β} {key : β → α}
    (keyed : ∀ a, ∀ b ∈ g a, key b = a) (list : List α) :
    (list.flatMap g).filter (fun b => p (key b)) = (list.filter p).flatMap g := by
  induction list with
  | nil => rfl
  | cons a rest ih =>
    rw [List.flatMap_cons, List.filter_append, ih]
    cases h : p a with
    | true =>
      have all : (g a).filter (fun b => p (key b)) = g a :=
        List.filter_eq_self.mpr fun b member => by rw [keyed a b member, h]
      rw [all, List.filter_cons_of_pos h, List.flatMap_cons]
    | false =>
      have nothing : (g a).filter (fun b => p (key b)) = [] :=
        List.filter_eq_nil_iff.mpr fun b member => by simp [keyed a b member, h]
      rw [nothing, List.filter_cons_of_neg (by simp [h]), List.nil_append]

namespace Search

theorem find_eq_filter (search other : Search)
    (sub : ∀ source ∈ search.catalog.candidates, source ∈ other.catalog.candidates)
    (same : ∀ source ∈ search.catalog.candidates, search.catalog.SameOn other.catalog source)
    (placed : ∀ source ∈ search.catalog.candidates, search.placements source = other.placements source)
    (settings : search.settings = other.settings) (image : Option Image) :
    search.find image = (other.find image).filter fun run => search.catalog.candidates.contains run.source := by
  have keyed : ∀ source, ∀ run ∈ (other.merged image (other.candidateRuns source)).runs.filter other.settings.keeps,
      run.source = source := fun _ run member => (grounded_merged (List.mem_filter.mp member).1).source_eq
  rw [find_eq_flatMap, find_eq_flatMap, filter_flatMap_of_key _ keyed, Catalog.ranked_eq_filter sub same]
  apply List.flatMap_congr
  intro source member
  have candidate : source ∈ search.catalog.candidates := Std.TreeSet.contains_iff_mem.mp (List.mem_filter.mp member).2
  rw [candidateRuns_eq_of_placements_eq (placed source candidate) settings, merged_eq_of_settings_eq settings, settings]

theorem find_tightened (localSize : String → Nat) {strict lax : Policy} (tightens : strict.Tightens lax)
    (settings : Settings) (associations observations : Feed) (distinct : DistinctHashes associations.records.items)
    (image : Option Image) :
    let narrow := Candidates.select strict associations.records.items
    (∀ source ∈ narrow, source ∈ Candidates.select lax associations.records.items) ∧
      (ofFeeds localSize strict settings associations observations).find image =
        ((ofFeeds localSize lax settings associations observations).find image).filter
          fun run => narrow.contains run.source := by
  intro narrow
  let search := ofFeeds localSize strict settings associations observations
  let other := ofFeeds localSize lax settings associations observations
  have listed : search.catalog.candidates = narrow := Catalog.candidates_load _
  have wide : other.catalog.candidates = Candidates.select lax associations.records.items := Catalog.candidates_load _
  have sub : ∀ source ∈ narrow, source ∈ Candidates.select lax associations.records.items :=
    fun _ => tightens.mem_select
  have same : ∀ source ∈ narrow, search.catalog.SameOn other.catalog source :=
    fun source candidate => Catalog.load_sameOn localSize distinct candidate (sub source candidate)
  have placed : ∀ source ∈ narrow, search.placements source = other.placements source := by
    intro source candidate
    apply placements_eq_of_sameOn (same source candidate)
    intro hash member
    obtain ⟨here, there⟩ := (same source candidate).known hash member
    exact (Sightings.sectorsOf_sightings here _).trans (Sightings.sectorsOf_sightings there _).symm
  refine ⟨sub, ?_⟩
  rw [← listed]
  apply find_eq_filter search other _ _ _ rfl image
  · rwa [listed, wide]
  · rwa [listed]
  · rwa [listed]

theorem find_tightened_flagged :
    let associations : Feed :=
      ⟨"[\"a\",[1],[[7,0]]]\n[\"b\",[3,\"W\"],[[7,4096],[9,0]]]\n[\"c\",[1,\"H\"],[[9,4100]]]\n".toUTF8.toList, none⟩
    let observations : Feed := ⟨"512\ta\t1\n4700\tb\t3W\n81920\tb\t3W\n86016\tc\t1H\n".toUTF8.toList, none⟩
    let strict : Policy := {}
    let lax : Policy := { maxCount := 2, allowFlagged := true }
    let narrow := Candidates.select strict associations.records.items
    let found := fun policy => (ofFeeds (fun _ => 0) policy {} associations observations).find none
    strict.Tightens lax ∧ DistinctHashes associations.records.items ∧ narrow.toList = [7] ∧
      7 ∈ Candidates.select lax associations.records.items ∧ (found lax).map (·.source) = [7, 9] ∧
      (found strict).map (·.source) = [7] ∧
      found strict = (found lax).filter fun run => narrow.contains run.source := by
  intro associations observations strict lax narrow found
  have tightens : strict.Tightens lax := ⟨by decide, by decide, by decide⟩
  have distinct : DistinctHashes associations.records.items := by unfold DistinctHashes; decide +kernel
  have only : narrow.toList = [7] := by decide +kernel
  obtain ⟨sub, filtered⟩ := find_tightened (fun _ => 0) tightens {} associations observations distinct none
  have seven : 7 ∈ narrow := Std.TreeSet.mem_toList.mp (only ▸ List.mem_singleton_self 7)
  refine ⟨tightens, distinct, only, sub 7 seven, ?_, ?_, filtered⟩ <;> decide +kernel

end Search

end FragmentSearch
