import FragmentSearch.Run
import FragmentSearch.Gap

namespace FragmentSearch

variable {α : Type}

section Sorted

variable (compareBy : α → α → Ordering) [Std.TransCmp compareBy]

theorem isLE_total (a b : α) : ((compareBy a b).isLE || (compareBy b a).isLE) = true := by
  have swap : compareBy b a = (compareBy a b).swap := Std.OrientedCmp.eq_swap
  rw [swap]
  cases compareBy a b <;> rfl

theorem pairwise_sorted (list : List α) :
    (sorted (fun a b => (compareBy a b).isLE) list).Pairwise fun a b => (compareBy a b).isLE := by
  rw [sorted_eq_mergeSort]
  exact List.pairwise_mergeSort (fun a b c => Std.TransCmp.isLE_trans) (isLE_total compareBy) list

theorem sorted_cons (a : α) (list : List α) :
    ∃ before after, sorted (fun a b => (compareBy a b).isLE) list = before ++ after ∧
      sorted (fun a b => (compareBy a b).isLE) (a :: list) = before ++ a :: after := by
  simp only [sorted_eq_mergeSort]
  obtain ⟨before, after, inserted, apart, -⟩ :=
    List.mergeSort_cons (fun a b c => Std.TransCmp.isLE_trans) (isLE_total compareBy) a list
  exact ⟨before, after, apart, inserted⟩

theorem sorted_cons_eq (a : α) (list : List α) :
    sorted (fun a b => (compareBy a b).isLE) (a :: list) =
      (sorted (fun a b => (compareBy a b).isLE) list).filter (fun b => !(compareBy a b).isLE) ++
        a :: (sorted (fun a b => (compareBy a b).isLE) list).filter fun b => (compareBy a b).isLE := by
  have ordered := pairwise_sorted compareBy (a :: list)
  simp only [sorted_eq_mergeSort] at ordered ⊢
  obtain ⟨before, after, inserted, apart, greater⟩ :=
    List.mergeSort_cons (fun a b c => Std.TransCmp.isLE_trans) (isLE_total compareBy) a list
  rw [inserted, List.pairwise_append, List.pairwise_cons] at ordered
  have less : ∀ b ∈ after, (compareBy a b).isLE = true := ordered.2.1.1
  have front : before.filter (fun b => (compareBy a b).isLE) = [] := by simpa using greater
  have back : after.filter (fun b => !(compareBy a b).isLE) = [] := by
    apply List.filter_eq_nil_iff.mpr
    intro b member
    rw [less b member]
    decide
  rw [inserted, apart, List.filter_append, List.filter_append, front, back, List.filter_eq_self.mpr greater,
    List.filter_eq_self.mpr less, List.append_nil, List.nil_append]

theorem filter_sorted (p : α → Bool) (list : List α) :
    (sorted (fun a b => (compareBy a b).isLE) list).filter p =
      sorted (fun a b => (compareBy a b).isLE) (list.filter p) := by
  induction list with
  | nil => simp [sorted]
  | cons a list ih =>
    cases chosen : p a with
    | true =>
      rw [List.filter_cons_of_pos chosen, sorted_cons_eq, sorted_cons_eq, ← ih, List.filter_append,
        List.filter_cons_of_pos chosen]
      simp only [List.filter_filter, Bool.and_comm]
    | false =>
      obtain ⟨before, after, apart, inserted⟩ := sorted_cons compareBy a list
      have dropped : ¬ p a = true := by simp [chosen]
      rw [List.filter_cons_of_neg dropped, ← ih, inserted, apart, List.filter_append, List.filter_append,
        List.filter_cons_of_neg dropped]

end Sorted

def Placement.compareKeys : Placement → Placement → Ordering :=
  compareLex (compareLex (compareOn Placement.sector) (compareOn Placement.blocks)) (compareOn Placement.count)

def Run.compareKeys : Run → Run → Ordering :=
  compareLex (compareLex (compareOn Run.source) (compareOn Run.alignment)) (compareOn Run.physicalStart)

instance : Std.TransCmp Placement.compareKeys :=
  inferInstanceAs (Std.TransCmp (compareLex (compareLex _ _) _))

instance : Std.TransCmp Run.compareKeys :=
  inferInstanceAs (Std.TransCmp (compareLex (compareLex _ _) _))

theorem Placement.pairwise_sorted (placements : List Placement) :
    (sorted Placement.atMost placements).Pairwise (Placement.atMost · ·) :=
  FragmentSearch.pairwise_sorted Placement.compareKeys placements

theorem Placement.eq_of_atMost {a b : Placement} (h : a.atMost b) (h' : b.atMost a) : a = b := by
  have same : Placement.compareKeys a b = .eq := Std.OrientedCmp.isLE_antisymm h h'
  simp only [Placement.compareKeys, compareLex_eq_eq, compareOn, Std.compare_eq_iff_eq] at same
  obtain ⟨⟨sector, blocks⟩, count⟩ := same
  have evidence : a.evidence = b.evidence := by
    unfold Placement.count at count
    cases ha : a.evidence <;> cases hb : b.evidence <;> simp_all
  cases a
  cases b
  simp only at sector blocks evidence
  rw [sector, blocks, evidence]

theorem Placement.sorted_eq_of_perm {placements others : List Placement} (h : placements.Perm others) :
    sorted Placement.atMost placements = sorted Placement.atMost others := by
  apply List.Perm.eq_of_pairwise (fun a b _ _ => eq_of_atMost) (pairwise_sorted _) (pairwise_sorted _)
  exact (perm_sorted _ _).trans (h.trans (perm_sorted _ _).symm)

theorem Run.pairwise_sorted (runs : List Run) : (sorted Run.atMost runs).Pairwise (Run.atMost · ·) :=
  FragmentSearch.pairwise_sorted Run.compareKeys runs

theorem Run.sorted_eq_self {runs : List Run} (ordered : runs.Pairwise (Run.atMost · ·)) :
    sorted Run.atMost runs = runs := by
  rw [sorted_eq_mergeSort]
  exact List.mergeSort_of_pairwise ordered

theorem Placement.sector_le_of_atMost {a b : Placement} (h : a.atMost b) : a.sector ≤ b.sector := by
  simp only [Placement.atMost, Ordering.isLE_then_iff_and] at h
  exact Nat.isLE_compare.mp h.1.1

end FragmentSearch
