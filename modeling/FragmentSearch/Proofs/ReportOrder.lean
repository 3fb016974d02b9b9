import FragmentSearch.Proofs.DoubleOrder
import FragmentSearch.Proofs.RunSpans
import FragmentSearch.Proofs.Translation
import Mathlib.Data.Prod.Lex
import Mathlib.Data.String.Basic

namespace FragmentSearch

theorem isLE_compare_then {α : Type} [LinearOrder α] {a b : α} {rest : Ordering} :
    ((compare a b).then rest).isLE = true ↔ a < b ∨ a = b ∧ rest.isLE = true := by
  rw [Ordering.isLE_then_iff_or, compare_lt_iff_lt, compare_eq_iff_eq]

section Convex

variable {α : Type} {p : α → Bool} {list : List α}

theorem filter_prefix_of_closed (closed : ∀ b c, [b, c].Sublist list → p c = true → p b = true) :
    list.filter p <+: list := by
  induction list with
  | nil => exact List.nil_prefix
  | cons b list ih =>
    cases hb : p b with
    | true =>
      rw [List.filter_cons_of_pos hb]
      exact List.cons_prefix_cons.mpr ⟨rfl, ih fun c d within => closed c d (within.cons b)⟩
    | false =>
      have none : (b :: list).filter p = [] := by
        rw [List.filter_cons_of_neg (by simp [hb]), List.filter_eq_nil_iff]
        intro c member hc
        have sub : [b, c].Sublist (b :: list) := (List.singleton_sublist.mpr member).cons_cons b
        exact absurd (closed b c sub hc) (by simp [hb])
      rw [none]
      exact List.nil_prefix

theorem filter_infix_of_convex (convex : ∀ a b c, [a, b, c].Sublist list → p a = true → p c = true → p b = true) :
    list.filter p <:+: list := by
  induction list with
  | nil => exact List.infix_rfl
  | cons a list ih =>
    cases ha : p a with
    | true =>
      rw [List.filter_cons_of_pos ha]
      have front : list.filter p <+: list :=
        filter_prefix_of_closed fun b c within hc => convex a b c (within.cons_cons a) ha hc
      exact (List.cons_prefix_cons.mpr ⟨rfl, front⟩).isInfix
    | false =>
      rw [List.filter_cons_of_neg (by simp [ha])]
      exact (ih fun b c d within => convex b c d (within.cons a)).trans (List.suffix_cons a list).isInfix

end Convex

def Row.place (row : Row) : Nat ×ₗ Nat ×ₗ Nat := toLex (row.logicalStart, toLex (row.physicalStart, row.alignment))

namespace Catalog

variable {catalog : Catalog} {a b : Nat}

/-- What candidates are ranked by: the score, of which the greatest comes first, the name and the identifier. -/
def rank (catalog : Catalog) (id : Nat) : Intᵒᵈ ×ₗ String ×ₗ Nat :=
  toLex (.toDual (Decimal.orderKey (catalog.score id)), toLex ((catalog.source id).name, id))

inductive Leads (catalog : Catalog) (a b : Nat) : Prop
  | ranked (before : [a, b].Sublist catalog.ranked)
  | candidate (left : a ∈ catalog.candidates) (right : b ∉ catalog.candidates)
  | foreign (left : a ∉ catalog.candidates) (right : b ∉ catalog.candidates) (less : a < b)

structure InOrder (catalog : Catalog) (row next : Row) : Prop where
  within : row.source = next.source → row.place ≤ next.place
  across : row.source ≠ next.source → catalog.Leads row.source next.source

theorem ranksBefore_iff : catalog.ranksBefore a b = true ↔ catalog.rank a ≤ catalog.rank b := by
  rw [ranksBefore, Ordering.then_assoc, isLE_compare_then, isLE_compare_then, Nat.isLE_compare, rank, rank,
    Prod.Lex.toLex_le_toLex, Prod.Lex.toLex_le_toLex]
  simp only [OrderDual.toDual_lt_toDual, OrderDual.toDual_inj]
  rw [eq_comm]

theorem rank_injective (same : catalog.rank a = catalog.rank b) : a = b := congrArg (·.2.2) same

theorem ranked_increasing (catalog : Catalog) : catalog.ranked.Pairwise fun a b => catalog.rank a < catalog.rank b := by
  apply (catalog.pairwise_ranked.and catalog.nodup_ranked).imp
  intro a b ⟨before, apart⟩
  exact lt_of_le_of_ne (ranksBefore_iff.mp before) fun same => apart (rank_injective same)

theorem exact_score_le (less : catalog.rank a < catalog.rank b)
    (ha : (Decimal.Binary.ofFloat (catalog.score a)).isFinite = true)
    (hb : (Decimal.Binary.ofFloat (catalog.score b)).isFinite = true) :
    Decimal.exact (catalog.score b) ≤ Decimal.exact (catalog.score a) := by
  apply Decimal.exact_le_of_orderKey_le hb ha
  rw [rank, rank, Prod.Lex.toLex_lt_toLex, OrderDual.toDual_lt_toDual, OrderDual.toDual_inj] at less
  rcases less with greater | ⟨tied, -⟩
  · exact greater.le
  · exact tied.ge

theorem rank_lt_of_sublist (before : [a, b].Sublist catalog.ranked) : catalog.rank a < catalog.rank b := by
  have increasing := catalog.ranked_increasing.sublist before
  exact (List.pairwise_cons.mp increasing).1 b List.mem_cons_self

theorem Leads.asymm (h : catalog.Leads a b) (h' : catalog.Leads b a) : False := by
  have known {a b : Nat} (before : [a, b].Sublist catalog.ranked) :
      a ∈ catalog.candidates ∧ b ∈ catalog.candidates :=
    ⟨mem_ranked.mp (before.subset (by simp)), mem_ranked.mp (before.subset (by simp))⟩
  cases h with
  | ranked before =>
    cases h' with
    | ranked behind => exact lt_asymm (rank_lt_of_sublist before) (rank_lt_of_sublist behind)
    | candidate _ unknown => exact unknown (known before).1
    | foreign unknown _ _ => exact unknown (known before).2
  | candidate left unknown =>
    cases h' with
    | ranked behind => exact unknown (known behind).1
    | candidate right _ => exact unknown right
    | foreign _ other _ => exact other left
  | foreign left right less =>
    cases h' with
    | ranked behind => exact right (known behind).1
    | candidate known _ => exact right known
    | foreign _ _ greater => exact Nat.lt_asymm less greater

theorem sublist_ranked_of_idxOf_lt (earlier : catalog.ranked.idxOf a < catalog.ranked.idxOf b)
    (right : b ∈ catalog.ranked) : [a, b].Sublist catalog.ranked := by
  have inside : catalog.ranked.idxOf b < catalog.ranked.length := List.idxOf_lt_length_iff.mpr right
  have left : a ∈ catalog.ranked.take (catalog.ranked.idxOf b) :=
    (List.mem_take_iff_idxOf_lt (List.idxOf_lt_length_iff.mp (earlier.trans inside))).mpr earlier
  have last : b ∈ catalog.ranked.drop (catalog.ranked.idxOf b) := by
    rw [List.drop_eq_getElem_cons inside, List.getElem_idxOf]
    exact List.mem_cons_self
  have both := (List.singleton_sublist.mpr left).append (List.singleton_sublist.mpr last)
  rwa [List.take_append_drop] at both

theorem leads_of_idxOf (apart : a ≠ b)
    (before : catalog.ranked.idxOf a < catalog.ranked.idxOf b ∨
      catalog.ranked.idxOf a = catalog.ranked.idxOf b ∧ a < b) : catalog.Leads a b := by
  by_cases right : b ∈ catalog.ranked
  · rcases before with earlier | ⟨tied, -⟩
    · exact .ranked (sublist_ranked_of_idxOf_lt earlier right)
    · exact absurd ((List.idxOf_inj right).mp tied.symm).symm apart
  · have unknown : b ∉ catalog.candidates := fun known => right (mem_ranked.mpr known)
    by_cases left : a ∈ catalog.ranked
    · exact .candidate (mem_ranked.mp left) unknown
    · have absent := List.idxOf_eq_length_iff.mpr left
      have absent' := List.idxOf_eq_length_iff.mpr right
      refine .foreign (fun known => left (mem_ranked.mpr known)) unknown ?_
      omega

theorem inOrder_of_rowAtMost {row next : Row} (h : rowAtMost catalog.ranked row next = true) :
    catalog.InOrder row next := by
  simp only [rowAtMost, Ordering.then_assoc] at h
  rw [isLE_compare_then, isLE_compare_then] at h
  constructor
  · intro same
    simp only [same, lt_irrefl, true_and, false_or] at h
    rw [isLE_compare_then, isLE_compare_then, Nat.isLE_compare] at h
    rw [Row.place, Row.place, Prod.Lex.toLex_le_toLex, Prod.Lex.toLex_le_toLex]
    exact h
  · intro apart
    apply leads_of_idxOf apart
    rcases h with earlier | ⟨tied, less | ⟨equal, -⟩⟩
    · exact .inl earlier
    · exact .inr ⟨tied, less⟩
    · exact absurd equal apart

theorem report_inOrder (catalog : Catalog) (lookup : Option LayoutLookup) (runs : List Run) :
    (catalog.report lookup runs).Pairwise catalog.InOrder :=
  (catalog.pairwise_report lookup runs).imp inOrder_of_rowAtMost

theorem rows_together (catalog : Catalog) (lookup : Option LayoutLookup) (runs : List Run) (source : Nat) :
    (catalog.report lookup runs).filter (fun row => row.source = source) <:+: catalog.report lookup runs := by
  apply filter_infix_of_convex
  intro first row last within hf hl
  have ordered := (catalog.report_inOrder lookup runs).sublist within
  simp only [List.pairwise_cons, List.mem_cons, List.not_mem_nil, or_false, forall_eq_or_imp, forall_eq] at ordered
  obtain ⟨⟨left, -⟩, right, -⟩ := ordered
  have begins : first.source = source := of_decide_eq_true hf
  have ends : last.source = source := of_decide_eq_true hl
  apply decide_eq_true
  by_contra other
  have leads := left.across (begins.trans_ne (Ne.symm other))
  have leads' := right.across (Ne.trans_eq other ends.symm)
  rw [begins] at leads
  rw [ends] at leads'
  exact leads.asymm leads'

end Catalog

def Row.labelledBy (find : LayoutLookup) (row : Row) : Row :=
  { row with
    occupant :=
      match find row.physicalStart with
      | .ok (some occupant) => occupant
      | _ => ⟨none, none⟩ }

namespace Catalog

theorem report_labelled (catalog : Catalog) (runs : List Run) (find : LayoutLookup) :
    catalog.report (some find) runs = (catalog.report none runs).map (Row.labelledBy find) := by
  have unmoved : ∀ row next : Row, rowAtMost catalog.ranked (row.labelledBy find) (next.labelledBy find) =
      rowAtMost catalog.ranked row next := fun _ _ => rfl
  rw [report, report, ← sorted_map unmoved, List.map_map]
  rfl

theorem report_failing (catalog : Catalog) (runs : List Run) (find : LayoutLookup) (sector : Nat)
    (fault : LayoutFault) :
    catalog.report (some (Function.update find sector (.error fault))) runs =
      (catalog.report (some find) runs).map fun row =>
        if row.physicalStart = sector then { row with occupant := ⟨none, none⟩ } else row := by
  rw [report_labelled, report_labelled, List.map_map]
  apply List.map_congr_left
  intro row _
  by_cases here : row.physicalStart = sector
  · simp [Row.labelledBy, here]
  · simp [Row.labelledBy, here]

theorem report_orders_and_labels (catalog : Catalog) (runs : List Run) :
    catalog.ranked.Nodup ∧ (∀ id, id ∈ catalog.ranked ↔ id ∈ catalog.candidates) ∧
      (catalog.ranked.Pairwise fun a b => catalog.rank a < catalog.rank b) ∧
      (∀ a b, catalog.rank a < catalog.rank b → (Decimal.Binary.ofFloat (catalog.score a)).isFinite = true →
        (Decimal.Binary.ofFloat (catalog.score b)).isFinite = true →
        Decimal.exact (catalog.score b) ≤ Decimal.exact (catalog.score a)) ∧
      (∀ lookup,
        let rows := catalog.report lookup runs
        rows.Perm (runs.map (catalog.row lookup)) ∧ rows.Pairwise catalog.InOrder ∧
          ∀ source, rows.filter (fun row => row.source = source) <:+: rows) ∧
      ∀ find,
        catalog.report (some find) runs = (catalog.report none runs).map (Row.labelledBy find) ∧
          ∀ sector fault, catalog.report (some (Function.update find sector (.error fault))) runs =
            (catalog.report (some find) runs).map fun row =>
              if row.physicalStart = sector then { row with occupant := ⟨none, none⟩ } else row := by
  refine ⟨catalog.nodup_ranked, fun _ => mem_ranked, catalog.ranked_increasing, ?_, ?_, ?_⟩
  · exact fun a b less => exact_score_le less
  · exact fun lookup => ⟨perm_sorted _ _, catalog.report_inOrder lookup runs, catalog.rows_together lookup runs⟩
  · exact fun find => ⟨catalog.report_labelled runs find, catalog.report_failing runs find⟩

theorem report_orders_and_labels_mixed :
    let records : List Record := [.association ⟨"a", ⟨1, none⟩, [⟨1, 0⟩]⟩, .association ⟨"b", ⟨1, none⟩, [⟨2, 0⟩]⟩,
      .association ⟨"c", ⟨1, none⟩, [⟨3, 0⟩]⟩, .association ⟨"d", ⟨1, none⟩, [⟨3, 4096⟩]⟩,
      .description ⟨1, "z", none⟩, .description ⟨2, "y", none⟩]
    let catalog := load (fun _ => 0) (Candidates.select {} records) records
    let run (source sector block : Nat) := Run.ofPlacements 0.25 source [⟨sector, [block], .hash 1⟩]
    let runs := [run 1 8 5, run 9 0 0, run 3 16 0, run 2 0 0, run 1 0 0, run 7 8 0]
    let find : LayoutLookup := fun sector => .ok (if sector < 16 then some ⟨some "file", some 4096⟩ else none)
    let failing := Function.update find 8 (.error (.missingTable "tsk_files"))
    let rows := catalog.report (some failing) runs
    catalog.ranked = [3, 2, 1] ∧ rows.map (fun row => (row.source, row.logicalStart)) =
        [(3, 0), (2, 0), (1, 0), (1, 5), (7, 0), (9, 0)] ∧
      rows.map (·.occupant.name) = [none, some "file", some "file", none, none, some "file"] ∧
      rows.Pairwise catalog.InOrder ∧ rows.filter (fun row => row.source = 1) <:+: rows ∧
      rows = (catalog.report none runs).map (Row.labelledBy failing) := by
  intro records catalog run runs find failing rows
  obtain ⟨-, -, -, -, ordered, labels⟩ := report_orders_and_labels catalog runs
  obtain ⟨-, inOrder, together⟩ := ordered (some failing)
  exact ⟨by decide +kernel, by decide +kernel, by decide +kernel, inOrder, together 1, (labels failing).1⟩

end Catalog

end FragmentSearch
