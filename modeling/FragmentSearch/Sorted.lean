namespace FragmentSearch

variable {α : Type}

def mergeOnto (le : α → α → Bool) (done : List α) : List α → List α → List α
  | [], ys => done.reverse ++ ys
  | x :: xs, [] => done.reverse ++ x :: xs
  | x :: xs, y :: ys =>
    if le x y then mergeOnto le (x :: done) xs (y :: ys) else mergeOnto le (y :: done) (x :: xs) ys
termination_by xs ys => xs.length + ys.length

def sorted (le : α → α → Bool) (list : List α) : List α :=
  if h : list.length < 2 then list
  else
    let half := (list.length + 1) / 2
    mergeOnto le [] (sorted le (list.take half)) (sorted le (list.drop half))
termination_by list.length
decreasing_by
  all_goals simp only [List.length_take, List.length_drop]; omega

theorem mergeOnto_eq (le : α → α → Bool) (done xs ys : List α) :
    mergeOnto le done xs ys = done.reverse ++ xs.merge ys le := by
  fun_induction mergeOnto le done xs ys with
  | case1 => simp
  | case2 => simp
  | case3 done x xs y ys h ih => simp [ih, h]
  | case4 done x xs y ys h ih => simp [ih, h]

theorem sorted_eq_mergeSort (le : α → α → Bool) (list : List α) : sorted le list = list.mergeSort le := by
  fun_induction sorted le list with
  | case1 list h =>
    cases list with
    | nil => simp
    | cons a rest =>
      cases rest with
      | nil => simp
      | cons b rest => simp only [List.length_cons] at h; omega
  | case2 list h half ihl ihr =>
    rw [mergeOnto_eq, ihl, ihr, List.reverse_nil, List.nil_append]
    subst half
    clear ihl ihr
    cases list with
    | nil => simp at h
    | cons a rest =>
      cases rest with
      | nil => simp at h
      | cons b rest =>
        rw [List.mergeSort.eq_def (a :: b :: rest)]
        simp [List.MergeSort.Internal.splitInTwo, List.splitAt_eq]

theorem perm_sorted (le : α → α → Bool) (list : List α) : (sorted le list).Perm list := by
  rw [sorted_eq_mergeSort]
  exact List.mergeSort_perm list le

theorem mem_sorted {le : α → α → Bool} {list : List α} {a : α} : a ∈ sorted le list ↔ a ∈ list :=
  (perm_sorted le list).mem_iff

def dropRepeats [DecidableEq α] : List α → List α
  | [] => []
  | [a] => [a]
  | a :: b :: rest => if a = b then dropRepeats (b :: rest) else a :: dropRepeats (b :: rest)

def ascending [DecidableEq α] [LE α] [DecidableLE α] (list : List α) : List α :=
  dropRepeats (sorted (fun a b => decide (a ≤ b)) list)

theorem mem_dropRepeats [DecidableEq α] {x : α} {list : List α} : x ∈ dropRepeats list ↔ x ∈ list := by
  fun_induction dropRepeats list with
  | case1 => simp
  | case2 a => simp
  | case3 a rest ih => simp [ih]
  | case4 a b rest _ ih => simp only [List.mem_cons] at ih ⊢; rw [ih]

theorem mem_ascending [DecidableEq α] [LE α] [DecidableLE α] {x : α} {list : List α} :
    x ∈ ascending list ↔ x ∈ list := by
  rw [ascending, mem_dropRepeats, mem_sorted]

section Order

variable [DecidableEq α] [LE α] [LT α] [Std.IsLinearOrder α] [Std.LawfulOrderLT α]

theorem pairwise_dropRepeats {list : List α} (h : list.Pairwise (· ≤ ·)) : (dropRepeats list).Pairwise (· < ·) := by
  fun_induction dropRepeats list with
  | case1 => exact .nil
  | case2 a => exact List.pairwise_singleton _ _
  | case3 a rest ih => exact ih (List.pairwise_cons.mp h).2
  | case4 a b rest other ih =>
    obtain ⟨first, later⟩ := List.pairwise_cons.mp h
    refine List.pairwise_cons.mpr ⟨?_, ih later⟩
    intro x member
    have between : b ≤ x := by
      rcases List.mem_cons.mp (mem_dropRepeats.mp member) with rfl | behind
      · exact Std.le_refl x
      · exact (List.pairwise_cons.mp later).1 x behind
    exact Std.lt_of_lt_of_le (Std.lt_of_le_of_ne (first b List.mem_cons_self) other) between

theorem pairwise_ascending [DecidableLE α] (list : List α) : (ascending list).Pairwise (· < ·) := by
  apply pairwise_dropRepeats
  rw [sorted_eq_mergeSort]
  have trans (a b c : α) (ab : decide (a ≤ b)) (bc : decide (b ≤ c)) : decide (a ≤ c) :=
    decide_eq_true (Std.le_trans (of_decide_eq_true ab) (of_decide_eq_true bc))
  have total (a b : α) : decide (a ≤ b) || decide (b ≤ a) := by simpa using Std.le_total
  exact (List.pairwise_mergeSort trans total list).imp of_decide_eq_true

end Order

end FragmentSearch
