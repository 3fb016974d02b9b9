import FragmentSearch.Report.Written

namespace FragmentSearch.Delimited

def line (separator : String) (fields : List String) : List Char :=
  separator.toList.intercalate (fields.map String.toList)

theorem toList_lines (separator : String) (records : List (List String)) :
    (lines separator records).toList = (records.map (line separator)).flatMap (· ++ ['\n']) := by
  simp only [lines, line, String.toList_join, List.flatMap_map, String.toList_append, String.toList_intercalate]
  rfl

theorem length_splitOn (c : Char) (text : List Char) : (text.splitOn c).length = text.count c + 1 := by
  induction text with
  | nil => rfl
  | cons d text ih =>
    rw [List.splitOn_cons_eq_if_modifyHead, List.count_cons]
    split
    · simp_all
    · simp_all

theorem splitOn_terminated {lines : List (List Char)} (h : ∀ line ∈ lines, '\n' ∉ line) :
    (lines.flatMap (· ++ ['\n'])).splitOn '\n' = lines ++ [[]] := by
  induction lines with
  | nil => rfl
  | cons line lines ih =>
    rw [List.flatMap_cons, List.append_assoc, List.singleton_append,
      List.splitOn_append_cons_self_of_not_mem (h line List.mem_cons_self),
      ih fun other member => h other (List.mem_cons_of_mem _ member)]
    rfl

theorem not_mem_of_count_terminated {lines : List (List Char)} :
    lines.length ≤ (lines.flatMap (· ++ ['\n'])).count '\n' ∧
      ((lines.flatMap (· ++ ['\n'])).count '\n' = lines.length → ∀ line ∈ lines, '\n' ∉ line) := by
  induction lines with
  | nil => simp
  | cons line lines ih =>
    obtain ⟨atLeast, none⟩ := ih
    simp only [List.flatMap_cons, List.count_append, List.count_singleton_self, List.length_cons, List.mem_cons,
      forall_eq_or_imp]
    refine ⟨by omega, fun counted => ⟨List.count_eq_zero.mp (by omega), none (by omega)⟩⟩

theorem not_mem_of_count_intercalate (c : Char) {fields : List (List Char)} (filled : fields ≠ []) :
    fields.length ≤ ([c].intercalate fields).count c + 1 ∧
      (([c].intercalate fields).count c + 1 = fields.length → ∀ field ∈ fields, c ∉ field) := by
  induction fields with
  | nil => exact absurd rfl filled
  | cons field fields ih =>
    cases fields with
    | nil => simp [List.count_eq_zero]
    | cons next fields =>
      obtain ⟨atLeast, none⟩ := ih (List.cons_ne_nil _ _)
      simp only [List.intercalate_cons_cons, List.count_append, List.count_singleton_self, List.length_cons,
        List.mem_cons (a := _) (b := field), forall_eq_or_imp] at atLeast none ⊢
      refine ⟨by omega, fun counted => ⟨List.count_eq_zero.mp (by omega), none (by omega)⟩⟩

theorem mem_intercalate {c separator : Char} {fields : List (List Char)} :
    c ∈ [separator].intercalate fields ↔ c = separator ∧ 2 ≤ fields.length ∨ ∃ field ∈ fields, c ∈ field := by
  induction fields with
  | nil => simp
  | cons field fields ih =>
    cases fields with
    | nil => simp
    | cons next fields =>
      rw [List.intercalate_cons_cons, List.mem_append, List.mem_append, ih, List.mem_singleton]
      simp only [List.length_cons, List.mem_cons, exists_eq_or_imp]
      constructor
      · rintro ((inField | same) | ⟨same, -⟩ | inNext | later)
        · exact .inr (.inl inField)
        · exact .inl ⟨same, by omega⟩
        · exact .inl ⟨same, by omega⟩
        · exact .inr (.inr (.inl inNext))
        · exact .inr (.inr (.inr later))
      · rintro (⟨same, -⟩ | inField | inNext | later)
        · exact .inl (.inr same)
        · exact .inl (.inl inField)
        · exact .inr (.inr (.inl inNext))
        · exact .inr (.inr (.inr later))

end FragmentSearch.Delimited
