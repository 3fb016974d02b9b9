import Mathlib.Data.List.Forall2
import FragmentSearch.Proofs.DelimitedText
import FragmentSearch.Proofs.WrittenNumbers

namespace FragmentSearch

namespace Delimited

def IsFlat (field : String) : Prop := '\t' ∉ field.toList ∧ '\n' ∉ field.toList

instance (field : String) : Decidable (IsFlat field) := inferInstanceAs (Decidable (_ ∧ _))

theorem isFlat_of_isNumeral {text : String} (h : Decimal.IsNumeral text) : IsFlat text := by
  constructor
  · intro tab
    cases h _ tab
  · intro lineFeed
    cases h _ lineFeed

theorem isFlat_flatten (field : String) : IsFlat (flatten field) := by
  have kept : ∀ c ∈ (flatten field).toList, c ≠ '\t' ∧ c ≠ '\n' := by
    intro c member
    rw [flatten, String.toList_ofList] at member
    obtain ⟨d, -, rfl⟩ := List.mem_map.mp member
    split
    · decide
    · rename_i other
      simpa using other
  exact ⟨fun tab => (kept _ tab).1 rfl, fun lineFeed => (kept _ lineFeed).2 rfl⟩

theorem flatten_eq_self {field : String} (h : IsFlat field) : flatten field = field := by
  have same : ∀ c ∈ field.toList, (if c = '\t' || c = '\n' then ' ' else c) = c := by
    intro c member
    have tab : c ≠ '\t' := fun e => h.1 (e ▸ member)
    have lineFeed : c ≠ '\n' := fun e => h.2 (e ▸ member)
    simp [tab, lineFeed]
  rw [flatten, List.map_congr_left same, List.map_id', String.ofList_toList]

theorem splitOn_line {fields : List String} (filled : fields ≠ []) (flat : ∀ field ∈ fields, IsFlat field) :
    (line "\t" fields).splitOn '\t' = fields.map String.toList := by
  apply List.splitOn_intercalate
  · intro field member
    obtain ⟨text, listed, rfl⟩ := List.mem_map.mp member
    exact (flat text listed).1
  · simpa using filled

theorem lineFeed_not_mem_line_iff {fields : List String} :
    '\n' ∉ line "\t" fields ↔ ∀ field ∈ fields, '\n' ∉ field.toList := by
  have tab : ("\t" : String).toList = ['\t'] := rfl
  rw [line, tab, mem_intercalate]
  simp

theorem splitOn_tsv {records : List (List String)} (flat : ∀ fields ∈ records, ∀ field ∈ fields, IsFlat field) :
    (tsv records).toList.splitOn '\n' = records.map (line "\t") ++ [[]] := by
  rw [tsv, toList_lines]
  apply splitOn_terminated
  intro text member
  obtain ⟨fields, listed, rfl⟩ := List.mem_map.mp member
  exact lineFeed_not_mem_line_iff.mpr fun field member => (flat fields listed field member).2

theorem splitOn_lines_tsv {records : List (List String)} (filled : ∀ fields ∈ records, fields ≠ [])
    (flat : ∀ fields ∈ records, ∀ field ∈ fields, IsFlat field) :
    ((tsv records).toList.splitOn '\n').map (·.splitOn '\t') = records.map (·.map String.toList) ++ [[[]]] := by
  have read : ∀ fields ∈ records, (line "\t" fields).splitOn '\t' = fields.map String.toList :=
    fun fields member => splitOn_line (filled fields member) (flat fields member)
  rw [splitOn_tsv flat, List.map_append, List.map_map, ← List.map_congr_left read]
  rfl

theorem isFlat_of_shape {records : List (List String)} (filled : ∀ fields ∈ records, fields ≠ [])
    {body : List (List Char)} (lines : (tsv records).toList.splitOn '\n' = body ++ [[]])
    (shape : List.Forall₂ (fun fields text => (text.splitOn '\t').length = fields.length) records body) :
    ∀ fields ∈ records, ∀ field ∈ fields, IsFlat field := by
  have counted : (tsv records).toList.count '\n' = (records.map (line "\t")).length := by
    have pieces := length_splitOn '\n' (tsv records).toList
    rw [lines, List.length_append, List.length_singleton, ← shape.length_eq] at pieces
    rw [List.length_map]
    omega
  have lineFeeds : ∀ fields ∈ records, '\n' ∉ line "\t" fields := by
    rw [tsv, toList_lines] at counted
    exact fun fields member => not_mem_of_count_terminated.2 counted _ (List.mem_map_of_mem member)
  have bodies : body = records.map (line "\t") := by
    have split : (tsv records).toList.splitOn '\n' = records.map (line "\t") ++ [[]] := by
      rw [tsv, toList_lines]
      exact splitOn_terminated (List.forall_mem_map.mpr lineFeeds)
    exact List.append_cancel_right (lines.symm.trans split)
  rw [bodies, List.forall₂_map_right_iff, List.forall₂_same] at shape
  intro fields member field listed
  have tabs : ∀ text ∈ fields.map String.toList, '\t' ∉ text := by
    have width := shape fields member
    rw [length_splitOn] at width
    apply (not_mem_of_count_intercalate '\t' (by simpa using filled fields member)).2
    rw [List.length_map]
    exact width
  exact ⟨tabs _ (List.mem_map_of_mem listed), lineFeed_not_mem_line_iff.mp (lineFeeds fields member) field listed⟩

end Delimited

namespace Row

open Delimited (IsFlat)

def tsvFields (row : Row) : List String := row.fields (Delimited.flatten row.file) (Decimal.fixed 4 row.score)

theorem isFlat_columns : ∀ column ∈ columns, IsFlat column := by decide

theorem isFlat_tsvFields_iff {row : Row} : (∀ field ∈ row.tsvFields, IsFlat field) ↔ IsFlat row.occupantName := by
  constructor
  · intro flat
    exact flat _ (by simp [tsvFields, fields, occupantName])
  · intro flat field member
    rcases mem_fields (Decimal.isNumeral_fixed 4 row.score) member with rfl | rfl | numeral
    · exact Delimited.isFlat_flatten row.file
    · exact flat
    · exact Delimited.isFlat_of_isNumeral numeral

structure Tabulated (row : Row) (text : List Char) : Prop where
  width : (text.splitOn '\t').length = 9
  file : (text.splitOn '\t')[0]? = some (Delimited.flatten row.file).toList
  occupant : (text.splitOn '\t')[7]? = some (Delimited.flatten row.occupantName).toList

def IsTable (rows : List Row) (text : String) : Prop :=
  ∃ header body, text.toList.splitOn '\n' = header :: body ++ [[]] ∧ (header.splitOn '\t').length = 9 ∧
    List.Forall₂ Tabulated rows body

theorem forall_fields_tsv_iff {rows : List Row} :
    (∀ fields ∈ columns :: rows.map tsvFields, ∀ field ∈ fields, IsFlat field) ↔
      ∀ row ∈ rows, IsFlat row.occupantName := by
  simp only [List.mem_cons, List.mem_map, forall_eq_or_imp, forall_exists_index, and_imp, forall_apply_eq_imp_iff₂,
    isFlat_tsvFields_iff]
  exact and_iff_right isFlat_columns

theorem records_ne_nil {rows : List Row} : ∀ fields ∈ columns :: rows.map tsvFields, fields ≠ [] := by
  simp [columns, tsvFields, fields]

theorem splitOn_line_tsvFields {row : Row} (flat : IsFlat row.occupantName) :
    (Delimited.line "\t" row.tsvFields).splitOn '\t' = row.tsvFields.map String.toList :=
  Delimited.splitOn_line (by simp [tsvFields, fields]) (isFlat_tsvFields_iff.mpr flat)

theorem tabulated_of_isFlat {row : Row} (flat : IsFlat row.occupantName) :
    row.Tabulated (Delimited.line "\t" row.tsvFields) := by
  constructor <;> rw [splitOn_line_tsvFields flat]
  · rfl
  · rfl
  · rw [Delimited.flatten_eq_self flat]
    rfl

theorem tsv_eq (rows : List Row) : tsv rows = Delimited.tsv (columns :: rows.map tsvFields) := rfl

theorem isTable_tsv_iff {rows : List Row} : IsTable rows (tsv rows) ↔ ∀ row ∈ rows, IsFlat row.occupantName := by
  rw [← forall_fields_tsv_iff]
  constructor
  · rintro ⟨header, body, lines, headed, table⟩
    apply Delimited.isFlat_of_shape records_ne_nil lines
    refine .cons headed (List.forall₂_map_left_iff.mpr ?_)
    exact table.imp fun _ _ tabulated => tabulated.width
  · intro flat
    refine ⟨Delimited.line "\t" columns, rows.map fun row => Delimited.line "\t" row.tsvFields, ?_, ?_, ?_⟩
    · rw [tsv_eq, Delimited.splitOn_tsv flat, List.map_cons, List.map_map]
      rfl
    · have filled : columns ≠ [] := List.cons_ne_nil _ _
      rw [Delimited.splitOn_line filled isFlat_columns, List.length_map]
      rfl
    · rw [List.forall₂_map_right_iff, List.forall₂_same]
      exact fun row member => tabulated_of_isFlat (forall_fields_tsv_iff.mp flat row member)

theorem tsv_table (rows : List Row) :
    (IsTable rows (tsv rows) ↔ ∀ row ∈ rows, IsFlat row.occupantName) ∧
      ((∀ row ∈ rows, IsFlat row.occupantName) →
        ((tsv rows).toList.splitOn '\n').map (·.splitOn '\t') =
          (columns :: rows.map tsvFields).map (·.map String.toList) ++ [[[]]]) := by
  refine ⟨isTable_tsv_iff, fun flat => ?_⟩
  exact Delimited.splitOn_lines_tsv records_ne_nil (forall_fields_tsv_iff.mpr flat)

def labelled (name : String) : Row :=
  { file := "/ref/a\tb.bin", source := 1, score := 2, physicalStart := 0, logicalStart := 0, logicalEnd := 1,
    alignment := 0, blocksFound := 2, gapBlocks := 0, percent := some 100, occupant := ⟨some name, some 20⟩ }

theorem tsv_table_flattened_file :
    (∀ row ∈ [labelled "/x, y"], IsFlat row.occupantName) ∧ IsTable [labelled "/x, y"] (tsv [labelled "/x, y"]) ∧
      ((tsv [labelled "/x, y"]).toList.splitOn '\n').map (·.splitOn '\t') =
        [columns, ["/ref/a b.bin", "2.0000", "0", "0", "1", "0", "100.00", "/x, y", "20"]].map
          (·.map String.toList) ++ [[[]]] := by
  have flat : ∀ row ∈ [labelled "/x, y"], IsFlat row.occupantName := by decide
  obtain ⟨table, texts⟩ := tsv_table [labelled "/x, y"]
  refine ⟨flat, table.mpr flat, (texts flat).trans ?_⟩
  decide +kernel

/-- A tab in the name of the allocated file makes one field more. -/
theorem tsv_not_table :
    ¬ IsTable [labelled "/x\ty"] (tsv [labelled "/x\ty"]) ∧
      ((tsv [labelled "/x\ty"]).toList.splitOn '\n').map (fun line => (line.splitOn '\t').length) = [9, 10, 1] := by
  refine ⟨fun table => ?_, by decide +kernel⟩
  have flat := isTable_tsv_iff.mp table (labelled "/x\ty") List.mem_cons_self
  exact absurd flat (by decide)

end Row

end FragmentSearch
