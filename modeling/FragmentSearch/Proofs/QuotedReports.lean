import Mathlib.Data.List.Forall2
import FragmentSearch.Proofs.DelimitedText
import FragmentSearch.Proofs.WrittenNumbers

/-!
Comma-separated reports read back. The reader follows RFC 4180 with a line feed at the end of a record: a field is bare,
without any comma, quote or line end in it, or it stands in quotes, with each quote in it doubled. Whichever of the
fields are quoted, it gives back the records; the reports quote names only, since numbers never need it.
-/

namespace FragmentSearch

namespace Delimited

/-- Where the reader is in a field: before its first character, behind a bare one, inside quotes, or behind a quote that
closes the field unless another follows. -/
inductive Position where
  | start
  | bare
  | quoted
  | behindQuote
deriving DecidableEq

structure Reader where
  position : Position
  field : List Char
  fields : List (List Char)
  records : List (List (List Char))

namespace Reader

def new (fields : List (List Char)) (records : List (List (List Char))) : Reader := ⟨.start, [], fields, records⟩

def push (position : Position) (c : Char) (reader : Reader) : Reader :=
  { reader with position, field := reader.field ++ [c] }

def endField (reader : Reader) : Reader := new (reader.fields ++ [reader.field]) reader.records

def endRecord (reader : Reader) : Reader := new [] (reader.records ++ [reader.fields ++ [reader.field]])

def delimit (reader : Reader) (c : Char) : Option Reader :=
  if c = ',' then some reader.endField else if c = '\n' then some reader.endRecord else none

def unquoted (reader : Reader) (c : Char) : Option Reader :=
  if c = ',' ∨ c = '\n' ∨ c = '\r' ∨ c = '"' then reader.delimit c else some (reader.push .bare c)

def step (reader : Reader) (c : Char) : Option Reader :=
  match reader.position with
  | .start => if c = '"' then some { reader with position := .quoted } else reader.unquoted c
  | .bare => reader.unquoted c
  | .quoted => if c = '"' then some { reader with position := .behindQuote } else some (reader.push .quoted c)
  | .behindQuote => if c = '"' then some (reader.push .quoted c) else reader.delimit c

def finish (reader : Reader) : Option (List (List (List Char))) :=
  if reader.position = .quoted then none
  else if reader.position = .start ∧ reader.fields = [] then some reader.records
  else some reader.endRecord.records

end Reader

def readCsv (text : String) : Option (List (List String)) :=
  ((text.toList.foldlM Reader.step (.new [] [])).bind Reader.finish).map (·.map (·.map String.ofList))

inductive Quoting (field : List Char) : List Char → Prop where
  | bare (plain : ∀ c ∈ field, c ≠ ',' ∧ c ≠ '\n' ∧ c ≠ '\r' ∧ c ≠ '"') : Quoting field field
  | quoted : Quoting field ('"' :: doubleQuotes field ++ ['"'])

theorem quoting_csvChars (field : List Char) : Quoting field (csvChars field) := by
  rw [csvChars]
  split
  · exact .quoted
  · rename_i plain
    apply Quoting.bare
    intro c member
    have unneeded : needsQuotes c = false := by
      simpa using fun needed => plain (List.any_eq_true.mpr ⟨c, member, needed⟩)
    simpa [needsQuotes, and_assoc, and_comm, and_left_comm] using unneeded

namespace Reader

theorem foldlM_bare {reader : Reader} (outside : reader.position = .start ∨ reader.position = .bare) {field : List Char}
    (plain : ∀ c ∈ field, c ≠ ',' ∧ c ≠ '\n' ∧ c ≠ '\r' ∧ c ≠ '"') :
    ∃ position, position ≠ .quoted ∧
      field.foldlM step reader = some { reader with position, field := reader.field ++ field } := by
  induction field generalizing reader with
  | nil =>
    refine ⟨reader.position, ?_, by simp⟩
    rcases outside with h | h <;> simp [h]
  | cons c field ih =>
    obtain ⟨comma, lineFeed, carriageReturn, quote⟩ := plain c List.mem_cons_self
    have taken : step reader c = some (reader.push .bare c) := by
      rcases outside with h | h <;> simp [step, unquoted, h, comma, lineFeed, carriageReturn, quote]
    have bare : (reader.push .bare c).position = .start ∨ (reader.push .bare c).position = .bare := .inr rfl
    obtain ⟨position, unclosed, read⟩ := ih bare fun d member => plain d (List.mem_cons_of_mem _ member)
    refine ⟨position, unclosed, ?_⟩
    rw [List.foldlM_cons, taken]
    simpa [push] using read

theorem foldlM_doubleQuotes {reader : Reader} (inside : reader.position = .quoted) (field : List Char) :
    (doubleQuotes field).foldlM step reader = some { reader with field := reader.field ++ field } := by
  induction field generalizing reader with
  | nil => simp [doubleQuotes]
  | cons c field ih =>
    have quoted : (reader.push .quoted c).position = .quoted := rfl
    have rest := ih quoted
    have taken : (if c = '"' then ['"', '"'] else [c]).foldlM step reader = some (reader.push .quoted c) := by
      split
      · rename_i quote
        simp [step, inside, quote, push]
      · rename_i other
        simp [step, inside, other]
    have cut : doubleQuotes (c :: field) = (if c = '"' then ['"', '"'] else [c]) ++ doubleQuotes field := rfl
    rw [cut, List.foldlM_append, taken]
    simpa [push, ← inside] using rest

theorem foldlM_field {field text : List Char} (written : Quoting field text) (fields : List (List Char))
    (records : List (List (List Char))) :
    ∃ position, position ≠ .quoted ∧
      text.foldlM step (new fields records) = some ⟨position, field, fields, records⟩ := by
  cases written with
  | bare plain => exact foldlM_bare (.inl rfl) plain
  | quoted =>
    refine ⟨.behindQuote, by decide, ?_⟩
    have opened : step (new fields records) '"' = some ⟨.quoted, [], fields, records⟩ := rfl
    have closed : step ⟨.quoted, field, fields, records⟩ '"' = some ⟨.behindQuote, field, fields, records⟩ := rfl
    have inside : (⟨.quoted, [], fields, records⟩ : Reader).position = .quoted := rfl
    have read := foldlM_doubleQuotes inside field
    rw [List.cons_append, List.foldlM_cons, opened, Option.bind_eq_bind, Option.bind_some, List.foldlM_append, read]
    exact closed

theorem step_delimiter {reader : Reader} (outside : reader.position ≠ .quoted) {c : Char}
    (delimits : c = ',' ∨ c = '\n') : step reader c = reader.delimit c := by
  have unlike : c ≠ '"' := by rcases delimits with rfl | rfl <;> decide
  cases h : reader.position with
  | quoted => exact absurd h outside
  | start => rw [step, h, unquoted, if_pos (delimits.imp_right .inl)]; exact if_neg unlike
  | bare => rw [step, h, unquoted, if_pos (delimits.imp_right .inl)]
  | behindQuote => rw [step, h]; exact if_neg unlike

theorem foldlM_record {fields texts : List (List Char)} (written : List.Forall₂ Quoting fields texts)
    (filled : fields ≠ []) (before : List (List Char)) (records : List (List (List Char))) :
    ([','].intercalate texts ++ ['\n']).foldlM step (new before records) =
      some (new [] (records ++ [before ++ fields])) := by
  induction written generalizing before with
  | nil => exact absurd rfl filled
  | @cons field text fields texts first rest ih =>
    obtain ⟨position, outside, read⟩ := foldlM_field first before records
    cases rest with
    | nil =>
      have ended : step ⟨position, field, before, records⟩ '\n' = some (new [] (records ++ [before ++ [field]])) :=
        step_delimiter outside (.inr rfl)
      rw [List.intercalate_singleton, List.foldlM_append, read, Option.bind_eq_bind, Option.bind_some,
        List.foldlM_cons, ended]
      rfl
    | @cons next nextText fields texts second rest =>
      have later := ih (List.cons_ne_nil _ _) (before ++ [field])
      have ended : step ⟨position, field, before, records⟩ ',' = some (new (before ++ [field]) records) :=
        step_delimiter outside (.inl rfl)
      rw [List.intercalate_cons_cons, List.append_assoc, List.append_assoc, List.foldlM_append, read,
        Option.bind_eq_bind, Option.bind_some, List.singleton_append, List.foldlM_cons, ended, Option.bind_eq_bind,
        Option.bind_some, later, List.append_assoc]
      rfl

theorem foldlM_records {records texts : List (List (List Char))}
    (written : List.Forall₂ (List.Forall₂ Quoting) records texts) (filled : ∀ fields ∈ records, fields ≠ [])
    (before : List (List (List Char))) :
    (texts.flatMap fun fields => [','].intercalate fields ++ ['\n']).foldlM step (new [] before) =
      some (new [] (before ++ records)) := by
  induction written generalizing before with
  | nil => simp
  | @cons fields fieldTexts records texts first rest ih =>
    have record := foldlM_record first (filled fields List.mem_cons_self) [] before
    have later := ih (fun other member => filled other (List.mem_cons_of_mem _ member)) (before ++ [fields])
    rw [List.flatMap_cons, List.foldlM_append, record, Option.bind_eq_bind, Option.bind_some, List.nil_append, later,
      List.append_assoc]
    rfl

end Reader

theorem readCsv_lines {records texts : List (List String)}
    (written : List.Forall₂ (List.Forall₂ fun field text => Quoting field.toList text.toList) records texts)
    (filled : ∀ fields ∈ records, fields ≠ []) : readCsv (lines "," texts) = some records := by
  have chars : List.Forall₂ (List.Forall₂ Quoting) (records.map (·.map String.toList))
      (texts.map (·.map String.toList)) := by
    rw [List.forall₂_map_left_iff, List.forall₂_map_right_iff]
    refine written.imp fun fields fieldTexts quotings => ?_
    rw [List.forall₂_map_left_iff, List.forall₂_map_right_iff]
    exact quotings
  have nonempty : ∀ fields ∈ records.map (·.map String.toList), fields ≠ [] := by simpa using filled
  have read := Reader.foldlM_records chars nonempty []
  rw [List.flatMap_map, List.nil_append] at read
  have text : (lines "," texts).toList =
      texts.flatMap fun fields => [','].intercalate (fields.map String.toList) ++ ['\n'] := by
    rw [toList_lines, List.flatMap_map]
    rfl
  rw [readCsv, text, read, Option.bind_some]
  simp [Reader.finish, Reader.new]

theorem readCsv_csv {records : List (List String)} (filled : ∀ fields ∈ records, fields ≠ []) :
    readCsv (csv records) = some records := by
  apply readCsv_lines _ filled
  rw [List.forall₂_map_right_iff, List.forall₂_same]
  intro fields _
  rw [List.forall₂_map_right_iff, List.forall₂_same]
  intro field _
  rw [csvField, String.toList_ofList]
  exact quoting_csvChars field.toList

example : readCsv "a,\"b,\"\"c\"\"\n\"\n,\n" = some [["a", "b,\"c\"\n"], ["", ""]] := by decide +kernel

example : readCsv "a,\"b\"c\n" = none := by decide +kernel

theorem csvField_eq_self {text : String} (h : Decimal.IsNumeral text) : csvField text = text := by
  have plain : text.toList.any needsQuotes = false := by
    apply List.any_eq_false.mpr
    intro c member needed
    have numeral := h c member
    simp only [needsQuotes, Bool.or_eq_true, decide_eq_true_eq] at needed
    rcases needed with ((rfl | rfl) | rfl) | rfl <;> cases numeral
  rw [csvField, csvChars, plain]
  exact String.ofList_toList

theorem csv_eq_lines {α : Type} {columns : List String} {fields texts : α → List String}
    (header : columns.map csvField = columns) (written : ∀ row, (fields row).map csvField = texts row) (rows : List α) :
    csv (columns :: rows.map fields) = lines "," (columns :: rows.map texts) := by
  have body : (rows.map fields).map (·.map csvField) = rows.map texts := by
    rw [List.map_map]
    exact List.map_congr_left fun row _ => written row
  rw [csv, List.map_cons, header, body]

end Delimited

open Delimited (csvField readCsv)

namespace Row

def csvFields (row : Row) : List String := row.fields row.file (Decimal.plain row.score)

def csvTexts (row : Row) : List String :=
  [csvField row.file, Decimal.plain row.score, toString row.physicalStart, toString row.logicalStart,
    toString row.logicalEnd, toString row.alignment, percentText 2 row.percent, csvField row.occupantName,
    sizeText row.occupant.size]

theorem map_csvField_csvFields (row : Row) : row.csvFields.map csvField = row.csvTexts := by
  simp only [csvFields, fields, csvTexts, List.map_cons, List.map_nil,
    Delimited.csvField_eq_self (Decimal.isNumeral_plain _), Delimited.csvField_eq_self (Decimal.isNumeral_toString _),
    Delimited.csvField_eq_self (Decimal.isNumeral_percentText _ _),
    Delimited.csvField_eq_self (Decimal.isNumeral_sizeText _)]
  rfl

theorem csv_eq (rows : List Row) : csv rows = Delimited.lines "," (columns :: rows.map csvTexts) :=
  Delimited.csv_eq_lines (by decide +kernel) map_csvField_csvFields rows

theorem readCsv_csv (rows : List Row) : readCsv (csv rows) = some (columns :: rows.map csvFields) := by
  apply Delimited.readCsv_csv
  simp [columns, fields]

end Row

namespace SetRow

def csvFields (row : SetRow) : List String := row.fields row.file

def csvTexts (row : SetRow) : List String :=
  [csvField row.file, toString row.source, Decimal.plain row.score, percentText 4 row.normalized]

theorem map_csvField_csvFields (row : SetRow) : row.csvFields.map csvField = row.csvTexts := by
  simp only [csvFields, fields, csvTexts, List.map_cons, List.map_nil,
    Delimited.csvField_eq_self (Decimal.isNumeral_plain _), Delimited.csvField_eq_self (Decimal.isNumeral_toString _),
    Delimited.csvField_eq_self (Decimal.isNumeral_percentText _ _)]

theorem csv_eq (rows : List SetRow) : csv rows = Delimited.lines "," (columns :: rows.map csvTexts) :=
  Delimited.csv_eq_lines (by decide +kernel) map_csvField_csvFields rows

theorem readCsv_csv (rows : List SetRow) : readCsv (csv rows) = some (columns :: rows.map csvFields) := by
  apply Delimited.readCsv_csv
  simp [columns, fields]

end SetRow

theorem Delimited.readCsv_reports (rows : List Row) (sets : List SetRow) :
    (readCsv (Row.csv rows) = some (Row.columns :: rows.map Row.csvFields) ∧
        (Row.columns :: rows.map Row.csvFields).map List.length = List.replicate (rows.length + 1) 9 ∧
        Row.csv rows = lines "," (Row.columns :: rows.map Row.csvTexts)) ∧
      readCsv (SetRow.csv sets) = some (SetRow.columns :: sets.map SetRow.csvFields) ∧
        (SetRow.columns :: sets.map SetRow.csvFields).map List.length = List.replicate (sets.length + 1) 4 ∧
        SetRow.csv sets = lines "," (SetRow.columns :: sets.map SetRow.csvTexts) := by
  have width : ∀ row : Row, row.csvFields.length = 9 := fun _ => rfl
  have setWidth : ∀ row : SetRow, row.csvFields.length = 4 := fun _ => rfl
  refine ⟨⟨Row.readCsv_csv rows, ?_, Row.csv_eq rows⟩, SetRow.readCsv_csv sets, ?_, SetRow.csv_eq sets⟩
  · simp [List.replicate_succ, Row.columns, Function.comp_def, width, List.map_const']
  · simp [List.replicate_succ, SetRow.columns, Function.comp_def, setWidth, List.map_const']

end FragmentSearch
