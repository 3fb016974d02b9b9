import FragmentSearch.Database.Statement
import FragmentSearch.Layout
import FragmentSearch.Sorted

namespace FragmentSearch.Database

def valueIn (table : Description) (row : TableRow) (name : String) : Cell :=
  match table.column? name with
  | none => .null
  | some column =>
    if table.isRowNumber column then .integer row.id
    else match table.kept.findIdx? (·.name = column.name) with
      | none => .null
      | some i =>
        let cell := (row.cells[i]?).getD column.default
        match cell, column.affinity with
        | .integer value, .real => .real (realOfInt value)
        | cell, _ => cell

def asText (encoding : Encoding) : Cell → Cell
  | .blob bytes => .text (textBytes encoding bytes)
  | cell => cell

def isNumeric (column : Option Column) : Bool := column.any fun c => c.affinity = .numeric || c.affinity = .real

def keyed (own other : Option Column) (cell : Cell) : Cell :=
  if isNumeric own || isNumeric other then cell.inNumericColumn else cell

structure Found where
  description : Description
  table : Table TableRow

namespace Found

def ofRows (statement : String) (rows : List (List Cell)) : Found :=
  let description := Description.ofStatement statement.toList
  let row (entry : List Cell × Nat) : TableRow :=
    ⟨entry.2 + 1, (description.columns.zip entry.1).map fun (column, cell) => cell.inColumn column.affinity⟩
  ⟨description, ⟨rows.zipIdx.map row, false⟩⟩

def column? (found : Found) (name : String) : Option Column := found.description.column? name

def build {α : Type} (found : Found) (f : (String → Cell) → α) : Table α :=
  found.table.map fun row => f (valueIn found.description row)

def sortedBy (found : Found) (names : List String) : Found :=
  let names := (found.description.columns.map fun column => String.ofList column.name).filter (names.contains ·)
  let values (row : TableRow) : List Cell := names.map (valueIn found.description row)
  let isUpTo (a b : TableRow) : Bool := (Cell.rowOrder (values a) (values b)).isLE
  { found with table := ⟨sorted isUpTo found.table.rows, found.table.isBroken⟩ }

end Found

def find? (pages : Pages) (schema : List TableRow) (name : String) : Option Found :=
  schema.findSome? fun row =>
    match row.cells with
    | [.text type, .text found, _, .integer root, .text statement] =>
      if type = "table".toUTF8.toList && lowered (characters found) = name.toList then
        let description := Description.ofStatement (characters statement)
        some ⟨description, pages.rows description.isKeyed root.toNat⟩
      else none
    | _ => none

def queryColumns : List (Char × String × Option Nat) :=
  [('B', "parent_path", some 7), ('B', "name", some 24), ('B', "size", some 32), ('A', "byte_start", some 210),
    ('C', "img_offset", some 225), ('A', "byte_len", some 292), ('A', "obj_id", none), ('B', "obj_id", none),
    ('B', "fs_obj_id", none), ('C', "obj_id", none)]

def missingColumn? (extents files volumes : Description) : Option QueryColumn :=
  queryColumns.findSome? fun (letter, name, place) =>
    let table := if letter = 'A' then extents else if letter = 'B' then files else volumes
    if (table.column? name).isSome then none else some ⟨String.ofList [letter, '.'] ++ name, place⟩

/-- The layout in the tables of a database. Files with the same number are searched in the order of what
else is asked of them, unless the search goes through all files first. That is so if extents or volumes
can be found by their numbers and files cannot. -/
def layoutOf (encoding : Encoding) (extents files volumes : Found) : Layout :=
  let filesFirst := !files.description.isUnique "obj_id" &&
    (extents.description.isIndexed "obj_id" || volumes.description.isIndexed "obj_id")
  let searched := if filesFirst then files else files.sortedBy ["fs_obj_id", "parent_path", "name", "size"]
  let extentKey := keyed (extents.column? "obj_id") (files.column? "obj_id")
  let fileKey := keyed (files.column? "obj_id") (extents.column? "obj_id")
  let fileVolume := keyed (files.column? "fs_obj_id") (volumes.column? "obj_id")
  let volumeKey := keyed (volumes.column? "obj_id") (files.column? "fs_obj_id")
  let text := asText encoding
  match missingColumn? extents.description files.description volumes.description with
  | some column => .unreadable (.missingColumn column)
  | none => .tables
    { extents := extents.build fun value =>
        ⟨extentKey (value "obj_id"), text (value "byte_start"), text (value "byte_len")⟩
      files := searched.build fun value =>
        ⟨fileKey (value "obj_id"), fileVolume (value "fs_obj_id"), text (value "parent_path"), text (value "name"),
          value "size"⟩
      volumes := volumes.build fun value => ⟨volumeKey (value "obj_id"), text (value "img_offset")⟩
      filesFirst }

def layoutIn (encoding : Encoding) : (extents files volumes : Option Found) → Layout
  | some extents, some files, some volumes => layoutOf encoding extents files volumes
  | none, _, _ => .unreadable (.missingTable "tsk_file_layout")
  | _, none, _ => .unreadable (.missingTable "tsk_files")
  | _, _, none => .unreadable (.missingTable "tsk_fs_info")

def extentStatement : String :=
  "CREATE TABLE tsk_file_layout (obj_id INTEGER, byte_start INTEGER, byte_len INTEGER)"

def fileStatement : String :=
  "CREATE TABLE tsk_files (obj_id INTEGER, fs_obj_id INTEGER, parent_path TEXT, name TEXT, size INTEGER)"

def volumeStatement : String := "CREATE TABLE tsk_fs_info (obj_id INTEGER, img_offset INTEGER)"

def layoutOfRows (extents files volumes : Option (List (List Cell))) : Layout :=
  layoutIn .utf8 (extents.map (Found.ofRows extentStatement)) (files.map (Found.ofRows fileStatement))
    (volumes.map (Found.ofRows volumeStatement))

def schemaFault? (pages : Pages) (row : TableRow) : Option LayoutFault :=
  let cell (i : Nat) : Cell := (row.cells[i]?).getD .null
  let name := match (cell 1).bytes? with
    | some bytes => (String.fromUTF8? bytes.toByteArray).getD "?"
    | none => "?"
  let statement := ((cell 4).bytes?).map characters
  match cell 3, statement with
  | .null, _ => some (.malformedSchema name none)
  | .integer root, some (c :: d :: _) =>
    if lowered [c, d] ≠ ['c', 'r'] then some (.malformedSchema name none)
    else if pages.count < root then some (.malformedSchema name (some "invalid rootpage"))
    else none
  | _, some (_ :: _) => some (.malformedSchema name none)
  | _, _ => if (cell 1).bytes?.isNone then some (.malformedSchema name none) else none

def signature : List UInt8 := "SQLite format 3\x00".toUTF8.toList

def payloadShares : List UInt8 := [64, 32, 32]

def isPageSize (size : Nat) : Bool := 512 ≤ size && size ≤ 65536 && Nat.pow 2 size.log2 = size

def pages (size : Nat) (byte : Nat → UInt8) : Except LayoutFault Pages := do
  let byte (i : Nat) : UInt8 := if i < size then byte i else 0
  let number (place count : Nat) : Nat := bigEndian ((List.range count).map fun i => byte (place + i))
  let bytes (place count : Nat) : List UInt8 := (List.range count).map fun i => byte (place + i)
  let pageSize := if number 16 2 = 1 then 65536 else number 16 2
  if bytes 0 16 ≠ signature || 2 < number 19 1 || bytes 21 3 ≠ payloadShares || !isPageSize pageSize then
    throw .notDatabase
  let held := (size + pageSize - 1) / pageSize
  let count := if number 28 4 = 0 || number 24 4 ≠ number 92 4 then held else number 28 4
  if held < count then throw .malformed
  if pageSize < number 20 1 + 480 then throw .notDatabase
  if 4 < number 47 1 then throw .unsupportedFormat
  let encoding : Encoding := match number 56 4 % 4 with
    | 2 => .utf16 false
    | 3 => .utf16 true
    | _ => .utf8
  return ⟨byte, pageSize, pageSize - number 20 1, count, encoding⟩

def emptyLayout : Layout := layoutOfRows none none none

def layout (size : Nat) (byte : Nat → UInt8) : Layout :=
  if size ≤ 1 then emptyLayout
  else match pages size byte with
    | .error fault => .unreadable fault
    | .ok pages =>
      let schema := pages.rows false 1
      match schema.rows.findSome? (schemaFault? pages) with
      | some fault => .unreadable fault
      | none => if schema.isBroken then .unreadable .malformed else
        layoutIn pages.encoding (find? pages schema.rows "tsk_file_layout") (find? pages schema.rows "tsk_files")
          (find? pages schema.rows "tsk_fs_info")

end FragmentSearch.Database
