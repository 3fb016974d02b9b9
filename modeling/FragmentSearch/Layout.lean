import FragmentSearch.Database.Name
import FragmentSearch.Database.Page
import FragmentSearch.Image
import FragmentSearch.Text

namespace FragmentSearch

open Database (Cell Table)

structure Volume where
  object : Cell
  offset : Cell

structure AllocatedFile where
  object : Cell
  volume : Cell
  parent : Cell
  name : Cell
  size : Cell

structure Extent where
  object : Cell
  start : Cell
  length : Cell

structure LayoutTables where
  extents : Table Extent
  files : Table AllocatedFile
  volumes : Table Volume
  filesFirst : Bool := false

structure QueryColumn where
  name : String
  place : Option Nat

inductive LayoutFault where
  | missingTable (name : String)
  | missingColumn (column : QueryColumn)
  | wrongSize (type : String)
  | wrongName (fault : Text.IllFormed)
  | notDatabase
  | malformed
  | malformedSchema (name : String) (detail : Option String)
  | unsupportedFormat
  | badName (fault : Database.NameFault)
  | cannotOpen (name : String)
  | other (cause : String)

def LayoutFault.query : String :=
  "\n".intercalate
    ["SELECT B.parent_path || B.name, B.size",
      "            FROM tsk_file_layout AS A",
      "            JOIN tsk_files AS B ON A.obj_id = B.obj_id",
      "            JOIN tsk_fs_info AS C ON B.fs_obj_id = C.obj_id",
      "            WHERE A.byte_start + C.img_offset <= ?1",
      "              AND A.byte_start + C.img_offset + A.byte_len > ?1",
      "            LIMIT 1"]

def LayoutFault.cause : LayoutFault → String
  | .missingTable name => "no such table: " ++ name
  | .missingColumn ⟨name, none⟩ => "no such column: " ++ name
  | .missingColumn ⟨name, some place⟩ =>
    "no such column: " ++ name ++ " in " ++ query ++ " at offset " ++ toString place
  | .wrongSize type => "Invalid column type " ++ type ++ " at index: 1, name: size"
  | .wrongName fault => "Conversion error from type Text at index: 0, " ++ fault.message
  | .notDatabase => "file is not a database"
  | .malformed => "database disk image is malformed"
  | .malformedSchema name none => "malformed database schema (" ++ name ++ ")"
  | .malformedSchema name (some detail) => "malformed database schema (" ++ name ++ ") - " ++ detail
  | .unsupportedFormat => "unsupported file format"
  | .badName fault => fault.message
  | .cannotOpen name => "unable to open database file: " ++ name
  | .other cause => cause

def LayoutFault.message (fault : LayoutFault) : String := "SQLite error: " ++ fault.cause

inductive Layout where
  | tables (tables : LayoutTables)
  | unreadable (fault : LayoutFault)

structure Occupant where
  name : Option String
  size : Option Nat
deriving DecidableEq

abbrev LayoutLookup := Nat → Except LayoutFault (Option Occupant)

namespace Layout

def Extent.contains (extent : Extent) (volume : Volume) (place : Int) : Bool :=
  let start := extent.start.add volume.offset
  start.isAtMost place && (start.add extent.length).isAbove place

def holds (volumes : List Volume) (place : Int) (extent : Extent) (file : AllocatedFile) : Bool :=
  extent.object.sameKey file.object && volumes.any fun volume =>
    file.volume.sameKey volume.object && Extent.contains extent volume place

def fileAt (tables : LayoutTables) (place : Int) : Option AllocatedFile :=
  let holds := holds tables.volumes.rows place
  if tables.filesFirst then tables.files.rows.find? fun file => tables.extents.rows.any (holds · file)
  else tables.extents.rows.findSome? fun extent => tables.files.rows.find? (holds extent)

def meetsBroken (tables : LayoutTables) : Bool :=
  let ⟨extents, files, volumes, _⟩ := tables
  let asked (file : AllocatedFile) : Bool := extents.rows.any fun extent => extent.object.sameKey file.object
  extents.isBroken ||
    (files.isBroken && extents.rows.any fun extent => !files.rows.any fun file => extent.object.sameKey file.object) ||
    (volumes.isBroken && (files.rows.filter asked).any fun file =>
      !volumes.rows.any fun volume => file.volume.sameKey volume.object)

def pathOf (file : AllocatedFile) : Except LayoutFault (Option String) :=
  match file.parent.bytes?, file.name.bytes? with
  | some parent, some name =>
    match Text.decode (parent ++ name) with
    | .ok path => .ok (if path.isEmpty then none else some path)
    | .error fault => .error (.wrongName fault)
  | _, _ => .ok none

def sizeOf (file : AllocatedFile) : Except LayoutFault (Option Nat) :=
  match file.size with
  | .null => .ok none
  | .integer size => .ok (if 0 ≤ size then some size.toNat else none)
  | .real _ => .error (.wrongSize "Real")
  | .text _ => .error (.wrongSize "Text")
  | .blob _ => .error (.wrongSize "Blob")

/-- A file without a path is reported without its size. -/
def occupant (file : AllocatedFile) : Except LayoutFault Occupant := do
  let path ← pathOf file
  let size ← sizeOf file
  return ⟨path, if path.isSome then size else none⟩

def lookupAt (layout : Layout) (offset : Nat) : Except LayoutFault (Option Occupant) :=
  match layout with
  | .unreadable fault => .error fault
  | .tables known =>
    match fileAt known (min (offset : Int) (Database.integerLimit - 1)) with
    | some file => (occupant file).map some
    | none => if meetsBroken known then .error .malformed else .ok none

def lookup (layout : Layout) : LayoutLookup := fun sector => layout.lookupAt (sector * sectorSize)

end Layout

end FragmentSearch
