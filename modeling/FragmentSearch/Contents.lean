import FragmentSearch.Compressed
import FragmentSearch.Database.Schema
import FragmentSearch.Files

namespace FragmentSearch

structure Content where
  size : Nat
  byte : Nat → UInt8

inductive Stored where
  | directory
  | file (content : Content)

namespace Content

def ofBytes (bytes : ByteArray) : Content := { size := bytes.size, byte := fun i => (bytes[i]?).getD 0 }

def toList (content : Content) : List UInt8 := (List.range content.size).map content.byte

def image (content : Content) : Image := (Image.ofBytes content.size content.byte).inFile

def layout (content : Content) : Layout := Database.layout content.size content.byte

end Content

def Compressed.expandFeed (feed : Feed) : Feed :=
  let (expanded, fault) := expand feed.bytes.toByteArray
  ⟨expanded.toList, if fault = some .unexpectedEnd then feed.fault.or fault else fault⟩

def shortened (path : String) : List String :=
  let step (names : List String) (name : String) : List String :=
    if name.isEmpty || name = "." then names else if name = ".." then names.dropLast else names ++ [name]
  ((path.toList.splitOn '/').map String.ofList).foldl step []

def shortenedLength (path : String) : Nat :=
  (shortened path).foldr (fun name length => name.utf8ByteSize + 1 + length) 0

/-- A database cannot be opened under a path that takes more bytes than these below the working directory. -/
def databasePathLimit : Nat := 489

def Content.keepsLog (content : Content) : Bool :=
  let header := (List.range (min 20 content.size)).map content.byte
  header.take 16 = Database.signature && header[19]? = some 2

/-- The index of a log without entries; it begins with its header twice. -/
def logIndex : List UInt8 :=
  let header := [24, 226, 45, 0] ++ List.replicate 8 0 ++ [1] ++ List.replicate 27 0 ++ [56, 7, 24, 6, 53, 147, 219, 9]
  let beginning := header ++ header ++ List.replicate 8 0 ++ List.replicate 16 255
  beginning ++ List.replicate (32768 - beginning.length) 0

def logCompanions (path : String) : List Companion := [⟨path ++ "-wal", []⟩, ⟨path ++ "-shm", logIndex⟩]

section Stored

variable (find : String → Except Fault Stored)

def databaseFile (name : String) : Except LayoutFault (Option (String × Content)) :=
  match Database.target name with
  | .error fault => .error (.badName fault)
  | .ok .memory => .ok none
  | .ok (.file path) =>
    match find path with
    | .ok (.file content) =>
      if databasePathLimit < shortenedLength path then .error (.cannotOpen name) else .ok (some (path, content))
    | _ => .error (.cannotOpen name)

def Files.ofStored : Files where
  node path := match find path with
    | .ok .directory => some .directory
    | .ok (.file content) => some (.file content.size)
    | .error _ => none
  stream path := match find path with
    | .ok .directory => .ok ⟨[], some .isDirectory⟩
    | .ok (.file content) => .ok ⟨content.toList, none⟩
    | .error fault => .error fault
  expand := Compressed.expandFeed
  image path := match find path with
    | .ok .directory => .ok Image.ofDirectory
    | .ok (.file content) => .ok content.image
    | .error fault => .error fault
  layout name := (databaseFile find name).map fun file => (file.elim Database.emptyLayout (·.2.layout)).lookup
  companions name := match databaseFile find name with
    | .ok (some (path, content)) =>
      (logCompanions path).filter fun companion => content.keepsLog && (find companion.path).toBool = false
    | _ => []
  creationFault _ := none
  writeFault _ _ := none

end Stored

end FragmentSearch
