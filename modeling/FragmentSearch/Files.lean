import FragmentSearch.Image
import FragmentSearch.Layout
import FragmentSearch.Stream

namespace FragmentSearch

inductive Node where
  | directory
  | file (size : Nat)
  | special
deriving DecidableEq

/-- A file that the database library puts beside a database from which it reads. -/
structure Companion where
  path : String
  bytes : List UInt8

/-- What the system and the libraries answer: what stands at a path, how it is opened and read in each of the ways in
which a command reads, and why a file is not created or what is written to an output is not taken whole. Then some
bytes of it are taken. -/
structure Files where
  node : String → Option Node
  stream : String → Except Fault Feed
  expand : Feed → Feed
  image : String → Except Fault Image
  layout : String → Except LayoutFault LayoutLookup
  companions : String → List Companion
  creationFault : String → Option Fault
  writeFault : Option String → List UInt8 → Option (Nat × Fault)

def isCompressedName (path : String) : Bool :=
  let ending := (path.toList.reverse.take 3).map Char.toLower
  ending = ['z', 'g', '.']

def isAbsolute (path : String) : Bool := path.toList.head? = some '/'

def endsInSlash (path : String) : Bool := path.toList.getLast? = some '/'

def joinPath (directory name : String) : String :=
  if isAbsolute name then name
  else if directory.isEmpty || endsInSlash directory then directory ++ name
  else directory ++ "/" ++ name

structure OpenFault where
  path : String
  fault : Fault

def OpenFault.message (fault : OpenFault) : String :=
  "Failed to open image " ++ fault.path ++ ": " ++ fault.fault.message

namespace Files

def exists? (files : Files) (path : String) : Bool := (files.node path).isSome

def isDirectory (files : Files) (path : String) : Bool := files.node path = some .directory

def localSize (files : Files) (path : String) : Nat :=
  match files.node path with
  | some (.file size) => size
  | _ => 0

def feed (files : Files) (path : String) : Except Fault Feed :=
  (files.stream path).map fun feed => if isCompressedName path then files.expand feed else feed

def resolve (files : Files) (directory name : String) : Option String :=
  let path := joinPath directory name
  let compressed := joinPath directory (name ++ ".gz")
  if files.exists? path then some path
  else if files.exists? compressed then some compressed
  else none

def openedImage (files : Files) (path : String) : Except OpenFault Image :=
  (files.image path).mapError fun fault => ⟨path, fault⟩

/-- The look-up of a database; only what is a file is opened as one. -/
def layout? (files : Files) (name : String) : Option (Except LayoutFault LayoutLookup) :=
  match files.node name with
  | some (.file _) => some (files.layout name)
  | _ => none

end Files

end FragmentSearch
