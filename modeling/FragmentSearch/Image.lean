import FragmentSearch.Fault

namespace FragmentSearch

def sectorSize : Nat := 512

def blockSize : Nat := 4096

def sectorsPerBlock : Nat := 8

theorem blockSize_eq : blockSize = sectorsPerBlock * sectorSize := rfl

def sectorOf (offset : Nat) : Nat := offset / sectorSize

def blockOf (offset : Nat) : Nat := offset / blockSize

def blocksFor (size : Nat) : Nat := (size + (blockSize - 1)) / blockSize

def alignment (sector : Nat) : Nat := sector % sectorsPerBlock

theorem alignment_lt (sector : Nat) : alignment sector < sectorsPerBlock :=
  Nat.mod_lt _ (by decide)

theorem alignment_add_block (sector : Nat) : alignment (sector + sectorsPerBlock) = alignment sector := by
  simp [alignment]

/-- An image tells why reading cannot begin at an offset, if it cannot, and the byte at every place or
why there is none. -/
structure Image where
  seekFault : Nat → Option Fault
  byte : Nat → Except Fault UInt8

structure ReadFault where
  offset : Nat
  length : Nat
  fault : Fault

def ReadFault.message (fault : ReadFault) : String :=
  "Failed to read " ++ toString fault.length ++ " bytes at offset " ++ toString fault.offset ++ ": " ++
    fault.fault.message

namespace Image

def ofBytes (size : Nat) (byte : Nat → UInt8) : Image :=
  { seekFault := fun _ => none
    byte := fun place => if place < size then .ok (byte place) else .error .shortRead }

def seekLimit : Nat := 0x8000000000000000

def inFile (image : Image) : Image :=
  { image with seekFault := fun offset => if offset < seekLimit then image.seekFault offset else some .offsetTooLarge }

def ofDirectory : Image := { seekFault := fun _ => none, byte := fun _ => .error .isDirectory }

def read (image : Image) (offset length : Nat) : Except ReadFault (List UInt8) :=
  match image.seekFault offset with
  | some fault => .error ⟨offset, length, fault⟩
  | none => ((List.range' offset length).mapM image.byte).mapError fun fault => ⟨offset, length, fault⟩

end Image

def isAllNull (bytes : List UInt8) : Bool := bytes.all (· = 0)

def Image.blockIsNull (image : Image) (sector : Nat) : Except ReadFault Bool :=
  (image.read (sector * sectorSize) blockSize).map isAllNull

end FragmentSearch
