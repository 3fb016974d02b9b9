import FragmentSearch.Database.Cell

/-!
Database files: the rows of a table. A file is cut into pages, and a table is a tree of pages. The rows
of most tables stand in the leaves of the tree under their numbers; a table without row numbers is a
tree of keys, with rows on all levels. A row is kept as a record: the kinds of its values, then the
values. A page that is not what it should be ends the table.
-/

namespace FragmentSearch.Database

structure Table (α : Type) where
  rows : List α
  isBroken : Bool := false

namespace Table

def broken {α : Type} : Table α := ⟨[], true⟩

def map {α β : Type} (f : α → β) (table : Table α) : Table β := ⟨table.rows.map f, table.isBroken⟩

def concat {α : Type} : List (Unit → Table α) → Table α
  | [] => ⟨[], false⟩
  | table :: tables =>
    let first := table ()
    if first.isBroken then first
    else
      let rest := concat tables
      ⟨first.rows ++ rest.rows, rest.isBroken⟩

def ofOptions {α : Type} : List (Option α) → Table α
  | [] => ⟨[], false⟩
  | none :: _ => broken
  | some row :: rest =>
    let rest := ofOptions rest
    ⟨row :: rest.rows, rest.isBroken⟩

end Table

inductive Encoding where
  | utf8
  | utf16 (highFirst : Bool)
deriving DecidableEq

structure Pages where
  byte : Nat → UInt8
  size : Nat
  usable : Nat
  count : Nat
  encoding : Encoding

def bigEndian (bytes : List UInt8) : Nat := bytes.foldl (fun value byte => 256 * value + byte.toNat) 0

def packedFrom (value left : Nat) : List UInt8 → Nat × List UInt8
  | [] => (value, [])
  | byte :: bytes =>
    match left with
    | 0 => (256 * value + byte.toNat, bytes)
    | left + 1 =>
      if byte < 128 then (128 * value + byte.toNat, bytes)
      else packedFrom (128 * value + byte.toNat % 128) left bytes

def packed (bytes : List UInt8) : Nat × List UInt8 := packedFrom 0 8 bytes

def signed (bits value : Nat) : Int :=
  if value < Nat.pow 2 (bits - 1) then value else (value : Int) - Nat.pow 2 bits

def width (kind : Nat) : Nat :=
  if kind < 5 then kind
  else if kind = 5 then 6
  else if kind < 8 then 8
  else if kind < 12 then 0
  else (kind - 12) / 2

def utf8Bytes (code : Nat) : List UInt8 :=
  let rest (shift : Nat) : UInt8 := UInt8.ofNat (0x80 + code / shift % 64)
  if code < 0x80 then [UInt8.ofNat code]
  else if code < 0x800 then [UInt8.ofNat (0xC0 + code / 64), rest 1]
  else if code < 0x10000 then [UInt8.ofNat (0xE0 + code / 4096), rest 64, rest 1]
  else [UInt8.ofNat (0xF0 + code / 262144 % 8), rest 4096, rest 64, rest 1]

def units (highFirst : Bool) : List UInt8 → List Nat
  | a :: b :: bytes => (if highFirst then bigEndian [a, b] else bigEndian [b, a]) :: units highFirst bytes
  | _ => []

/-- The bytes in UTF-8 of a text in units of sixteen bits. A surrogate takes the unit behind it for its
partner, whatever that is. -/
def utf8OfUnits : List Nat → List UInt8
  | [] => []
  | [unit] => utf8Bytes unit
  | high :: low :: units =>
    if 0xD800 ≤ high && high < 0xE000 then
      utf8Bytes (low % 1024 + 1024 * (high % 1024 + 64)) ++ utf8OfUnits units
    else utf8Bytes high ++ utf8OfUnits (low :: units)

def textBytes (encoding : Encoding) (bytes : List UInt8) : List UInt8 :=
  match encoding with
  | .utf8 => bytes
  | .utf16 highFirst => utf8OfUnits (units highFirst bytes)

def cell (encoding : Encoding) (kind : Nat) (bytes : List UInt8) : Cell :=
  if kind = 0 then .null
  else if kind < 7 then .integer (signed (8 * width kind) (bigEndian bytes))
  else if kind = 7 then
    let value := Float.ofBits (UInt64.ofNat (bigEndian bytes))
    if value.isNaN then .null else .real value
  else if kind < 10 then .integer (kind - 8)
  else if kind < 12 then .null
  else if kind % 2 = 0 then .blob bytes
  else .text (textBytes encoding bytes)

def kinds : (bound : Nat) → List UInt8 → List Nat
  | 0, _ => []
  | _, [] => []
  | bound + 1, bytes =>
    let (kind, rest) := packed bytes
    kind :: kinds bound rest

def cellsOf (encoding : Encoding) : List Nat → List UInt8 → List Cell
  | [], _ => []
  | kind :: rest, bytes =>
    cell encoding kind (bytes.take (width kind)) :: cellsOf encoding rest (bytes.drop (width kind))

def cells? (encoding : Encoding) (record : List UInt8) : Option (List Cell) :=
  let (stop, rest) := packed record
  let header := rest.take (stop - (record.length - rest.length))
  let kinds := kinds header.length header
  if record.length < stop + kinds.foldr (fun kind length => width kind + length) 0 then none
  else some (cellsOf encoding kinds (record.drop stop))

structure TableRow where
  id : Int
  cells : List Cell

namespace Pages

def bytes (pages : Pages) (place count : Nat) : List UInt8 := (List.range count).map fun i => pages.byte (place + i)

def number (pages : Pages) (place count : Nat) : Nat := bigEndian (pages.bytes place count)

def packedAt (pages : Pages) (place : Nat) : Nat × Nat :=
  let (value, rest) := packed (pages.bytes place 9)
  (value, place + 9 - rest.length)

def start (pages : Pages) (page : Nat) : Nat := (page - 1) * pages.size

def holds (pages : Pages) (page : Nat) : Bool := 0 < page && page ≤ pages.count

def overflow? (pages : Pages) (page left : Nat) : (bound : Nat) → Option (List UInt8)
  | 0 => none
  | bound + 1 =>
    if left = 0 then some []
    else if !pages.holds page then none
    else
      let start := pages.start page
      let count := min left (pages.usable - 4)
      (pages.overflow? (pages.number start 4) (left - count) bound).map (pages.bytes (start + 4) count ++ ·)

def localSize (pages : Pages) (most length : Nat) : Nat :=
  let least := (pages.usable - 12) * 32 / 255 - 23
  let part := least + (length - least) % (pages.usable - 4)
  if length ≤ most then length else if part ≤ most then part else least

def record? (pages : Pages) (most length place : Nat) : Option (List Cell) :=
  let kept := pages.localSize most length
  let chain := pages.number (place + kept) 4
  let rest := if kept < length then pages.overflow? chain (length - kept) (pages.count + 1) else some []
  (rest.map (pages.bytes place kept ++ ·)).bind (cells? pages.encoding)

def rowAt? (pages : Pages) (place : Nat) : Option TableRow :=
  let (length, place) := pages.packedAt place
  let (id, place) := pages.packedAt place
  (pages.record? (pages.usable - 35) length place).map fun cells => ⟨signed 64 id, cells⟩

def keyAt? (pages : Pages) (place : Nat) : Option TableRow :=
  let (length, place) := pages.packedAt place
  (pages.record? ((pages.usable - 12) * 64 / 255 - 23) length place).map fun cells => ⟨0, cells⟩

inductive Kind where
  | leaf
  | inner
  | keyLeaf
  | keyInner
deriving DecidableEq

def kind? : Nat → Option Kind
  | 13 => some .leaf
  | 5 => some .inner
  | 10 => some .keyLeaf
  | 2 => some .keyInner
  | _ => none

structure Sheet where
  kind : Kind
  entries : List Nat
  last : Nat

def sheet? (pages : Pages) (page : Nat) : Option Sheet :=
  if !pages.holds page then none
  else
    let start := pages.start page
    let head := if page = 1 then start + 100 else start
    let count := pages.number (head + 3) 2
    match kind? (pages.number head 1) with
    | none => none
    | some kind =>
      if (pages.size - 8) / 6 < count then none
      else
        let header := if kind = .leaf || kind = .keyLeaf then 8 else 12
        let entry (i : Nat) : Nat := start + pages.number (head + header + 2 * i) 2 % pages.size
        some ⟨kind, (List.range count).map entry, pages.number (head + 8) 4⟩

/-- The rows of the tree whose root is a page; a tree is never deeper than `depth`, and only its root may
be empty. -/
def tree (pages : Pages) (keyed isRoot : Bool) (page : Nat) : (depth : Nat) → Table TableRow
  | 0 => .broken
  | depth + 1 =>
    match pages.sheet? page with
    | none => .broken
    | some ⟨kind, entries, last⟩ =>
      let below (entry : Nat) : Table TableRow := pages.tree keyed false (pages.number entry 4) depth
      let beyond (_ : Unit) : Table TableRow := pages.tree keyed false last depth
      let mayBeEmpty := isRoot && (page = 1 || kind = .leaf || kind = .keyLeaf)
      if entries.isEmpty && !mayBeEmpty then .broken
      else match kind, keyed with
        | .leaf, false => .ofOptions (entries.map pages.rowAt?)
        | .inner, false => .concat (entries.map (fun entry (_ : Unit) => below entry) ++ [beyond])
        | .keyLeaf, true => .ofOptions (entries.map pages.keyAt?)
        | .keyInner, true =>
          let key (entry : Nat) (_ : Unit) : Table TableRow := .ofOptions [pages.keyAt? (entry + 4)]
          .concat (entries.flatMap (fun entry => [fun (_ : Unit) => below entry, key entry]) ++ [beyond])
        | _, _ => .broken

def deepest : Nat := 20

def rows (pages : Pages) (keyed : Bool) (page : Nat) : Table TableRow := pages.tree keyed true page deepest

end Pages

end FragmentSearch.Database
