import FragmentSearch.Fault

/-!
Expansion of deflated data. Bits are taken from the low end of each byte; every block is stored, or
coded with a fixed or a transmitted pair of prefix codes.
-/

namespace FragmentSearch.Compressed

structure Progress where
  position : Nat
  output : ByteArray

abbrev Expansion := ExceptT Fault (StateM Progress)

section Expansion

variable (input : ByteArray)

def takeBits (count : Nat) : Expansion Nat := do
  let start := (← get).position
  if 8 * input.size < start + count then throw .unexpectedEnd
  modify fun progress => { progress with position := start + count }
  let bit (i : Nat) : Nat := ((input[(start + i) / 8]?).getD 0).toNat / Nat.pow 2 ((start + i) % 8) % 2
  return (List.range count).foldl (fun value i => value + bit i * Nat.pow 2 i) 0

structure PrefixCode where
  counts : List Nat
  symbols : Array Nat

def PrefixCode.ofLengths (lengths : List Nat) : PrefixCode :=
  let longest := 15
  let ofLength (n : Nat) : List Nat :=
    (lengths.zipIdx.filter fun (length, _) => length = n).map fun (_, symbol) => symbol
  let byLength := (List.range longest).map fun i => ofLength (i + 1)
  ⟨byLength.map List.length, byLength.flatten.toArray⟩

/-- Every word of bits begins with a codeword; a code of one symbol may leave words over. -/
def PrefixCode.isUsable (code : PrefixCode) : Bool :=
  code.symbols.size ≤ 1 || code.counts.foldl (fun (free : Int) (count : Nat) => 2 * free - count) 1 = 0

/-- Follows a codeword bit by bit. Among codewords of one length `first` is the least, and the symbol of
it is the one at `index`. -/
def takeCodeword (symbols : Array Nat) : List Nat → Nat → Nat → Nat → Expansion Nat
  | [], _, _, _ => throw .corruptDeflate
  | count :: counts, word, first, index => do
    let word := word + (← takeBits input 1)
    if word < first + count then
      match symbols[index + (word - first)]? with
      | some symbol => return symbol
      | none => throw .corruptDeflate
    else takeCodeword symbols counts (2 * word) (2 * (first + count)) (index + count)

def takeSymbol (code : PrefixCode) : Expansion Nat := takeCodeword input code.symbols code.counts 0 0 0

def lengthBases : List (Nat × Nat) :=
  [(3, 0), (4, 0), (5, 0), (6, 0), (7, 0), (8, 0), (9, 0), (10, 0), (11, 1), (13, 1), (15, 1), (17, 1), (19, 2),
    (23, 2), (27, 2), (31, 2), (35, 3), (43, 3), (51, 3), (59, 3), (67, 4), (83, 4), (99, 4), (115, 4), (131, 5),
    (163, 5), (195, 5), (227, 5), (258, 0)]

def distanceBases : List (Nat × Nat) :=
  [(1, 0), (2, 0), (3, 0), (4, 0), (5, 1), (7, 1), (9, 2), (13, 2), (17, 3), (25, 3), (33, 4), (49, 4), (65, 5),
    (97, 5), (129, 6), (193, 6), (257, 7), (385, 7), (513, 8), (769, 8), (1025, 9), (1537, 9), (2049, 10), (3073, 10),
    (4097, 11), (6145, 11), (8193, 12), (12289, 12), (16385, 13), (24577, 13)]

def takeBased (bases : List (Nat × Nat)) (symbol : Nat) : Expansion Nat :=
  match bases[symbol]? with
  | some (base, bits) => do return base + (← takeBits input bits)
  | none => throw .corruptDeflate

def emit (byte : UInt8) : Expansion Unit :=
  modify fun progress => { progress with output := progress.output.push byte }

def emitCopy (distance : Nat) : Nat → Expansion Unit
  | 0 => return
  | length + 1 => do
    let output := (← get).output
    emit ((output[output.size - distance]?).getD 0)
    emitCopy distance length

/-- The symbols of a block up to its end. Every symbol takes at least one bit, so there are no more than
`bound`, the number of bits of the input. -/
def expandSymbols (lengths distances : PrefixCode) : Nat → Expansion Unit
  | 0 => throw .unexpectedEnd
  | bound + 1 => do
    let symbol ← takeSymbol input lengths
    if symbol < 256 then
      emit (UInt8.ofNat symbol)
      expandSymbols lengths distances bound
    else if symbol = 256 then return
    else
      let length ← takeBased input lengthBases (symbol - 257)
      let distance ← takeBased input distanceBases (← takeSymbol input distances)
      if (← get).output.size < distance then throw .corruptDeflate
      emitCopy distance length
      expandSymbols lengths distances bound

def fixedLengths : PrefixCode :=
  .ofLengths (List.replicate 144 8 ++ List.replicate 112 9 ++ List.replicate 24 7 ++ List.replicate 8 8)

def fixedDistances : PrefixCode := .ofLengths (List.replicate 30 5)

def takeLengths (code : PrefixCode) (wanted : Nat) : Nat → List Nat → Expansion (List Nat)
  | 0, _ => throw .corruptDeflate
  | bound + 1, known => do
    if known.length = wanted then return known.reverse
    if wanted < known.length then throw .corruptDeflate
    let symbol ← takeSymbol input code
    if symbol < 16 then takeLengths code wanted bound (symbol :: known)
    else if symbol = 16 then
      match known with
      | [] => throw .corruptDeflate
      | last :: _ => takeLengths code wanted bound (List.replicate (3 + (← takeBits input 2)) last ++ known)
    else if symbol = 17 then takeLengths code wanted bound (List.replicate (3 + (← takeBits input 3)) 0 ++ known)
    else takeLengths code wanted bound (List.replicate (11 + (← takeBits input 7)) 0 ++ known)

def lengthOrder : List Nat := [16, 17, 18, 0, 8, 7, 9, 6, 10, 5, 11, 4, 12, 3, 13, 2, 14, 1, 15]

def takeCodes : Expansion (PrefixCode × PrefixCode) := do
  let lengthCount := 257 + (← takeBits input 5)
  let distanceCount := 1 + (← takeBits input 5)
  let orderCount := 4 + (← takeBits input 4)
  if 286 < lengthCount || 30 < distanceCount then throw .corruptDeflate
  let ordered ← (List.range orderCount).mapM fun _ => takeBits input 3
  let lengthOf (symbol : Nat) : Nat := (ordered[lengthOrder.idxOf symbol]?).getD 0
  let code := PrefixCode.ofLengths ((List.range 19).map lengthOf)
  if !code.isUsable then throw .corruptDeflate
  let known ← takeLengths input code (lengthCount + distanceCount) (lengthCount + distanceCount + 1) []
  let lengths := PrefixCode.ofLengths (known.take lengthCount)
  let distances := PrefixCode.ofLengths (known.drop lengthCount)
  if !(lengths.isUsable && distances.isUsable) then throw .corruptDeflate
  return (lengths, distances)

def expandStored : Expansion Unit := do
  modify fun progress => { progress with position := (progress.position + 7) / 8 * 8 }
  let length ← takeBits input 16
  let inverted ← takeBits input 16
  if length + inverted ≠ 65535 then throw .corruptDeflate
  let start := (← get).position / 8
  let available := min length (input.size - start)
  modify fun progress =>
    { position := progress.position + 8 * available
      output := progress.output ++ input.extract start (start + available) }
  if available < length then throw .unexpectedEnd

def expandBlocks : Nat → Expansion Unit
  | 0 => throw .unexpectedEnd
  | bound + 1 => do
    let final ← takeBits input 1
    match ← takeBits input 2 with
    | 0 => expandStored input
    | 1 => expandSymbols input fixedLengths fixedDistances (8 * input.size)
    | 2 => do
      let (lengths, distances) ← takeCodes input
      expandSymbols input lengths distances (8 * input.size)
    | _ => throw .corruptDeflate
    if final = 0 then expandBlocks bound

def inflate (start : Nat) : Except Fault Unit × Progress :=
  (expandBlocks input (8 * input.size)).run.run ⟨8 * start, ByteArray.empty⟩

end Expansion

def checkBit (sum : UInt32) : UInt32 := if sum &&& 1 = 1 then (sum >>> 1) ^^^ 0xEDB88320 else sum >>> 1

def checkByte (sum : UInt32) (byte : UInt8) : UInt32 :=
  (List.range 8).foldl (fun sum _ => checkBit sum) (sum ^^^ byte.toUInt32)

def checksum (bytes : ByteArray) : UInt32 := bytes.foldl checkByte 0xFFFFFFFF ^^^ 0xFFFFFFFF

def littleEndian (input : ByteArray) (place count : Nat) : Nat :=
  (List.range count).foldl (fun value i => value + ((input[place + i]?).getD 0).toNat * Nat.pow 256 i) 0

def afterZero (input : ByteArray) (place : Nat) : Except Fault Nat :=
  match (List.range (input.size - place)).find? fun i => input[place + i]? = some 0 with
  | some i => .ok (place + i + 1)
  | none => .error .unexpectedEnd

def behind (input : ByteArray) (place count : Nat) : Except Fault Nat :=
  if input.size < place + count then .error .unexpectedEnd else .ok (place + count)

def dataStart (input : ByteArray) : Except Fault Nat := do
  let fixedPart ← behind input 0 10
  if (input.extract 0 3).data ≠ #[0x1F, 0x8B, 8] then throw .notCompressed
  let flags := ((input[3]?).getD 0).toNat
  if 32 ≤ flags then throw .notCompressed
  let has (bit : Nat) : Bool := flags / bit % 2 = 1
  let extra ← if has 4 then do behind input (← behind input fixedPart 2) (littleEndian input fixedPart 2)
    else pure fixedPart
  let name ← if has 8 then afterZero input extra else pure extra
  let comment ← if has 16 then afterZero input name else pure name
  if has 2 then
    let stop ← behind input comment 2
    if littleEndian input comment 2 ≠ (checksum (input.extract 0 comment)).toNat % 65536 then throw .checksumMismatch
    return stop
  else return comment

def expand (input : ByteArray) : ByteArray × Option Fault :=
  match dataStart input with
  | .error fault => (ByteArray.empty, some fault)
  | .ok start =>
    match inflate input start with
    | (.error fault, progress) => (progress.output, some fault)
    | (.ok (), progress) =>
      let trailer := (progress.position + 7) / 8
      let content := progress.output
      let fault :=
        if input.size < trailer + 8 then some .unexpectedEnd
        else if littleEndian input trailer 4 = (checksum content).toNat &&
            littleEndian input (trailer + 4) 4 = content.size % 0x100000000 then none
        else some .checksumMismatch
      (content, fault)

end FragmentSearch.Compressed
