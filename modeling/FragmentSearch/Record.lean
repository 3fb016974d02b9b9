import FragmentSearch.Fault
import FragmentSearch.Image
import FragmentSearch.Json.Reader
import FragmentSearch.Json.Value
import FragmentSearch.Sorted
import FragmentSearch.Text

namespace FragmentSearch

structure Flags where
  letters : List Char
deriving DecidableEq

def Flags.none : Flags := ⟨[]⟩

def Flags.ofText (text : List Char) : Flags := ⟨ascending (text.filter Char.isAlpha)⟩

def Flags.isEmpty (flags : Flags) : Bool := flags.letters.isEmpty

def Flags.contains (flags : Flags) (c : Char) : Bool := flags.letters.contains c

def Flags.text (flags : Flags) : String := String.ofList flags.letters

structure Provenance where
  count : Nat
  flagText : Option String

def Provenance.flags (provenance : Provenance) : Flags :=
  match provenance.flagText with
  | some text => Flags.ofText text.toList
  | none => Flags.none

structure Occurrence where
  source : Nat
  offset : Nat

def Occurrence.block (occurrence : Occurrence) : Nat := blockOf occurrence.offset

structure Association where
  hash : String
  provenance : Provenance
  occurrences : List Occurrence

structure Description where
  source : Nat
  name : String
  size : Option Nat

inductive Record where
  | association (association : Association)
  | description (description : Description)

def nameDelimiter : Char := Char.ofNat 0x10001C

def cleanName (name : String) : String := String.ofList (name.toList.filter (· ≠ nameDelimiter))

namespace Record

open Json (Value)

def named? (members : List (List Char × Value)) : Option (List (List Char × Value)) :=
  members.mapM fun (name, value) => (Json.unescape name).map (·, value)

def member? (members : List (List Char × Value)) (name : String) : Option (Option Value) :=
  match members.filter (·.1 = name.toList) with
  | [] => some none
  | [member] => some (some member.2)
  | _ => none

def optional? {α : Type} (read : Value → Option α) : Option Value → Option (Option α)
  | none => some none
  | some .null => some none
  | some value => (read value).map some

def count? : Option Value → Option Nat
  | none => some 0
  | some value => value.natural?

def provenance? : Value → Option Provenance
  | .object members => do
    let members ← named? members
    let count ← count? (← member? members "count")
    let flagText ← optional? Value.string? (← member? members "flags")
    some ⟨count, flagText⟩
  | .list [] => some ⟨0, none⟩
  | .list [count] => do some ⟨← count.natural?, none⟩
  | .list [count, flagText] => do some ⟨← count.natural?, ← optional? Value.string? (some flagText)⟩
  | _ => none

def occurrence? : Value → Option Occurrence
  | .object members => do
    let members ← named? members
    let source ← (← member? members "source_id").bind Value.natural?
    let offset ← (← member? members "file_offset").bind Value.natural?
    some ⟨source, offset⟩
  | .list [source, offset] => do some ⟨← source.natural?, ← offset.natural?⟩
  | _ => none

def association? : Value → Option Association
  | .list [hash, provenance, .list occurrences] => do
    some ⟨← hash.string?, ← provenance? provenance, ← occurrences.mapM occurrence?⟩
  | _ => none

def description? : Value → Option Description
  | .object members => do
    let members ← named? members
    let source ← (← member? members "source_id").bind Value.natural?
    let name ← (← member? members "filename").bind Value.string?
    let size ← optional? Value.natural? (← member? members "filesize")
    some ⟨source, cleanName name, size⟩
  | _ => none

def read? (line : String) : Except LineFault (Option Record) :=
  let text := Text.trim line.toList
  match text with
  | [] => .ok none
  | '#' :: _ => .ok none
  | '[' :: _ =>
    match (Json.read? text).bind association? with
    | some found => .ok (some (.association found))
    | none => .error .associationRecord
  | '\x7b' :: _ =>
    match (Json.read? text).bind description? with
    | some found => .ok (some (.description found))
    | none => .error .sourceRecord
  | _ => .error (.unknownStart (String.ofList (text.take 16)))

end Record

structure Observation where
  offset : Nat
  hash : String
  count : Option Nat
  flags : Flags

def Observation.sector (observation : Observation) : Nat := sectorOf observation.offset

namespace Observation

/-- A count with flags in any order: the letters are flags, and what is left without white space is
the count, unless it is no number or zero. -/
def annotatedCount (field : List Char) : Option Nat × Flags :=
  let digits := field.filter fun c => !c.isAlpha && !Text.isBlank c
  ((Text.natural? digits).filter (0 < ·), Flags.ofText field)

def countAndFlags (field : List Char) : Option Nat × Flags :=
  match Text.trim field with
  | '\x7b' :: rest =>
    match (Json.read? ('\x7b' :: rest)).bind Record.provenance? with
    | some provenance => (some provenance.count |>.filter (0 < ·), provenance.flags)
    | none => (none, Flags.none)
  | text => annotatedCount text

def read? (line : String) : Except LineFault (Option Observation) :=
  let text := line.toList
  if (Text.trim text).isEmpty || text.head? = some '#' then .ok none
  else match text.splitOn '\t' with
    | [offset, hash, last] =>
      match Text.natural? (Text.trim offset) with
      | none => .error (.badOffset (String.ofList offset))
      | some number =>
        let hash := Text.trim hash
        if hash.isEmpty then .error .emptyHash
        else
          let (count, flags) := countAndFlags last
          .ok (some ⟨number, String.ofList hash, count, flags⟩)
    | fields => .error (.fieldCount fields.length)

end Observation

end FragmentSearch
