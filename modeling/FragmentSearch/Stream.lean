import FragmentSearch.Fault
import FragmentSearch.Record
import FragmentSearch.Text

namespace FragmentSearch

structure Feed where
  bytes : List UInt8
  fault : Option Fault

inductive Entry (α : Type) where
  | item (value : α)
  | blank
  | malformed (fault : LineFault)

structure Reading (α : Type) where
  entries : List (Entry α)
  fault : Option Fault

variable {α : Type}

def Entry.item? : Entry α → Option α
  | .item value => some value
  | _ => none

def Entry.isMalformed : Entry α → Bool
  | .malformed _ => true
  | _ => false

def Entry.ofLine (decode : String → Except LineFault (Option α)) (line : List UInt8) : Entry α :=
  match Text.lineText? line with
  | none => .malformed .notUtf8
  | some text =>
    match decode text with
    | .ok (some value) => .item value
    | .ok none => .blank
    | .error fault => .malformed fault

/-- The lines that a feed delivers whole: a line cut short by a fault is not one of them. -/
def Feed.lines (feed : Feed) : List (List UInt8) :=
  let lines := Text.cutLines feed.bytes
  if feed.fault.isSome then lines.filter (·.getLast? = some Text.lineFeed) else lines

def Feed.read (decode : String → Except LineFault (Option α)) (feed : Feed) : Reading α :=
  ⟨feed.lines.map (Entry.ofLine decode), feed.fault⟩

namespace Reading

def items (reading : Reading α) : List α := reading.entries.filterMap Entry.item?

def lines (reading : Reading α) : Nat := reading.entries.length

def skipped (reading : Reading α) : Nat := reading.entries.countP Entry.isMalformed

def items? (reading : Reading α) : Except Fault (List α) :=
  match reading.fault with
  | some fault => .error fault
  | none => .ok reading.items

def progress (reading : Reading α) : List (Nat × Nat × α) :=
  let visit (seen : Nat × Nat × List (Nat × Nat × α)) (entry : Entry α) :=
    let (lines, skipped, found) := seen
    match entry with
    | .item value => (lines + 1, skipped, (lines + 1, skipped, value) :: found)
    | .blank => (lines + 1, skipped, found)
    | .malformed _ => (lines + 1, skipped + 1, found)
  (reading.entries.foldl visit (0, 0, [])).2.2.reverse

/-- The log of a consumer that passes through the items with a state: what it remarks on an item,
between the notes on malformed lines. -/
def log {σ : Type} (reading : Reading α) (label : String) (start : σ) (next : σ → α → σ)
    (remarks : σ → α → List Event) : List Event :=
  let visit (seen : Nat × σ × List Event) (entry : Entry α) :=
    let (lines, state, events) := seen
    match entry with
    | .item value => (lines + 1, next state value, (remarks state value).reverse ++ events)
    | .blank => (lines + 1, state, events)
    | .malformed fault =>
      let message := label ++ " line " ++ toString (lines + 1) ++ ": " ++ fault.message
      (lines + 1, state, ⟨.debug, message⟩ :: events)
  (reading.entries.foldl visit (0, start, [])).2.2.reverse

def skippedEvents (reading : Reading α) (label : String) : List Event :=
  if reading.skipped = 0 then []
  else [⟨.warn, "Skipped " ++ toString reading.skipped ++ " malformed line(s) of " ++ toString reading.lines ++
    " in " ++ label⟩]

end Reading

def Record.streamLabel : String := "association stream"

def Observation.streamLabel : String := "disk-observation stream"

def Feed.records (feed : Feed) : Reading Record := feed.read Record.read?

def Feed.observations (feed : Feed) : Reading Observation := feed.read Observation.read?

end FragmentSearch
