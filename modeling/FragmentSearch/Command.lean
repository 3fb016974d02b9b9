import FragmentSearch.Arguments
import FragmentSearch.Effect
import FragmentSearch.Usage

namespace FragmentSearch

def associationFile : String := "identified_blocks_explained.txt"

def observationFile : String := "identified_blocks.txt"

namespace Files

open Work

variable {α : Type}

def inputPath (files : Files) (directory name : String) : Work String :=
  match files.resolve directory name with
  | some path => return path
  | none => throw (.inputMissing (joinPath directory name))

def readStream (files : Files) (decode : Feed → Reading α) (remarks : Reading α → List Event) (path : String) :
    Work (Reading α × List α) := do
  let reading := decode (← orFail .inputFault (files.feed path))
  log (remarks reading)
  let items ← orFail .inputFault reading.items?
  return (reading, items)

def loadCatalog (files : Files) (directory : String) (policy : Policy) : Work Catalog := do
  let path ← files.inputPath directory associationFile
  info ("Reading " ++ path ++ " for candidate selection")
  let (reading, records) ← files.readStream Feed.records (Candidates.selectionEvents policy) path
  log (reading.skippedEvents Record.streamLabel)
  info ("Scanned " ++ toString reading.lines ++ " line(s) of " ++ path)
  info ("Re-reading " ++ path ++ " to build source database")
  let candidates := Candidates.select policy records
  let (_, records) ← files.readStream Feed.records (Catalog.loadEvents files.localSize candidates) path
  return Catalog.load files.localSize candidates records

def loadSightings (files : Files) (directory : String) (catalog : Catalog) : Work Sightings := do
  let path ← files.inputPath directory observationFile
  info ("Reading " ++ path)
  let (reading, observations) ← files.readStream Feed.observations catalog.sightingEvents path
  log (reading.skippedEvents Observation.streamLabel)
  let sightings := catalog.sightings observations
  if sightings.isEmpty && !catalog.isEmpty then
    warn ("No observation in " ++ path ++ " matches a candidate hash")
  return sightings

def openImage (files : Files) : Option String → Work (Option Image)
  | none => return none
  | some path =>
    match files.openedImage path with
    | .ok image => return some image
    | .error fault => do
      warn (fault.message ++ "; gaps will not be merged")
      return none

def openLayout (files : Files) (path : String) : Work (Option LayoutLookup) :=
  match files.layout? path with
  | some (.error fault) => do
    warn ("Cannot open " ++ path ++ ": " ++ fault.message ++ "; allocated files will not be reported")
    return none
  | some (.ok lookup) => do
    info ("Reading " ++ path)
    return some lookup
  | none => do
    info ("Will not report allocated files; no file " ++ path)
    return none

/-- The rows of runs. A database that is open is not read before the first run is looked up. -/
def labelRuns (files : Files) (path : String) (lookup : Option LayoutLookup) (catalog : Catalog) (runs : List Run) :
    Work (List Row) := do
  if lookup.isSome && !runs.isEmpty then perform ((files.companions path).map .leave)
  log (runs.flatMap (Run.occupantEvents lookup))
  return catalog.report lookup runs

def openOutput (files : Files) : Option String → Work Unit
  | none => return
  | some path =>
    match files.creationFault path with
    | some fault => throw (.outputFault fault)
    | none => perform [.create path]

/-- How much an output takes of what is written to it, and why no more. -/
def interruption (files : Files) (output : Option String) (bytes : List UInt8) : Option (Nat × Fault) :=
  if bytes.isEmpty then none else files.writeFault output bytes

def taken (files : Files) (output : Option String) (bytes : List UInt8) : List UInt8 :=
  match files.interruption output bytes with
  | none => bytes
  | some (count, _) => bytes.take count

def write (files : Files) (output : Option String) (bytes : List UInt8) : Work Unit := do
  perform [.write (files.taken output bytes)]
  if let some (_, fault) := files.interruption output bytes then throw (.writeFault fault)

def deliver (files : Files) (output : Option String) (text : String) (emptiness : Option String) : Work Unit := do
  files.openOutput output
  if let some remark := emptiness then note remark
  files.write output text.toUTF8.toList

def runRows (files : Files) (verbose : Bool) (directory : String) (policy : Policy) (settings : Settings)
    (image : Option String) (database : String) : Work (List Row) := do
  if !files.isDirectory directory then throw (.noDirectory directory)
  let catalog ← files.loadCatalog directory policy
  if verbose then note ("Total candidates: " ++ toString catalog.candidates.size)
  let sightings ← files.loadSightings directory catalog
  let image ← files.openImage image
  let lookup ← files.openLayout (joinPath directory database)
  let search : Search := { catalog, sightings, settings }
  let findings := search.findings image
  log (search.events findings)
  files.labelRuns (joinPath directory database) lookup catalog (findings.flatMap (·.kept))

def runs (files : Files) (time : String) (verbose : Bool) (format : Format) (directory : String) (policy : Policy)
    (settings : Settings) (image : Option String) (database : String) (output : Option String) : Work Unit := do
  let rows ← files.runRows verbose directory policy settings image database
  let emptiness := if rows.isEmpty && format = .text then some "No runs found." else none
  files.deliver output (Row.written format time policy settings rows) emptiness
  if let some path := output then info ("Wrote " ++ toString rows.length ++ " row(s) to " ++ path)

def setRows (files : Files) (verbose : Bool) (directory : String) (policy : Policy) : Work (List SetRow) := do
  if !files.isDirectory directory then throw (.noDirectory directory)
  let rows := (← files.loadCatalog directory policy).sets
  if verbose then note ("Total candidates: " ++ toString rows.length)
  return rows

def sets (files : Files) (time : String) (verbose : Bool) (format : Format) (directory : String) (policy : Policy)
    (output : Option String) : Work Unit := do
  let rows ← files.setRows verbose directory policy
  let emptiness := if rows.isEmpty && format = .text then some "No candidate sources." else none
  files.deliver output (SetRow.written format time policy rows) emptiness

end Files

def Command.directory : Command → String
  | .runs directory .. => directory
  | .sets directory .. => directory

def Invocation.work (invocation : Invocation) (files : Files) (time : String) : Work Unit :=
  match invocation.command with
  | .runs directory policy settings image database output =>
    files.runs time invocation.verbose invocation.format directory policy settings image database output
  | .sets directory policy output =>
    files.sets time invocation.verbose invocation.format directory policy output

structure Outcome where
  failure : Option Failure
  messages : List Message
  effects : List Effect

def Invocation.run (invocation : Invocation) (files : Files) (time : String) : Outcome :=
  let (result, effects) := (invocation.work files time).run.run []
  { failure := match result with
      | .ok () => none
      | .error failure => some failure
    messages := (effects.reverse.filterMap Effect.message?).filter (Message.isShown invocation.verbose)
    effects := effects.reverse }

def Outcome.messageText (outcome : Outcome) : String :=
  String.join (outcome.messages.map fun message => message.line ++ "\n")

structure Ending where
  code : Nat
  errors : String
  effects : List Effect

def Failure.report (failure : Failure) : String :=
  let cause := match failure.cause with
    | some fault => "\n\nCaused by:\n    " ++ fault.message
    | none => ""
  "Error: " ++ failure.message ++ cause ++ "\n"

def Outcome.ending (outcome : Outcome) : Ending :=
  { code := if outcome.failure.isSome then 1 else 0
    errors := outcome.messageText ++ (match outcome.failure with
      | some failure => failure.report
      | none => "")
    effects := outcome.effects }

def UsageError.ending : UsageError → Ending
  | .version => ⟨0, "", [.write versionText.toUTF8.toList]⟩
  | .help => ⟨0, "", [.write usage.toUTF8.toList]⟩
  | error => ⟨2, error.text, []⟩

def program (files : Files) (time : String) (arguments : List String) : Ending :=
  match Invocation.read arguments with
  | .ok invocation => (invocation.run files time).ending
  | .error error => error.ending

end FragmentSearch
