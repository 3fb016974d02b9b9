import FragmentSearch.Decimal.Written
import FragmentSearch.Report.Written

namespace FragmentSearch

inductive UsageError where
  | unknownArgument
  | unknownCommand
  | badChoice
  | badNumber
  | repeated
  | needlessValue
  | missingDirectory
  | missingCommand
  | nothingGiven
  | help
  | version
deriving DecidableEq

structure Draft where
  directory : Option String := none
  policy : Policy := {}
  settings : Settings := {}
  image : Option String := none
  database : String := "tsk_db.sqlite3"
  output : Option String := none
  verbose : Bool := false
  format : Option Format := none

inductive Action where
  | mark (set : Draft → Draft)
  | store (set : String → Draft → Except UsageError Draft)
  | ask (answer : UsageError)

structure Switch where
  long : String
  short : Option Char
  action : Action

namespace Switch

def path (long : String) (short : Option Char) (set : String → Draft → Draft) : Switch :=
  ⟨long, short, .store fun text draft => if text.isEmpty then .error .badChoice else .ok (set text draft)⟩

def natural (long : String) (set : Nat → Draft → Draft) : Switch :=
  ⟨long, none, .store fun text draft =>
    match Text.natural? text.toList with
    | some n => .ok (set n draft)
    | none => .error .badNumber⟩

def real (long : String) (set : Float → Draft → Draft) : Switch :=
  ⟨long, none, .store fun text draft =>
    match Decimal.read? text.toList with
    | some x => .ok (set x draft)
    | none => .error .badNumber⟩

def format : Switch :=
  ⟨"format", some 'f', .store fun text draft =>
    match text with
    | "text" => .ok { draft with format := some .text }
    | "json" => .ok { draft with format := some .json }
    | "tsv" => .ok { draft with format := some .tsv }
    | "csv" => .ok { draft with format := some .csv }
    | _ => .error .badChoice⟩

def shared : List Switch :=
  [⟨"verbose", some 'v', .mark fun draft => { draft with verbose := true }⟩,
    format,
    ⟨"help", some 'h', .ask .help⟩]

def general : List Switch := ⟨"version", some 'V', .ask .version⟩ :: shared

def output : Switch := path "output" (some 'o') fun text draft => { draft with output := some text }

def forSets : List Switch :=
  shared ++
    [⟨"all", none, .mark fun draft => { draft with policy.includeAll := true }⟩,
      natural "candidate-max-count" fun n draft => { draft with policy.maxCount := n },
      ⟨"allow-flagged", none, .mark fun draft => { draft with policy.allowFlagged := true }⟩,
      output]

def forRuns : List Switch :=
  forSets ++
    [natural "min-run" fun n draft => { draft with settings.minRun := n },
      natural "max-count" fun n draft => { draft with settings.maxCount := n },
      path "image" none fun text draft => { draft with image := some text },
      ⟨"dbname", none, .store fun text draft => .ok { draft with database := text }⟩,
      real "null-gap-weight" fun x draft => { draft with settings.nullGapWeight := x },
      natural "max-gap-blocks" fun n draft => { draft with settings.maxGapBlocks := n }]

def directory : Switch := path "report-dir" none fun text draft => { draft with directory := some text }

end Switch

structure Parsed where
  draft : Draft := {}
  met : List String := []
  pending : Option (Switch × Option String) := none
  hasDirectory : Bool := false

namespace Parsed

def store (parsed : Parsed) (switch : Switch) (text : String) : Except UsageError Parsed :=
  match switch.action with
  | .store set =>
    if parsed.met.contains switch.long then .error .repeated
    else do
      let draft ← set text parsed.draft
      return { parsed with draft, met := switch.long :: parsed.met }
  | _ => .ok parsed

def settle (parsed : Parsed) : Except UsageError Parsed :=
  match parsed.pending with
  | none => .ok parsed
  | some (_, none) => .error .badChoice
  | some (switch, some text) => { parsed with pending := none }.store switch text

def act (parsed : Parsed) (switch : Switch) : Except UsageError Parsed := do
  let parsed ← parsed.settle
  match switch.action with
  | .ask answer => throw answer
  | .mark set =>
    if parsed.met.contains switch.long then throw .repeated
    return { parsed with draft := set parsed.draft, met := switch.long :: parsed.met }
  | .store _ => return parsed

def take (parsed : Parsed) (switch : Switch) (attached : Option String) : Except UsageError Parsed :=
  match switch.action, attached with
  | .store _, some text => do (← parsed.settle).store switch text
  | .store _, none => do return { ← parsed.settle with pending := some (switch, none) }
  | _, some _ => .error .needlessValue
  | _, none => parsed.act switch

def takeLong (switches : List Switch) (parsed : Parsed) (name : String) (attached : Option String) :
    Except UsageError Parsed :=
  match switches.find? fun switch => switch.long = name with
  | some switch => parsed.take switch attached
  | none => .error .unknownArgument

def takeShort (switches : List Switch) (parsed : Parsed) : List Char → Except UsageError Parsed
  | [] => .ok parsed
  | c :: rest =>
    match switches.find? fun switch => switch.short = some c with
    | none => .error .unknownArgument
    | some switch =>
      match switch.action, rest with
      | .store _, [] => parsed.take switch none
      | .store _, '=' :: text => parsed.take switch (some (String.ofList text))
      | .store _, text => parsed.take switch (some (String.ofList text))
      | _, rest => do takeShort switches (← parsed.act switch) rest

end Parsed

inductive Argument where
  | separator
  | long (name : String) (value : Option String)
  | short (letters : List Char)
  | word (text : String)

def Argument.of (text : String) : Argument :=
  match text.toList with
  | ['-', '-'] => .separator
  | '-' :: '-' :: rest =>
    let name := rest.takeWhile (· ≠ '=')
    match rest.dropWhile (· ≠ '=') with
    | '=' :: value => .long (String.ofList name) (some (String.ofList value))
    | _ => .long (String.ofList name) none
  | '-' :: c :: rest => .short (c :: rest)
  | _ => .word text

structure Section where
  switches : List Switch
  isCommand : String → Bool
  word : Parsed → Bool → String → Except UsageError Parsed

namespace Section

def general : Section :=
  let isCommand := fun name : String => name = "runs" || name = "sets" || name = "help"
  { switches := Switch.general
    isCommand
    word := fun _ separated text =>
      if separated && isCommand text then .error .unknownArgument else .error .unknownCommand }

def ofCommand (switches : List Switch) : Section :=
  { switches
    isCommand := fun _ => false
    word := fun parsed _ text =>
      if parsed.hasDirectory then .error .unknownArgument
      else do return { ← parsed.settle with pending := some (Switch.directory, some text), hasDirectory := true } }

def read (part : Section) (separated : Bool) (parsed : Parsed) :
    List String → Except UsageError (Parsed × List String)
  | [] => .ok (parsed, [])
  | argument :: rest =>
    if separated then do part.read true (← part.word parsed true argument) rest
    else
      match Argument.of argument with
      | .separator => part.read true parsed rest
      | .long name value => do part.read false (← parsed.takeLong part.switches name value) rest
      | .short letters => do part.read false (← parsed.takeShort part.switches letters) rest
      | .word text =>
        match parsed.pending with
        | some (switch, none) => part.read false { parsed with pending := some (switch, some text) } rest
        | _ =>
          if part.isCommand text then .ok (parsed, argument :: rest)
          else do part.read false (← part.word parsed false text) rest

end Section

inductive Command where
  | runs (directory : String) (policy : Policy) (settings : Settings) (image : Option String) (database : String)
      (output : Option String)
  | sets (directory : String) (policy : Policy) (output : Option String)

structure Invocation where
  command : Command
  verbose : Bool
  format : Format

namespace Invocation

def readCommand (name : String) (arguments : List String) : Except UsageError (Draft × Command) := do
  let switches := if name = "runs" then Switch.forRuns else Switch.forSets
  let (parsed, _) ← (Section.ofCommand switches).read false {} arguments
  let draft := (← parsed.settle).draft
  match draft.directory with
  | none => throw .missingDirectory
  | some directory =>
    if name = "runs" then
      return (draft, .runs directory draft.policy draft.settings draft.image draft.database draft.output)
    else return (draft, .sets directory draft.policy draft.output)

def readHelp : List String → UsageError
  | [] => .help
  | [name] => if Section.general.isCommand name then .help else .unknownCommand
  | _ => .unknownCommand

def read (arguments : List String) : Except UsageError Invocation := do
  let (parsed, rest) ← Section.general.read false {} arguments
  match rest with
  | [] =>
    let parsed ← parsed.settle
    throw (if parsed.met.isEmpty then .nothingGiven else .missingCommand)
  | "help" :: names => throw (readHelp names)
  | name :: rest =>
    let (draft, command) ← readCommand name rest
    let general := (← parsed.settle).draft
    return { command
             verbose := general.verbose || draft.verbose
             format := (draft.format.or general.format).getD .text }

end Invocation

end FragmentSearch
