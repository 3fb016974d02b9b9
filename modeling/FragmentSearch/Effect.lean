import FragmentSearch.Files
import FragmentSearch.Fault

namespace FragmentSearch

inductive Failure where
  | noDirectory (path : String)
  | inputMissing (path : String)
  | inputFault (fault : Fault)
  | outputFault (fault : Fault)
  | writeFault (fault : Fault)

def Failure.message : Failure → String
  | .noDirectory path => path ++ " does not exist"
  | .inputMissing path => "Input not found: " ++ path
  | .inputFault fault => "IO error: " ++ fault.message
  | .outputFault fault => fault.message
  | .writeFault fault => fault.message

def Failure.cause : Failure → Option Fault
  | .inputFault fault => some fault
  | _ => none

inductive Message where
  | event (event : Event)
  | note (text : String)

def Message.isShown (verbose : Bool) : Message → Bool
  | .event logged => logged.isShown verbose
  | .note _ => true

def Message.line : Message → String
  | .event logged => logged.line
  | .note text => text

/-- What a command does besides reading. What it writes goes into the file that it has created, and to the
standard output if it has created none. -/
inductive Effect where
  | message (message : Message)
  | leave (companion : Companion)
  | create (path : String)
  | write (bytes : List UInt8)

def Effect.message? : Effect → Option Message
  | .message told => some told
  | _ => none

abbrev Work := ExceptT Failure (StateM (List Effect))

namespace Work

/-- Effects are kept in reverse. -/
def perform (effects : List Effect) : Work Unit := modify fun earlier => effects.reverse ++ earlier

def log (events : List Event) : Work Unit := perform ((events.map .event).map .message)

def note (text : String) : Work Unit := perform [.message (.note text)]

def info (text : String) : Work Unit := log [⟨.info, text⟩]

def warn (text : String) : Work Unit := log [⟨.warn, text⟩]

def orFail {α ε : Type} (failure : ε → Failure) : Except ε α → Work α
  | .ok a => return a
  | .error e => throw (failure e)

end Work

inductive Sink (Place : Type) where
  | standard
  | file (place : Place)
  | device

structure World (Place : Type) where
  files : Place → Option (List UInt8)
  sink : Sink Place := .standard
  printed : List UInt8 := []

namespace World

variable {Place : Type} [DecidableEq Place]

def put (world : World Place) (place : Place) (bytes : List UInt8) : World Place :=
  { world with files := fun other => if other = place then some bytes else world.files other }

/-- The world after an effect. Several paths may lead to one place, and one that leads to none is that of a device. A
file that is created anew is emptied. -/
def step (place : String → Option Place) (world : World Place) : Effect → World Place
  | .message _ => world
  | .leave companion =>
    match place companion.path with
    | some beside => world.put beside companion.bytes
    | none => world
  | .create path =>
    match place path with
    | some created => { world.put created [] with sink := .file created }
    | none => { world with sink := .device }
  | .write bytes =>
    match world.sink with
    | .standard => { world with printed := world.printed ++ bytes }
    | .file opened => world.put opened ((world.files opened).getD [] ++ bytes)
    | .device => world

def after (place : String → Option Place) (effects : List Effect) (world : World Place) : World Place :=
  effects.foldl (step place) world

end World

end FragmentSearch
