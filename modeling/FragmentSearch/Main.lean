import Std.Time.Date.PlainDate
import Std.Time.DateTime.Timestamp
import FragmentSearch.Command
import FragmentSearch.Contents

namespace FragmentSearch.Moment

def padded (digits number : Nat) : String :=
  let text := (toString number).toList
  String.ofList (List.replicate (digits - text.length) '0' ++ text)

def fraction (nanoseconds : Nat) : String :=
  if nanoseconds = 0 then ""
  else if nanoseconds % 1000000 = 0 then "." ++ padded 3 (nanoseconds / 1000000)
  else if nanoseconds % 1000 = 0 then "." ++ padded 6 (nanoseconds / 1000)
  else "." ++ padded 9 nanoseconds

def written (nanoseconds : Nat) : String :=
  let seconds := nanoseconds / 1000000000
  let date := Std.Time.PlainDate.ofEpochDay ⟨(seconds / 86400 : Nat)⟩
  padded 4 date.year.toNat ++ "-" ++ padded 2 date.month.val.toNat ++ "-" ++ padded 2 date.day.val.toNat ++ "T" ++
    padded 2 (seconds / 3600 % 24) ++ ":" ++ padded 2 (seconds / 60 % 60) ++ ":" ++ padded 2 (seconds % 60) ++
    fraction (nanoseconds % 1000000000) ++ "+00:00"

end FragmentSearch.Moment

namespace FragmentSearch

def Command.inputs (command : Command) : List String :=
  let streams := [associationFile, observationFile].flatMap fun name => [name, name ++ ".gz"]
  let others := match command with
    | .runs directory _ _ image database _ =>
      let path := joinPath directory database
      let opened := match Database.target path with
        | .ok (.file opened) => [opened]
        | _ => []
      path :: opened ++ image.toList
    | .sets .. => []
  command.directory :: streams.map (joinPath command.directory) ++ others

def Files.unmeasured (files : Files) (directory : String) : List String :=
  match (files.resolve directory associationFile).map files.feed with
  | some (.ok feed) => feed.records.items.filterMap fun
    | .description ⟨_, name, none⟩ => some name
    | _ => none
  | _ => []

namespace System

def fault : IO.Error → Fault
  | .noFileOrDirectory .. => .missing
  | .inappropriateType _ 21 _ => .isDirectory
  | .inappropriateType .. => .notDirectory
  | .invalidArgument _ 22 _ => .embeddedNul
  | .invalidArgument .. => .nameTooLong
  | error => .other error.toString

def stored (path : String) : IO (Except Fault Stored) := do
  try
    let bytes ← IO.FS.readBinFile path
    return .ok (.file (.ofBytes bytes))
  catch error =>
    match fault error with
    | .isDirectory => return .ok .directory
    | fault => return .error fault

def filesOf (found : List (String × Except Fault Stored)) : Files :=
  .ofStored fun path => (found.lookup path).getD (.error .missing)

def filesFor (command : Command) : IO Files := do
  let atPath (path : String) : IO (String × Except Fault Stored) := do return (path, ← stored path)
  let found ← command.inputs.mapM atPath
  let sources ← ((filesOf found).unmeasured command.directory).mapM atPath
  return filesOf (found ++ sources)

/-- Brings effects about, up to the first that the system refuses; what it answers then takes the place of what was
supposed of the files. -/
def perform (output : IO.FS.Stream) : List Effect → IO (Option (Files → Files))
  | [] => return none
  | .create path :: later => do
    let created ← try Except.ok <$> IO.FS.Handle.mk path .write catch error => pure (.error (fault error))
    match created with
    | .ok handle => perform (.ofHandle handle) later
    | .error fault => return some fun files => { files with creationFault := fun _ => some fault }
  | .write bytes :: later => do
    let refused ← try
        output.write bytes.toByteArray
        output.flush
        pure none
      catch error => pure (some (fault error))
    match refused with
    | none => perform output later
    | some fault => return some fun files => { files with writeFault := fun _ _ => some (0, fault) }
  | .leave companion :: later => do
    try IO.FS.writeBinFile companion.path companion.bytes.toByteArray catch _ => pure ()
    perform output later
  | .message _ :: later => perform output later

def run (arguments : List String) : IO UInt32 := do
  let now ← Std.Time.Timestamp.now
  let time := Moment.written now.toNanosecondsSinceUnixEpoch.val.toNat
  let files ← match Invocation.read arguments with
    | .ok invocation => filesFor invocation.command
    | .error _ => pure (filesOf [])
  let ending := program files time arguments
  let ending := match ← perform (← IO.getStdout) ending.effects with
    | none => ending
    | some refusal => program (refusal files) time arguments
  IO.eprint ending.errors
  return UInt32.ofNat ending.code

end System

end FragmentSearch

def main (arguments : List String) : IO UInt32 := FragmentSearch.System.run arguments
