namespace FragmentSearch

inductive Fault where
  | missing
  | isDirectory
  | notDirectory
  | nameTooLong
  | embeddedNul
  | offsetTooLarge
  | shortRead
  | unexpectedEnd
  | notCompressed
  | corruptDeflate
  | checksumMismatch
  | other (text : String)
deriving DecidableEq

def Fault.message : Fault → String
  | .missing => "No such file or directory (os error 2)"
  | .isDirectory => "Is a directory (os error 21)"
  | .notDirectory => "Not a directory (os error 20)"
  | .nameTooLong => "File name too long (os error 36)"
  | .embeddedNul => "file name contained an unexpected NUL byte"
  | .offsetTooLarge => "Invalid argument (os error 22)"
  | .shortRead => "failed to fill whole buffer"
  | .unexpectedEnd => "unexpected end of file"
  | .notCompressed => "invalid gzip header"
  | .corruptDeflate => "corrupt deflate stream"
  | .checksumMismatch => "corrupt gzip stream does not have a matching checksum"
  | .other text => text

inductive LineFault where
  | notUtf8
  | associationRecord
  | sourceRecord
  | unknownStart (text : String)
  | fieldCount (found : Nat)
  | badOffset (field : String)
  | emptyHash
deriving DecidableEq

def LineFault.message : LineFault → String
  | .notUtf8 => "stream did not contain valid UTF-8"
  | .associationRecord => "Invalid record: hash record"
  | .sourceRecord => "Invalid record: source record"
  | .unknownStart text => "Invalid record: unrecognized record start: " ++ text
  | .fieldCount found => "Invalid record: expected 3 tab-separated fields, found " ++ toString found
  | .badOffset field => "Invalid field 'disk_offset': " ++ field
  | .emptyHash => "Invalid field 'hash': "

inductive Level where
  | debug
  | info
  | warn
deriving DecidableEq

def Level.label : Level → String
  | .debug => "DEBUG"
  | .info => " INFO"
  | .warn => " WARN"

structure Event where
  level : Level
  message : String

def isTerminalControl (c : Char) : Bool :=
  c = '\x07' || c = '\x08' || c = '\x0c' || c = '\x1b' || (0x7F ≤ c.toNat && c.toNat ≤ 0x9F)

def shownChar (c : Char) : List Char :=
  if !isTerminalControl c then [c]
  else
    let digits := [Nat.digitChar (c.toNat / 16), Nat.digitChar (c.toNat % 16)]
    if c.toNat < 0x80 then '\\' :: 'x' :: digits else '\\' :: 'u' :: '\x7b' :: digits ++ ['\x7d']

def Event.line (event : Event) : String :=
  event.level.label ++ " " ++ String.ofList (event.message.toList.flatMap shownChar)

def Event.isShown (verbose : Bool) (event : Event) : Bool := verbose || event.level = .warn

def shownOption : Option Nat → String
  | none => "None"
  | some n => "Some(" ++ toString n ++ ")"

def shownSet (numbers : List Nat) : String :=
  "\x7b" ++ ", ".intercalate (numbers.map toString) ++ "\x7d"

end FragmentSearch
