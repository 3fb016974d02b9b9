import FragmentSearch.Database.Statement

namespace FragmentSearch.Database

inductive Target where
  | memory
  | file (path : String)

inductive NameFault where
  | authority (text : String)
  | unknownMode (kind mode : String)
  | forbiddenMode (mode : String)
  | unknownSystem (name : String)

def NameFault.message : NameFault → String
  | .authority text => "invalid uri authority: " ++ text
  | .unknownMode kind mode => "no such " ++ kind ++ " mode: " ++ mode
  | .forbiddenMode mode => "access mode not allowed: " ++ mode
  | .unknownSystem name => "no such vfs: " ++ name

def memoryName : String := ":memory:"

def isHexDigit (c : Char) : Bool := c.isDigit || ('a' ≤ c && c ≤ 'f') || ('A' ≤ c && c ≤ 'F')

def unescaped : List Char → List Char
  | '%' :: a :: b :: rest =>
    if !(isHexDigit a && isHexDigit b) then '%' :: unescaped (a :: b :: rest)
    else if hexNumber [a, b] = 0 then []
    else Char.ofNat (hexNumber [a, b]) :: unescaped rest
  | c :: rest => c :: unescaped rest
  | [] => []

def textOf (characters : List Char) : String := (String.fromUTF8? (bytesOf characters).toByteArray).getD ""

def option (part : List Char) : String × String :=
  (textOf (unescaped (part.takeWhile (· ≠ '='))), textOf (unescaped ((part.dropWhile (· ≠ '=')).drop 1)))

def applyOption (inMemory : Bool) (option : String × String) : Except NameFault Bool :=
  match option with
  | ("cache", mode) =>
    if mode = "shared" || mode = "private" then .ok inMemory else .error (.unknownMode "cache" mode)
  | ("mode", "ro") => .ok false
  | ("mode", "memory") => .ok true
  | ("mode", mode) =>
    if mode = "rw" || mode = "rwc" then .error (.forbiddenMode mode) else .error (.unknownMode "access" mode)
  | _ => .ok inMemory

def systems : List String := ["unix", "unix-none", "unix-dotfile", "unix-excl", "memdb"]

def ofUri (text : List Char) : Except NameFault Target := do
  let text := text.takeWhile (· ≠ '#')
  let path := textOf (unescaped (text.takeWhile (· ≠ '?')))
  let query := (text.dropWhile (· ≠ '?')).drop 1
  let options := ((query.splitOn '&').map option).filter (!·.1.isEmpty)
  let inMemory ← options.foldlM applyOption false
  let system := ((options.filter (·.1 = "vfs")).getLast?.map (·.2)).getD "unix"
  if !systems.contains system then throw (.unknownSystem system)
  return if inMemory || system = "memdb" || path.isEmpty || path = memoryName then .memory else .file path

def target (name : String) : Except NameFault Target :=
  match characters name.toUTF8.toList with
  | 'f' :: 'i' :: 'l' :: 'e' :: ':' :: '/' :: '/' :: text =>
    let authority := text.takeWhile (· ≠ '/')
    if authority = [] || authority = "localhost".toList then ofUri (text.dropWhile (· ≠ '/'))
    else .error (.authority (textOf authority))
  | 'f' :: 'i' :: 'l' :: 'e' :: ':' :: text => ofUri text
  | _ => .ok (if name.isEmpty || name = memoryName then .memory else .file name)

end FragmentSearch.Database
