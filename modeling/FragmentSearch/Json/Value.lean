import FragmentSearch.Text

namespace FragmentSearch.Json

inductive Value where
  | null
  | bool (value : Bool)
  | number (lexeme : List Char)
  | text (raw : List Char)
  | list (items : List Value)
  | object (members : List (List Char × Value))

def isSpace (c : Char) : Bool := c = ' ' || c = '\n' || c = '\t' || c = '\r'

def isFractionAndExponent (text : List Char) : Bool :=
  let tail := match text with
    | '.' :: d :: rest => if d.isDigit then rest.dropWhile Char.isDigit else text
    | _ => text
  match tail with
  | [] => true
  | c :: rest =>
    let digits := match rest with
      | '+' :: digits => digits
      | '-' :: digits => digits
      | digits => digits
    (c = 'e' || c = 'E') && !digits.isEmpty && digits.all Char.isDigit

def isUnsigned : List Char → Bool
  | '0' :: rest => isFractionAndExponent rest
  | d :: rest => d.isDigit && isFractionAndExponent (rest.dropWhile Char.isDigit)
  | [] => false

def isNumber (text : List Char) : Bool :=
  isUnsigned (match text with | '-' :: rest => rest | _ => text)

def Value.natural? : Value → Option Nat
  | .number lexeme => Text.word? lexeme
  | _ => none

def Value.ofNat (n : Nat) : Value := .number (toString n).toList

def Value.ofOption {α : Type} (write : α → Value) : Option α → Value
  | some a => write a
  | none => .null

def hexDigit? (c : Char) : Option Nat :=
  if c.isDigit then some (c.toNat - '0'.toNat)
  else if 'a' ≤ c && c ≤ 'f' then some (c.toNat - 'a'.toNat + 10)
  else if 'A' ≤ c && c ≤ 'F' then some (c.toNat - 'A'.toNat + 10)
  else none

def unit? (a b c d : Char) : Option Nat :=
  match hexDigit? a, hexDigit? b, hexDigit? c, hexDigit? d with
  | some a, some b, some c, some d => some (4096 * a + 256 * b + 16 * c + d)
  | _, _, _, _ => none

def isHighSurrogate (unit : Nat) : Bool := 0xD800 ≤ unit && unit < 0xDC00

def isLowSurrogate (unit : Nat) : Bool := 0xDC00 ≤ unit && unit < 0xE000

def joinSurrogates (high low : Nat) : Char := Char.ofNat (0x10000 + 1024 * (high - 0xD800) + (low - 0xDC00))

def named? (c : Char) : Option Char :=
  match c with
  | '"' => some '"'
  | '\\' => some '\\'
  | '/' => some '/'
  | 'b' => some '\x08'
  | 'f' => some '\x0c'
  | 'n' => some '\n'
  | 'r' => some '\r'
  | 't' => some '\t'
  | _ => none

def unescapeFrom (read : List Char) : List Char → Option (List Char)
  | [] => some read.reverse
  | '\\' :: 'u' :: a :: b :: c :: d :: rest =>
    match unit? a b c d with
    | none => none
    | some unit =>
      if isLowSurrogate unit then none
      else if isHighSurrogate unit then
        match rest with
        | '\\' :: 'u' :: e :: f :: g :: h :: tail =>
          match unit? e f g h with
          | some low => if isLowSurrogate low then unescapeFrom (joinSurrogates unit low :: read) tail else none
          | none => none
        | _ => none
      else unescapeFrom (Char.ofNat unit :: read) rest
  | '\\' :: c :: rest =>
    match named? c with
    | some c => unescapeFrom (c :: read) rest
    | none => none
  | '\\' :: [] => none
  | c :: rest => unescapeFrom (c :: read) rest

def unescape (raw : List Char) : Option (List Char) := unescapeFrom [] raw

def Value.string? : Value → Option String
  | .text raw => (unescape raw).map String.ofList
  | _ => none

def escapeChar (c : Char) : List Char :=
  match c with
  | '"' => ['\\', '"']
  | '\\' => ['\\', '\\']
  | '\x08' => ['\\', 'b']
  | '\x0c' => ['\\', 'f']
  | '\n' => ['\\', 'n']
  | '\r' => ['\\', 'r']
  | '\t' => ['\\', 't']
  | c => if c < ' ' then ['\\', 'u', '0', '0', Nat.digitChar (c.toNat / 16), Nat.digitChar (c.toNat % 16)] else [c]

def escape (text : List Char) : List Char := text.flatMap escapeChar

def Value.ofString (text : String) : Value := .text (escape text.toList)

def Value.ofMembers (members : List (String × Value)) : Value :=
  .object (members.map fun (name, value) => (escape name.toList, value))

end FragmentSearch.Json
