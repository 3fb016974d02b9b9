import FragmentSearch.Decimal.Scaled

namespace FragmentSearch.Database

def isSpace (c : Char) : Bool := c = ' ' || ('\t' ≤ c && c ≤ '\r')

structure Numeral where
  negative : Bool
  whole : List Char
  places : Option (List Char)
  exponent : Option (Bool × List Char)
  rest : List Char

namespace Numeral

def splitDigits (text : List Char) : List Char × List Char :=
  (text.takeWhile Char.isDigit, text.dropWhile Char.isDigit)

def splitPlaces : List Char → Option (List Char) × List Char
  | '.' :: text =>
    let (places, rest) := splitDigits text
    (some places, rest)
  | text => (none, text)

def splitExponent : List Char → Option (Bool × List Char) × List Char
  | c :: text =>
    if c = 'e' || c = 'E' then
      let (negative, magnitude) := Decimal.takeSign text
      let (digits, rest) := splitDigits magnitude
      (some (negative, digits), rest)
    else (none, c :: text)
  | [] => (none, [])

def ofText (text : List Char) : Numeral :=
  let (negative, text) := Decimal.takeSign (text.dropWhile isSpace)
  let (whole, text) := splitDigits text
  let (places, text) := splitPlaces text
  let (exponent, text) := splitExponent text
  ⟨negative, whole, places, exponent, text.dropWhile isSpace⟩

def hasDigits (n : Numeral) : Bool := !n.whole.isEmpty || n.places.any (!·.isEmpty)

def exponentIsBare (n : Numeral) : Bool := n.exponent.any (·.2.isEmpty)

/-- The number has a fraction or an exponent. The letter of an exponent that stands alone makes none,
but it does not take away a fraction. -/
def isReal (n : Numeral) : Bool :=
  n.hasDigits && (n.places.isSome || (n.exponent.isSome && !n.exponentIsBare))

def isAll (n : Numeral) : Bool := n.hasDigits && n.rest.isEmpty && !n.exponentIsBare

def exponentLimit : Nat := 10000

def exponentOf (digits : List Char) : Nat :=
  digits.foldl (fun n c => if n < exponentLimit then 10 * n + (c.toNat - '0'.toNat) else exponentLimit) 0

def real (n : Numeral) : Float :=
  let power : Int := match n.exponent with
    | some (true, digits) => -exponentOf digits
    | some (false, digits) => exponentOf digits
    | none => 0
  let d := Decimal.keptDigits n.whole (n.places.getD [])
  Decimal.approximate n.negative ⟨d.digits, d.exponent + power⟩

def integer (n : Numeral) : Int :=
  let magnitude := Nat.ofDigitChars 10 n.whole 0
  if n.negative then -magnitude else magnitude

end Numeral

inductive Cell where
  | null
  | integer (value : Int)
  | real (value : Float)
  | text (bytes : List UInt8)
  | blob (bytes : List UInt8)

inductive Affinity where
  | blob
  | text
  | numeric
  | real
deriving DecidableEq

def integerLimit : Int := 0x8000000000000000

def fits (n : Int) : Bool := -integerLimit ≤ n && n < integerLimit

def wholeReal? (x : Float) : Option Int :=
  match Decimal.Binary.ofFloat x with
  | .finite negative significand exponent =>
    let (num, den) := Decimal.ratio significand exponent
    let whole : Int := if negative then -(num / den : Nat) else (num / den : Nat)
    if num % den = 0 && -integerLimit < whole && whole < integerLimit then some whole else none
  | _ => none

def realOfInt (n : Int) : Float := if n < 0 then -Decimal.ofNat n.natAbs else Decimal.ofNat n.natAbs

def characters (bytes : List UInt8) : List Char := bytes.map fun byte => Char.ofNat byte.toNat

def Numeral.cell (n : Numeral) : Cell :=
  if !n.isReal && fits n.integer then .integer n.integer else .real n.real

namespace Cell

def ofString (text : String) : Cell := .text text.toUTF8.toList

def ofReal (x : Float) : Cell :=
  match wholeReal? x with
  | some whole => .integer whole
  | none => .real x

def inNumericColumn : Cell → Cell
  | .real x => ofReal x
  | .text bytes =>
    let n := Numeral.ofText (characters bytes)
    if !n.isAll then .text bytes
    else match n.cell with
      | .real x => ofReal x
      | cell => cell
  | cell => cell

def bytes? : Cell → Option (List UInt8)
  | .null => none
  | .integer value => some (toString value).toUTF8.toList
  | .real value => some (Decimal.general value).toUTF8.toList
  | .text bytes => some bytes
  | .blob bytes => some bytes

def inTextColumn : Cell → Cell
  | .blob bytes => .blob bytes
  | cell => match cell.bytes? with
    | some bytes => .text bytes
    | none => .null

def inColumn (affinity : Affinity) (cell : Cell) : Cell :=
  match affinity with
  | .blob => cell
  | .text => cell.inTextColumn
  | .numeric => cell.inNumericColumn
  | .real => match cell.inNumericColumn with
    | .integer value => .real (realOfInt value)
    | cell => cell

def number : Cell → Cell
  | .text bytes => (Numeral.ofText (characters bytes)).cell
  | .blob bytes => (Numeral.ofText (characters bytes)).cell
  | cell => cell

def add (a b : Cell) : Cell :=
  match a.number, b.number with
  | .integer m, .integer n => if fits (m + n) then .integer (m + n) else .real (realOfInt m + realOfInt n)
  | .integer m, .real y => .real (realOfInt m + y)
  | .real x, .integer n => .real (x + realOfInt n)
  | .real x, .real y => .real (x + y)
  | _, _ => .null

def isAtMost (limit : Int) : Cell → Bool
  | .integer value => value ≤ limit
  | .real value =>
    match Decimal.Binary.ofFloat value with
    | .finite negative significand exponent =>
      let (num, den) := Decimal.ratio significand exponent
      (if negative then -(num : Int) else num) ≤ limit * den
    | .infinite negative => negative
    | .nan => false
  | _ => false

def isAbove (limit : Int) (cell : Cell) : Bool :=
  match cell with
  | .integer _ => !cell.isAtMost limit
  | .real value => !value.isNaN && !cell.isAtMost limit
  | _ => false

def isInteger (n : Int) (x : Float) : Bool :=
  match Decimal.Binary.ofFloat x with
  | .finite negative significand exponent =>
    let (num, den) := Decimal.ratio significand exponent
    (if negative then -(num : Int) else num) = n * den
  | _ => false

def sameKey : Cell → Cell → Bool
  | .integer m, .integer n => m = n
  | .integer m, .real y => isInteger m y
  | .real x, .integer n => isInteger n x
  | .real x, .real y => x == y
  | .text a, .text b => a = b
  | .blob a, .blob b => a = b
  | _, _ => false

def rank : Cell → Nat
  | .null => 0
  | .integer _ => 1
  | .real _ => 1
  | .text _ => 2
  | .blob _ => 3

def order (a b : Cell) : Ordering :=
  match a, b with
  | .text a, .text b => compare a b
  | .blob a, .blob b => compare a b
  | .integer m, .integer n => compare m n
  | .integer m, .real y => (compareReal m y).swap
  | .real x, .integer n => compareReal n x
  | .real x, .real y => if x < y then .lt else if y < x then .gt else .eq
  | a, b => compare a.rank b.rank
where
  compareReal (n : Int) (x : Float) : Ordering :=
    if isInteger n x then .eq else if (Cell.real x).isAtMost n then .lt else .gt

def rowOrder : List Cell → List Cell → Ordering
  | a :: as, b :: bs => (order a b).then (rowOrder as bs)
  | [], [] => .eq
  | [], _ :: _ => .lt
  | _ :: _, [] => .gt

end Cell

end FragmentSearch.Database
