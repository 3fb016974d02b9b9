import FragmentSearch.Decimal.Binary
import FragmentSearch.Text

namespace FragmentSearch.Decimal

def infinityBits : Nat := specialExponent * leadingBit

def nearestBits (num den : Nat) : Nat :=
  if num = 0 then 0
  else
    let lowest : Int := (num.log2 : Int) - den.log2 - 53
    let (n, d) := (num * Nat.pow 2 (-lowest).toNat, den * Nat.pow 2 lowest.toNat)
    let exponent := max (if 2 * leadingBit * d ≤ n then lowest + 1 else lowest) (-1074)
    let significand := roundDiv .even (num * Nat.pow 2 (-exponent).toNat) (den * Nat.pow 2 exponent.toNat)
    min ((exponent + 1074).toNat * leadingBit + significand) infinityBits

def ofScientific (negative : Bool) (digits : Nat) (exponent : Int) : Float :=
  let magnitude := exponent + (toString digits).length
  let bits :=
    if digits = 0 || magnitude < -400 then 0
    else if 400 < magnitude then infinityBits
    else nearestBits (digits * Nat.pow 10 exponent.toNat) (Nat.pow 10 (-exponent).toNat)
  Float.ofBits (UInt64.ofNat (bits + if negative then signBit else 0))

def infinity : Float := Float.ofBits (UInt64.ofNat infinityBits)

def notANumber : Float := Float.ofBits 0x7FF8000000000000

def takeSign : List Char → Bool × List Char
  | '-' :: text => (true, text)
  | '+' :: text => (false, text)
  | text => (false, text)

def exponent? : List Char → Option Int
  | [] => some 0
  | c :: text =>
    if c = 'e' || c = 'E' then
      let (negative, magnitude) := takeSign text
      (Text.digits? magnitude).map fun n => if negative then -n else n
    else none

def unsigned? (negative : Bool) (text : List Char) : Option Float :=
  let whole := text.takeWhile Char.isDigit
  let (places, tail) := match text.dropWhile Char.isDigit with
    | '.' :: rest => (rest.takeWhile Char.isDigit, rest.dropWhile Char.isDigit)
    | rest => ([], rest)
  match Text.digits? (whole ++ places), exponent? tail with
  | some digits, some exponent => some (ofScientific negative digits (exponent - places.length))
  | _, _ => none

def read? (text : List Char) : Option Float :=
  let (negative, magnitude) := takeSign text
  let word := magnitude.map Char.toLower
  if word = "inf".toList || word = "infinity".toList then some (if negative then -infinity else infinity)
  else if word = "nan".toList then some notANumber
  else unsigned? negative magnitude

def zeros (n : Nat) : String := String.ofList (List.replicate n '0')

def signText (negative : Bool) : String := if negative then "-" else ""

def positional (d : Decimal) : String × String :=
  let digits := (toString d.digits).toList
  if 0 ≤ d.exponent then (String.ofList digits ++ zeros d.exponent.toNat, "")
  else
    let places := (-d.exponent).toNat
    if places < digits.length then
      (String.ofList (digits.take (digits.length - places)), String.ofList (digits.drop (digits.length - places)))
    else ("0", zeros (places - digits.length) ++ String.ofList digits)

def plain (x : Float) : String :=
  match Binary.ofFloat x with
  | .nan => "NaN"
  | .infinite negative => signText negative ++ "inf"
  | .finite negative 0 _ => signText negative ++ "0"
  | .finite negative significand exponent =>
    let (whole, places) := (shortest .up significand exponent).positional
    signText negative ++ whole ++ (if places.isEmpty then "" else "." ++ places)

def scientific (d : Decimal) : String :=
  let digits := (toString d.digits).toList
  let exponent := d.exponent + digits.length - 1
  let places := String.ofList (digits.drop 1)
  String.ofList (digits.take 1) ++ (if places.isEmpty then "" else "." ++ places) ++ "e" ++
    (if exponent < 0 then "-" else "+") ++ toString exponent.natAbs

def marked (d : Decimal) : String :=
  let magnitude := d.exponent + (toString d.digits).length
  if -5 < magnitude && magnitude ≤ 16 then
    let (whole, places) := d.positional
    whole ++ "." ++ (if places.isEmpty then "0" else places)
  else d.scientific

def marked? (x : Float) : Option String :=
  match Binary.ofFloat x with
  | .finite negative 0 _ => some (signText negative ++ "0.0")
  | .finite negative significand exponent =>
    some (signText negative ++ (shortest .even significand exponent).marked)
  | _ => none

def pointed (places units : Nat) : String :=
  let tail := toString (units % Nat.pow 10 places)
  if places = 0 then toString units
  else toString (units / Nat.pow 10 places) ++ "." ++ zeros (places - tail.length) ++ tail

def fixed (places : Nat) (x : Float) : String :=
  match Binary.ofFloat x with
  | .nan => "NaN"
  | .infinite negative => signText negative ++ "inf"
  | .finite negative significand exponent =>
    let (num, den) := ratio significand exponent
    signText negative ++ pointed places (roundDiv .even (num * Nat.pow 10 places) den)

def withoutEndZeros (d : Decimal) : (bound : Nat) → Decimal
  | 0 => d
  | bound + 1 => if d.digits % 10 = 0 then withoutEndZeros ⟨d.digits / 10, d.exponent + 1⟩ bound else d

end FragmentSearch.Decimal
