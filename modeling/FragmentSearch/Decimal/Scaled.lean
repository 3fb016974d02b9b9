import FragmentSearch.Decimal.Written

/-!
Scaling by powers of ten with a precision of sixty-four bits. Every product is rounded, so a decimal
that is read in this way need not be the nearest double, and the fifteen digits that are written are
those of a product that may be a little off.
-/

namespace FragmentSearch

structure Scaled where
  significand : Nat
  exponent : Int

namespace Scaled

def rounded (significand : Nat) (exponent : Int) : Scaled :=
  let surplus := significand.log2 - 63
  ⟨Decimal.roundDiv .even significand (Nat.pow 2 surplus), exponent + surplus⟩

def nearest (num den : Nat) : Scaled :=
  let places := den.log2 + 64 - num.log2
  let extra := num.log2 - den.log2 - 64
  let (num, den) := (num * Nat.pow 2 places, den * Nat.pow 2 extra)
  let exponent : Int := (extra : Int) - places
  if num / den < wordLimit then ⟨Decimal.roundDiv .even num den, exponent⟩
  else ⟨Decimal.roundDiv .even num (2 * den), exponent + 1⟩

def tenTo (power : Int) : Scaled := nearest (Nat.pow 10 power.toNat) (Nat.pow 10 (-power).toNat)

def mul (x y : Scaled) : Scaled := rounded (x.significand * y.significand) (x.exponent + y.exponent)

def ratio (x : Scaled) : Nat × Nat := Decimal.ratio x.significand x.exponent

def isBelow (x y : Scaled) : Bool := x.ratio.1 * y.ratio.2 < y.ratio.1 * x.ratio.2

def timesTenTo (x : Scaled) (power : Int) : Scaled :=
  let unit (step : Nat) : Scaled := tenTo (if power < 0 then -step else step)
  let times (step count : Nat) (x : Scaled) : Scaled := Nat.repeat (·.mul (unit step)) count x
  let count := power.natAbs
  times 1 (count % 10) (times 10 (count / 10 % 10) (times 100 (count / 100) x))

def greatest : Scaled := ⟨2 * Decimal.leadingBit - 1, 971⟩

def bits (x : Scaled) : Nat :=
  if greatest.isBelow x then Decimal.infinityBits else Decimal.nearestBits x.ratio.1 x.ratio.2

def scaleWhile (condition : Scaled → Bool) (step : Int) : (bound : Nat) → Scaled × Int → Scaled × Int
  | 0, state => state
  | bound + 1, (x, power) =>
    if condition x then scaleWhile condition step bound (x.mul (tenTo step), power - step) else (x, power)

def normalized (x : Scaled) : Scaled × Int :=
  let atLeast (power : Int) (x : Scaled) : Bool := !x.isBelow (tenTo power)
  let below (power : Int) (x : Scaled) : Bool := x.isBelow (tenTo power)
  if atLeast 19 x then
    scaleWhile (atLeast 19) (-1) 20 (scaleWhile (atLeast 29) (-10) 20 (scaleWhile (atLeast 119) (-100) 20 (x, 0)))
  else
    scaleWhile (below 17) 1 20 (scaleWhile (below 7) 10 20 (scaleWhile (below (-97)) 100 20 (x, 0)))

end Scaled

namespace Decimal

/-- Once the digits that are kept make this number, further digits only count as powers of ten. -/
def digitLimit : Nat := 1844674407370955160

def keptDigits (whole places : List Char) : Decimal :=
  let value (c : Char) : Nat := c.toNat - '0'.toNat
  let before (d : Decimal) (c : Char) : Decimal :=
    if d.digits < digitLimit then ⟨10 * d.digits + value c, d.exponent⟩ else ⟨d.digits, d.exponent + 1⟩
  let behind (d : Decimal) (c : Char) : Decimal :=
    if d.digits < digitLimit then ⟨10 * d.digits + value c, d.exponent - 1⟩ else d
  places.foldl behind (whole.foldl before ⟨0, 0⟩)

def balanced (d : Decimal) : (bound : Nat) → Decimal
  | 0 => d
  | bound + 1 =>
    if 0 < d.exponent && d.digits < (wordLimit - 1) / 10 then balanced ⟨10 * d.digits, d.exponent - 1⟩ bound
    else if d.exponent < 0 && d.digits % 10 = 0 then balanced ⟨d.digits / 10, d.exponent + 1⟩ bound
    else d

def approximate (negative : Bool) (d : Decimal) : Float :=
  let d := if d.digits = 0 then ⟨0, 0⟩ else d.balanced 20
  let bits := if d.digits = 0 then 0 else ((Scaled.rounded d.digits 0).timesTenTo d.exponent).bits
  Float.ofBits (UInt64.ofNat (bits + if negative then signBit else 0))

def fifteenDigits (significand : Nat) (exponent : Int) : Decimal :=
  let (scaled, power) := Scaled.normalized ⟨significand, exponent⟩
  let whole := scaled.ratio.1 / scaled.ratio.2
  let surplus := (toString whole).length - 15
  let digits := (whole / Nat.pow 10 (surplus - 1) + 5) / 10
  withoutEndZeros ⟨digits, power + surplus⟩ 15

def general (x : Float) : String :=
  match Binary.ofFloat x with
  | .nan => ""
  | .infinite negative => signText negative ++ "Inf"
  | .finite _ 0 _ => "0.0"
  | .finite negative significand exponent =>
    let d := fifteenDigits significand exponent
    let digits := (toString d.digits).toList
    let leading := d.exponent + digits.length - 1
    let withPlaces (whole places : String) : String := whole ++ "." ++ (if places.isEmpty then "0" else places)
    signText negative ++
      if -4 ≤ leading && leading < 15 then withPlaces d.positional.1 d.positional.2
      else
        let power := toString leading.natAbs
        withPlaces (String.ofList (digits.take 1)) (String.ofList (digits.drop 1)) ++ "e" ++
          (if leading < 0 then "-" else "+") ++ zeros (2 - power.length) ++ power

end Decimal

end FragmentSearch
