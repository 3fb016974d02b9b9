namespace FragmentSearch.Decimal

def leadingBit : Nat := 0x10000000000000

def signBit : Nat := 0x8000000000000000

def specialExponent : Nat := 2047

inductive Binary where
  | nan
  | infinite (negative : Bool)
  | finite (negative : Bool) (significand : Nat) (exponent : Int)

def Binary.ofBits (bits : Nat) : Binary :=
  let negative := decide (bits / signBit % 2 = 1)
  let biased : Nat := bits / leadingBit % (specialExponent + 1)
  let fraction := bits % leadingBit
  if biased = specialExponent then if fraction = 0 then .infinite negative else .nan
  else if biased = 0 then .finite negative fraction (-1074)
  else .finite negative (leadingBit + fraction) ((biased : Int) - 1075)

def Binary.ofFloat (x : Float) : Binary := ofBits x.toBits.toNat

/-- Position of a double in the total order of all doubles: negative ones first and reversed, minus
zero just below zero, and the NaNs at the two ends. -/
def orderKey (x : Float) : Int :=
  let bits := x.toBits.toNat
  if bits < signBit then bits else (signBit : Int) - 1 - bits

def ofNat (n : Nat) : Float := n.toUInt64.toFloat

inductive Tie where
  | even
  | up
deriving DecidableEq

def roundDiv (tie : Tie) (num den : Nat) : Nat :=
  let quotient := num / den
  let rest := num % den
  if 2 * rest < den then quotient
  else if den < 2 * rest then quotient + 1
  else if tie = .even && quotient % 2 = 0 then quotient
  else quotient + 1

def ratio (significand : Nat) (exponent : Int) : Nat × Nat :=
  (significand * Nat.pow 2 exponent.toNat, Nat.pow 2 (-exponent).toNat)

end FragmentSearch.Decimal

/-!
The shortest decimal that reads back as a given double. A decimal reads back when it lies between
the midpoints to the two neighbouring doubles, ends included when the significand is even. Grids of
powers of ten are tried from the coarsest; on the first with such a decimal the one nearest to the
double is taken.
-/

namespace FragmentSearch

structure Decimal where
  digits : Nat
  exponent : Int

namespace Decimal

structure Interval where
  low : Nat
  value : Nat
  high : Nat
  exponent : Int
  closed : Bool

/-- Midpoints are a quarter of a unit below when the double begins a new power of two, and else half
a unit away, so all three numbers are written in quarters. -/
def Interval.around (significand : Nat) (exponent : Int) : Interval :=
  { low := 4 * significand - (if significand = leadingBit && exponent ≠ -1074 then 1 else 2)
    value := 4 * significand
    high := 4 * significand + 2
    exponent := exponent - 2
    closed := significand % 2 = 0 }

def Interval.nearestOn (i : Interval) (tie : Tie) (grid : Int) : Option Nat :=
  let scale := Nat.pow 2 i.exponent.toNat * Nat.pow 10 (-grid).toNat
  let unit := Nat.pow 2 (-i.exponent).toNat * Nat.pow 10 grid.toNat
  let inside (k : Nat) : Bool :=
    if i.closed then i.low * scale ≤ k * unit && k * unit ≤ i.high * scale
    else i.low * scale < k * unit && k * unit < i.high * scale
  let below := i.value * scale / unit
  let nearest := roundDiv tie (i.value * scale) unit
  if inside nearest then some nearest
  else if inside below then some below
  else if inside (below + 1) then some (below + 1)
  else none

def coarsestGrid (significand : Nat) (exponent : Int) : Int :=
  (exponent + significand.log2 + 1) * 30103 / 100000 + 2

/-- The shortest decimal that reads back as the positive double `significand * 2 ^ exponent`.
Seventeen digits always suffice, so twenty grids from the coarsest are enough. -/
def shortest (tie : Tie) (significand : Nat) (exponent : Int) : Decimal :=
  let interval := Interval.around significand exponent
  let top := coarsestGrid significand exponent
  let onGrid (i : Nat) : Option Decimal := (interval.nearestOn tie (top - i)).map (⟨·, top - i⟩)
  ((List.range 22).findSome? onGrid).getD ⟨0, 0⟩

end Decimal

end FragmentSearch
