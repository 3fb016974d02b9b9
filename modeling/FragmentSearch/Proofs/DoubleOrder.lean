import FragmentSearch.Decimal.Binary
import Mathlib.Algebra.Order.Field.Power
import Mathlib.Algebra.Order.Field.Rat
import Mathlib.Order.Monotone.Basic
import Mathlib.Tactic.Linarith
import Mathlib.Tactic.Positivity

namespace FragmentSearch.Decimal

def Binary.exact : Binary → ℚ
  | .finite negative significand exponent => (if negative then -1 else 1) * (significand * 2 ^ exponent)
  | _ => 0

def Binary.isFinite : Binary → Bool
  | .finite .. => true
  | _ => false

def exact (x : Float) : ℚ := (Binary.ofFloat x).exact

/-- The magnitude of a double by its bits, in units of the least one that is positive. -/
def units (bits : Nat) : Nat :=
  if bits / leadingBit = 0 then bits % leadingBit
  else (leadingBit + bits % leadingBit) * 2 ^ (bits / leadingBit - 1)

theorem units_strictMono : StrictMono units := by
  apply strictMono_nat_of_lt_succ
  intro bits
  have fraction : bits % leadingBit < leadingBit := Nat.mod_lt _ (by decide)
  rcases Nat.lt_or_eq_of_le fraction with inside | last
  · have biased : (bits + 1) / leadingBit = bits / leadingBit := by
      simp only [leadingBit] at *
      omega
    have next : (bits + 1) % leadingBit = bits % leadingBit + 1 := by
      simp only [leadingBit] at *
      omega
    rw [units, units, biased, next]
    split
    · exact Nat.lt_succ_self _
    · exact Nat.mul_lt_mul_of_pos_right (by omega) (Nat.two_pow_pos _)
  · -- The significand is at its end, so the exponent goes up by one.
    have biased : (bits + 1) / leadingBit = bits / leadingBit + 1 := by
      simp only [leadingBit] at *
      omega
    have next : (bits + 1) % leadingBit = 0 := by
      simp only [leadingBit] at *
      omega
    rw [units, units, biased, next, if_neg (Nat.succ_ne_zero _), Nat.add_zero, Nat.add_sub_cancel]
    split
    · rename_i subnormal
      rw [subnormal, Nat.pow_zero, Nat.mul_one]
      exact fraction
    · rename_i normal
      obtain ⟨n, hn⟩ := Nat.exists_eq_succ_of_ne_zero normal
      rw [hn, Nat.succ_sub_one, Nat.pow_succ', ← Nat.mul_assoc]
      exact Nat.mul_lt_mul_of_pos_right (by omega) (Nat.two_pow_pos _)

theorem exact_ofBits {bits : Nat} (word : bits < 2 * signBit) (finite : (Binary.ofBits bits).isFinite = true) :
    (Binary.ofBits bits).exact =
      (if signBit ≤ bits then -1 else 1) * (units (bits % signBit) * 2 ^ (-1074 : Int)) := by
  have sign : (bits / signBit % 2 = 1) = (signBit ≤ bits) := by
    simp only [signBit, eq_iff_iff] at *
    omega
  have biased : bits / leadingBit % (specialExponent + 1) = bits % signBit / leadingBit := by
    simp only [leadingBit, signBit, specialExponent] at *
    omega
  have fraction : bits % leadingBit = bits % signBit % leadingBit := by
    simp only [leadingBit, signBit]
    omega
  simp only [Binary.ofBits, sign, biased, fraction] at finite ⊢
  rw [units]
  generalize bits % signBit / leadingBit = biased at finite ⊢
  split at finite
  · split at finite <;> contradiction
  · rename_i notSpecial
    rw [if_neg notSpecial]
    split
    · simp only [Binary.exact, decide_eq_true_eq]
    · rename_i normal
      obtain ⟨n, rfl⟩ := Nat.exists_eq_succ_of_ne_zero normal
      have exponent : ((n.succ : Nat) : Int) - 1075 = n + -1074 := by omega
      simp only [Binary.exact, decide_eq_true_eq, exponent, Nat.succ_sub_one]
      rw [zpow_add₀ two_ne_zero, zpow_natCast, ← mul_assoc (_ : ℚ) (2 ^ n), Nat.cast_mul, Nat.cast_pow, Nat.cast_ofNat]

variable {x y : Float}

theorem exact_eq (finite : (Binary.ofFloat x).isFinite = true) :
    exact x = (if signBit ≤ x.toBits.toNat then -1 else 1) *
      (units (x.toBits.toNat % signBit) * 2 ^ (-1074 : Int)) :=
  exact_ofBits x.toBits.toNat_lt finite

theorem orderKey_eq (x : Float) :
    orderKey x =
      if signBit ≤ x.toBits.toNat then -1 - ((x.toBits.toNat % signBit : Nat) : Int)
      else ((x.toBits.toNat % signBit : Nat) : Int) := by
  have word : x.toBits.toNat < 2 * signBit := x.toBits.toNat_lt
  rw [orderKey]
  generalize x.toBits.toNat = bits at word ⊢
  by_cases positive : bits < signBit
  · rw [if_pos positive, if_neg (Nat.not_le_of_lt positive), Nat.mod_eq_of_lt positive]
  · have negative := Nat.le_of_not_lt positive
    rw [if_neg positive, if_pos negative, Nat.mod_eq_sub_mod negative, Nat.mod_eq_of_lt (by omega)]
    omega

theorem exact_le_of_orderKey_le (hx : (Binary.ofFloat x).isFinite = true) (hy : (Binary.ofFloat y).isFinite = true)
    (before : orderKey x ≤ orderKey y) : exact x ≤ exact y := by
  have unit : (0 : ℚ) < 2 ^ (-1074 : Int) := by positivity
  have magnitudes {a b : Nat} (le : a ≤ b) :
      (units a : ℚ) * 2 ^ (-1074 : Int) ≤ units b * 2 ^ (-1074 : Int) :=
    mul_le_mul_of_nonneg_right (Nat.cast_le.mpr (units_strictMono.monotone le)) unit.le
  rw [orderKey_eq, orderKey_eq] at before
  rw [exact_eq hx, exact_eq hy]
  generalize x.toBits.toNat % signBit = a at before ⊢
  generalize y.toBits.toNat % signBit = b at before ⊢
  have low : (0 : ℚ) ≤ units a * 2 ^ (-1074 : Int) := by positivity
  have high : (0 : ℚ) ≤ units b * 2 ^ (-1074 : Int) := by positivity
  split <;> split <;> simp only [*, if_true, if_false] at before
  · linarith [@magnitudes b a (by omega)]
  · linarith
  · omega
  · linarith [@magnitudes a b (by omega)]

end FragmentSearch.Decimal
