import NeuralMesh.Js.Decimal
import Mathlib.Algebra.Order.Floor.Ring
import Mathlib.Data.Rat.Cast.Order
import Mathlib.Data.Rat.Floor
import Mathlib.Tactic.Linarith
import Mathlib.Tactic.Positivity

/-! The exact values of decimals, `Math.round` and rounding to decimal places in exact arithmetic. -/
namespace NeuralMesh.Js

namespace Decimal

/-! ### Values -/

/-- `coefficient * 10 ^ exponent` -/
def value (d : Decimal) : ℚ := d.coefficient * 10 ^ d.exponent

theorem strip_value (fuel : Nat) (m e : Int) :
    ((strip fuel m e).1 : ℚ) * 10 ^ (strip fuel m e).2 = m * 10 ^ e := by
  induction fuel generalizing m e with
  | zero => rfl
  | succ fuel ih =>
    rw [strip]
    split_ifs with zero
    · obtain ⟨k, rfl⟩ := Int.dvd_of_emod_eq_zero zero
      rw [Int.mul_ediv_cancel_left k (by decide), ih, zpow_add_one₀ (by norm_num)]
      push_cast
      ring
    · rfl

@[simp] theorem value_normalize (m e : Int) : (normalize m e).value = m * 10 ^ e := by
  rw [normalize]
  split_ifs with zero
  · simp [value, zero]
  · exact strip_value _ m e

@[simp] theorem value_zero : value 0 = 0 := by
  simp [value, show (0 : Decimal).coefficient = 0 from rfl]

theorem strip_exponent (fuel : Nat) (m e : Int) : e ≤ (strip fuel m e).2 := by
  induction fuel generalizing m e with
  | zero => exact le_rfl
  | succ fuel ih =>
    rw [strip]
    split_ifs
    · have later := ih (m / 10) (e + 1)
      omega
    · exact le_rfl

/-- Fewer decimals are not more decimals. -/
theorem exponent_normalize (m : Int) {e : Int} (small : e ≤ 0) : e ≤ (normalize m e).exponent := by
  rw [normalize]
  split_ifs
  · exact small
  · exact strip_exponent _ m e

theorem value_nonneg {d : Decimal} : 0 ≤ d.value ↔ 0 ≤ d.coefficient := by
  have power : (0 : ℚ) < 10 ^ d.exponent := zpow_pos (by norm_num) _
  rw [value, mul_nonneg_iff_of_pos_right power, Int.cast_nonneg_iff]

def isInteger (d : Decimal) : Bool := 0 ≤ d.exponent

theorem isInteger_iff {d : Decimal} : d.isInteger = true ↔ ∃ n : ℤ, d.value = n := by
  simp only [isInteger, decide_eq_true_eq]
  constructor
  · intro large
    obtain ⟨places, exponent⟩ := Int.eq_ofNat_of_zero_le large
    exact ⟨d.coefficient * 10 ^ places, by rw [value, exponent]; simp⟩
  · rintro ⟨n, same⟩
    by_contra small
    -- the coefficient would be a multiple of ten
    obtain ⟨places, exponent⟩ : ∃ places : ℕ, d.exponent = -(places + 1 : ℕ) :=
      ⟨(-d.exponent - 1).toNat, by omega⟩
    have power : (10 : ℚ) ^ (places + 1 : ℕ) ≠ 0 := by positivity
    rw [value, exponent, zpow_neg, zpow_natCast, ← div_eq_mul_inv, div_eq_iff power] at same
    have whole : d.coefficient = n * 10 ^ (places + 1) := by exact_mod_cast same
    have multiple : d.coefficient % 10 = 0 := by
      rw [whole, pow_succ, ← mul_assoc, Int.mul_emod_left]
    rcases d.canonical with ⟨_, zero⟩ | last
    · omega
    · exact last multiple

def ofInt (n : Int) : Decimal := normalize n 0

@[simp] theorem value_ofInt (n : Int) : (ofInt n).value = n := by simp [ofInt]

theorem isInteger_ofInt (n : Int) : (ofInt n).isInteger = true := isInteger_iff.mpr ⟨n, value_ofInt n⟩

/-- `Math.max(0, d)` -/
def maxZero (d : Decimal) : Decimal := if d.coefficient < 0 then 0 else d

theorem maxZero_nonneg (d : Decimal) : 0 ≤ (maxZero d).value := by
  rw [maxZero]
  split_ifs with negative
  · rw [value_zero]
  · exact value_nonneg.mpr (by omega)

theorem maxZero_isInteger {d : Decimal} (whole : d.isInteger = true) :
    (maxZero d).isInteger = true := by
  rw [maxZero]
  split_ifs
  · rfl
  · exact whole

end Decimal

/-! ### Rounding -/

section Rounding

variable {K : Type} [Field K] [LinearOrder K] [IsStrictOrderedRing K] [FloorRing K]

/-- `Math.round`: ties go up. -/
def mathRound (x : K) : ℤ := ⌊x + 1 / 2⌋

theorem mathRound_intCast (n : ℤ) : mathRound (n : K) = n := by
  rw [mathRound, Int.floor_intCast_add, Int.floor_eq_zero_iff.mpr ⟨by norm_num, by norm_num⟩, add_zero]

theorem mathRound_nonneg {x : K} (nonneg : 0 ≤ x) : 0 ≤ mathRound x :=
  Int.floor_nonneg.mpr (by linarith)

/-- `Math.round(x * 10 ** places) / 10 ** places` -/
def roundPlaces (places : Nat) (x : K) : Decimal :=
  Decimal.normalize (mathRound (x * 10 ^ places)) (-places)

theorem roundPlaces_nonneg (places : Nat) {x : K} (nonneg : 0 ≤ x) :
    0 ≤ (roundPlaces places x).value := by
  have rounded : (0 : ℚ) ≤ mathRound (x * 10 ^ places) := by
    exact_mod_cast mathRound_nonneg (mul_nonneg nonneg (by positivity))
  rw [roundPlaces, Decimal.value_normalize]
  exact mul_nonneg rounded (zpow_nonneg (by norm_num) _)

omit [IsStrictOrderedRing K] in
theorem roundPlaces_exponent (places : Nat) (x : K) :
    -(places : ℤ) ≤ (roundPlaces places x).exponent :=
  Decimal.exponent_normalize _ (by omega)

omit [IsStrictOrderedRing K] in
/-- Rounding twice is rounding once. -/
theorem roundPlaces_roundPlaces (places : Nat) (x : K) :
    roundPlaces places (roundPlaces places x).value = roundPlaces places x := by
  have power : (10 : ℚ) ^ places ≠ 0 := by positivity
  have scaled : (roundPlaces places x).value * 10 ^ places = mathRound (x * 10 ^ places) := by
    rw [roundPlaces, Decimal.value_normalize, zpow_neg, zpow_natCast, mul_assoc,
      inv_mul_cancel₀ power, mul_one]
  rw [roundPlaces, scaled, mathRound_intCast, roundPlaces]

end Rounding

end NeuralMesh.Js
