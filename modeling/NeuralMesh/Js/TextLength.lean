import NeuralMesh.Js.Double
import NeuralMesh.Js.Value

/-! How long JSON texts are. The text of a double is short, since its digits and its exponent are
bounded; the bounds here are generous. -/
namespace NeuralMesh.Js

/-! ### Strings -/

theorem quoteUnit_length (u : CodeUnit) : (quoteUnit u).length ≤ 6 := by
  rw [quoteUnit]
  split
  · exact Nat.le_add_right 2 4
  · split_ifs
    · exact Nat.le_refl 6
    · exact Nat.le_add_right 1 5

theorem quoteBody_length (s : JsString) : (quoteBody s).length ≤ 6 * s.length := by
  induction s using quoteBody.induct with
  | case1 => exact Nat.le_refl 0
  | case2 u => exact quoteUnit_length u
  | case3 u v rest pair ih =>
    rw [quoteBody, if_pos pair]
    simp only [List.length_cons]
    omega
  | case4 u v rest single ih =>
    have unit := quoteUnit_length u
    rw [quoteBody, if_neg single, List.length_append, List.length_cons]
    omega

theorem ofText_length (t : Text) : (ofText t).length ≤ 2 * t.length := by
  induction t with
  | nil => exact Nat.le_refl 0
  | cons c t ih =>
    have unit : (utf16 c).length ≤ 2 := by
      rw [utf16]
      split_ifs <;> simp
    rw [ofText, List.flatMap_cons, ← ofText, List.length_append, List.length_cons]
    omega

theorem quote_length (t : Text) : (quote (ofText t)).length ≤ 12 * t.length + 2 := by
  have body := quoteBody_length (ofText t)
  have units := ofText_length t
  rw [quote, List.length_cons, List.length_append, List.length_singleton]
  omega

/-! ### Texts of bounded decimals -/

theorem digitsWith_length {k n : Nat} (fuel : Nat) (bound : n < 2 ^ k) :
    (digitsWith fuel n).length ≤ k + 1 := by
  induction k generalizing fuel n with
  | zero =>
    cases fuel with
    | zero => exact Nat.zero_le _
    | succ fuel =>
      obtain rfl : n = 0 := by omega
      exact Nat.le_refl 1
  | succ k ih =>
    cases fuel with
    | zero => exact Nat.zero_le _
    | succ fuel =>
      rw [digitsWith]
      split_ifs with small
      · exact Nat.le_add_left _ _
      · have fewer := @ih (n / 10) fuel (by rw [pow_succ] at bound; omega)
        rw [List.length_append, List.length_singleton]
        omega

theorem natText_length {k n : Nat} (bound : n < 2 ^ k) : (natText n).length ≤ k + 1 :=
  digitsWith_length _ bound

theorem exponentText_length {k : Nat} {n : Int} (bound : n.natAbs < 2 ^ k) :
    (exponentText n).length ≤ k + 3 := by
  have digits := natText_length bound
  simp only [exponentText, List.length_cons]
  omega

theorem placePoint_length {k : Nat} (s : Text) (e : Int) (near : s.length + e.natAbs < 2 ^ k) :
    (placePoint s e).length ≤ s.length + k + 21 := by
  simp only [placePoint]
  split_ifs with whole inside before
  · rw [List.length_append, List.length_replicate]
    omega
  · simp only [List.length_append, List.length_cons, List.length_take, List.length_drop]
    omega
  · simp only [List.length_cons, List.length_append, List.length_replicate]
    omega
  · cases s with
    | nil => exact Nat.zero_le _
    | cons d ds =>
      have scientific := @exponentText_length k ((d :: ds).length + e - 1) (by
        rw [List.length_cons] at near ⊢
        omega)
      cases ds with
      | nil =>
        simp only [List.length_cons, List.length_nil] at scientific ⊢
        omega
      | cons d' ds =>
        simp only [List.length_cons, List.length_append] at scientific ⊢
        omega

/-- At most so many bits in the coefficient, and an exponent within this distance from 0. -/
structure Decimal.Bounded (bits range : Nat) (d : Decimal) : Prop where
  coefficient : d.coefficient.natAbs < 2 ^ bits
  exponent : d.exponent.natAbs ≤ range

theorem numberText_length {bits range k : Nat} {d : Decimal} (bounded : d.Bounded bits range)
    (near : bits + 1 + range < 2 ^ k) : (numberText d).length ≤ bits + k + 23 := by
  have digits := natText_length bounded.coefficient
  have exponent := bounded.exponent
  have placed := placePoint_length (natText d.coefficient.natAbs) d.exponent
    (Nat.lt_of_le_of_lt (Nat.add_le_add digits exponent) near)
  rw [numberText, magnitudeText]
  split_ifs
  · rw [List.length_cons]
    omega
  · omega

/-! ### Doubles are bounded -/

theorem Decimal.strip_bounded {bits : Nat} (fuel : Nat) {m : Int} (e : Int)
    (bound : m.natAbs < 2 ^ bits) (nonzero : m ≠ 0) :
    (strip fuel m e).1.natAbs < 2 ^ bits ∧ e ≤ (strip fuel m e).2 ∧
      (strip fuel m e).2 ≤ e + bits := by
  induction bits generalizing fuel m e with
  | zero => omega
  | succ bits ih =>
    cases fuel with
    | zero => exact ⟨bound, Int.le_refl _, by simp only [strip]; omega⟩
    | succ fuel =>
      rw [strip]
      split_ifs with zeros
      · obtain ⟨small, lower, upper⟩ := @ih fuel (m / 10) (e + 1)
          (by rw [pow_succ] at bound; omega) (by omega)
        refine ⟨?_, by omega, by push_cast; omega⟩
        rw [pow_succ]
        omega
      · exact ⟨bound, Int.le_refl _, by simp only; omega⟩

theorem Decimal.normalize_bounded {bits range : Nat} {m e : Int} (bound : m.natAbs < 2 ^ bits)
    (near : e.natAbs ≤ range) : (normalize m e).Bounded bits (range + bits) := by
  rw [normalize]
  split_ifs with zero
  · exact ⟨Nat.pow_pos (by decide), Nat.zero_le _⟩
  · obtain ⟨small, lower, upper⟩ := strip_bounded (m.natAbs + 1) e bound zero
    exact ⟨small, by dsimp only; omega⟩

namespace Fraction

/-- A fraction of the range of doubles. -/
structure InRange (x : Fraction) : Prop where
  den_pos : 0 < x.den
  den_small : x.den ≤ 2 ^ 1074
  below : x.num < 2 ^ 1024 * x.den

theorem scale_den {r : Nat} {e : Int} {range : Nat} (low : -(range : Int) ≤ e) :
    0 < (scale ⟨r, 1⟩ 2 e).den ∧ (scale ⟨r, 1⟩ 2 e).den ≤ 2 ^ range := by
  rw [scale]
  split_ifs with whole
  · exact ⟨Nat.one_pos, Nat.one_le_two_pow⟩
  · dsimp only
    rw [Nat.one_mul]
    exact ⟨Nat.two_pow_pos _, Nat.pow_le_pow_right (by decide) (by omega)⟩

theorem nearest_inRange {q x : Fraction} (found : q.nearest = some x) : x.InRange := by
  rw [nearest] at found
  split_ifs at found with zero
  · cases found
    constructor
    · exact Nat.one_pos
    · exact Nat.succ_le_of_lt (pow_pos Nat.two_pos 1074)
    · exact Nat.mul_pos (pow_pos Nat.two_pos 1024) Nat.one_pos
  · dsimp only at found
    split_ifs at found with overflow
    cases found
    obtain ⟨positive, small⟩ := @scale_den
      (q.scale 2 (-(max (q.binade - 52) (-1074)))).roundEven (max (q.binade - 52) (-1074)) 1074
      (le_max_right _ _)
    exact ⟨positive, small, Nat.lt_of_not_le overflow⟩

theorem InRange.pointPosition {x : Fraction} (range : x.InRange) :
    (pointPosition x).natAbs ≤ 1075 := by
  rw [Js.pointPosition]
  split_ifs with large
  · have digits := @natText_length 1024 (x.num / x.den)
      ((Nat.div_lt_iff_lt_mul range.den_pos).mpr range.below)
    omega
  · have quotient : (x.den - 1) / x.num < 2 ^ 1074 := by
      have one := Nat.div_le_self (x.den - 1) x.num
      have positive := range.den_pos
      have small := range.den_small
      generalize 2 ^ 1074 = limit at small ⊢
      omega
    have digits := natText_length quotient
    have nonempty := List.length_pos_iff.mpr (natText_nonempty ((x.den - 1) / x.num))
    omega

theorem roundEven_le (q : Fraction) : q.roundEven ≤ q.num / q.den + 1 := by
  rw [roundEven]
  split_ifs
  · exact Nat.le_succ _
  · exact Nat.le_refl _

/-- Scaled by a power of ten, a double has at most so many bits before the point. -/
theorem InRange.scale_roundEven {x : Fraction} (range : x.InRange) {e : Int} {power : Nat}
    (near : e ≤ power) : (x.scale 10 e).roundEven < 2 ^ (1024 + 4 * power + 1) := by
  have bits : 10 ^ power ≤ 2 ^ (4 * power) := by
    rw [pow_mul]
    exact Nat.pow_le_pow_left (by decide) power
  have quotient : (x.scale 10 e).num / (x.scale 10 e).den < 2 ^ (1024 + 4 * power) := by
    rw [scale]
    split_ifs with whole
    · refine (Nat.div_lt_iff_lt_mul range.den_pos).mpr ?_
      have exponent : 10 ^ e.toNat ≤ 2 ^ (4 * power) :=
        (Nat.pow_le_pow_right (by decide) (by omega)).trans bits
      calc x.num * 10 ^ e.toNat ≤ x.num * 2 ^ (4 * power) := Nat.mul_le_mul_left _ exponent
        _ < 2 ^ 1024 * x.den * 2 ^ (4 * power) :=
          Nat.mul_lt_mul_of_pos_right range.below (Nat.two_pow_pos _)
        _ = 2 ^ (1024 + 4 * power) * x.den := by rw [pow_add, Nat.mul_right_comm]
    · refine (Nat.div_lt_iff_lt_mul (Nat.mul_pos range.den_pos (Nat.pow_pos (by decide)))).mpr ?_
      calc x.num < 2 ^ 1024 * x.den := range.below
        _ ≤ 2 ^ (1024 + 4 * power) * (x.den * 10 ^ (-e).toNat) :=
          Nat.mul_le_mul (pow_le_pow_right₀ (by decide) (Nat.le_add_right 1024 _))
            (Nat.le_mul_of_pos_right _ (Nat.pow_pos (by decide)))
  have rounded := roundEven_le (x.scale 10 e)
  have positive := Nat.two_pow_pos (1024 + 4 * power)
  rw [pow_succ]
  omega

end Fraction

open Fraction

/-- Enough bits for the digits of a double. -/
def doubleBits : Nat := 1024 + 4 * 1092 + 1

theorem closest_bounded {x : Fraction} (range : x.InRange) {digits : Nat} (few : digits ≤ 17) :
    (closest x digits).Bounded doubleBits 6485 := by
  have position := range.pointPosition
  rw [closest]
  have small := @InRange.scale_roundEven x range (-(pointPosition x - digits)) 1092 (by omega)
  rw [← doubleBits] at small
  exact Decimal.normalize_bounded small (by omega)

theorem shortest_bounded {x : Fraction} (range : x.InRange) :
    (shortest x).Bounded doubleBits 6485 := by
  rw [shortest]
  split_ifs with zero
  · exact ⟨Nat.two_pow_pos doubleBits, Nat.zero_le _⟩
  · cases found : ((List.range 17).map fun k => closest x (k + 1)).find? (denotes x) with
    | none => exact closest_bounded range (Nat.le_refl 17)
    | some d =>
      obtain ⟨k, below, rfl⟩ := List.mem_map.mp (List.mem_of_find?_eq_some found)
      exact closest_bounded range (List.mem_range.mp below)

/-- The numbers of the language. -/
def IsDouble : JsNumber → Prop
  | .finite d => ∃ negative q, ofFraction negative q = .finite d
  | _ => True

theorem ofFraction_bounded {negative : Bool} {q : Fraction} {d : Decimal}
    (double : ofFraction negative q = .finite d) : d.Bounded doubleBits 11878 := by
  rw [ofFraction] at double
  split at double
  · cases double
  · next x found =>
    have bounded := shortest_bounded (nearest_inRange found)
    split_ifs at double
    · cases double
      refine Decimal.normalize_bounded ?_ bounded.exponent
      rw [Int.natAbs_neg]
      exact bounded.coefficient
    · cases double
      exact ⟨bounded.coefficient, bounded.exponent.trans (by decide)⟩

theorem double_length {n : JsNumber} (double : IsDouble n) : n.jsonText.length ≤ 5500 := by
  cases n with
  | finite d =>
    obtain ⟨negative, q, same⟩ := double
    exact (@numberText_length _ _ 15 _ (ofFraction_bounded same) (by decide)).trans (by decide)
  | nan => decide
  | infinite negative => exact (by decide : nullText.length ≤ 5500)

end NeuralMesh.Js
