import Mathlib.Data.Nat.Basic
import Mathlib.Data.List.Basic
import Mathlib.Data.List.Induction
import Mathlib.Tactic.Ring

/-! Exact decimals. A finite number is the shortest decimal that denotes it, an
integer coefficient times a power of ten, so printing and reading what was
printed are exact; binary rounding comes with the arithmetic. -/
namespace NeuralMesh.Js

abbrev Text := List Char

/-! ### Digit strings -/

def digitChar (d : Nat) : Char := Char.ofNat (d + 48)

def digitValue (c : Char) : Nat := c.toNat - 48

def isDigit (c : Char) : Bool := 48 ≤ c.toNat && c.toNat ≤ 57

/-- Decimal digits, most significant first. The fuel is never exhausted: a
number has fewer digits than its value plus one. -/
def digitsWith : Nat → Nat → Text
  | 0, _ => []
  | fuel + 1, n => if n < 10 then [digitChar n] else digitsWith fuel (n / 10) ++ [digitChar (n % 10)]

def natText (n : Nat) : Text := digitsWith (n + 1) n

def ofDigits (cs : Text) : Nat := cs.foldl (fun value c => 10 * value + digitValue c) 0

theorem digitChar_facts : ∀ d < 10, digitValue (digitChar d) = d ∧ isDigit (digitChar d) = true := by
  decide

theorem digitsWith_spec (fuel n : Nat) (enough : n < fuel) :
    ofDigits (digitsWith fuel n) = n ∧ (digitsWith fuel n).all isDigit = true ∧
      digitsWith fuel n ≠ [] := by
  induction fuel generalizing n with
  | zero => omega
  | succ fuel ih =>
    simp only [digitsWith]
    by_cases small : n < 10
    · simp [small, ofDigits, digitChar_facts n small]
    · obtain ⟨value, digits, _⟩ := ih (n / 10) (by omega)
      have last := digitChar_facts (n % 10) (Nat.mod_lt _ (by decide))
      refine ⟨?_, ?_, ?_⟩
      · simp only [ofDigits] at value
        simp only [if_neg small, ofDigits, List.foldl_append, value, List.foldl_cons,
          List.foldl_nil, last.1]
        omega
      · simp [small, digits, last.2]
      · simp [small]

@[simp] theorem ofDigits_natText (n : Nat) : ofDigits (natText n) = n :=
  (digitsWith_spec (n + 1) n (Nat.lt_succ_self n)).1

theorem natText_digits (n : Nat) : ∀ c ∈ natText n, isDigit c = true :=
  List.all_eq_true.mp (digitsWith_spec (n + 1) n (Nat.lt_succ_self n)).2.1

theorem natText_nonempty (n : Nat) : natText n ≠ [] :=
  (digitsWith_spec (n + 1) n (Nat.lt_succ_self n)).2.2

theorem digitsWith_head (fuel n : Nat) (enough : n < fuel) (positive : 0 < n) :
    (digitsWith fuel n).head? ≠ some '0' := by
  induction fuel generalizing n with
  | zero => omega
  | succ fuel ih =>
    simp only [digitsWith]
    by_cases small : n < 10
    · have : ∀ d < 10, 0 < d → digitChar d ≠ '0' := by decide
      simpa [small] using this n small positive
    · have previous := ih (n / 10) (by omega) (by omega)
      have nonempty := (digitsWith_spec fuel (n / 10) (by omega)).2.2
      simpa [small, List.head?_append_of_ne_nil _ nonempty] using previous

theorem natText_head {n : Nat} (positive : 0 < n) : (natText n).head? ≠ some '0' :=
  digitsWith_head (n + 1) n (Nat.lt_succ_self n) positive

theorem ofDigits_append (first rest : Text) :
    ofDigits (first ++ rest) = ofDigits first * 10 ^ rest.length + ofDigits rest := by
  have shift : ∀ (cs : Text) (start : Nat),
      cs.foldl (fun value c => 10 * value + digitValue c) start =
        start * 10 ^ cs.length + ofDigits cs := by
    intro cs
    induction cs with
    | nil => intro start; simp [ofDigits]
    | cons c cs ih =>
      intro start
      simp only [ofDigits, List.foldl_cons, List.length_cons, ih (10 * start + digitValue c),
        ih (10 * 0 + digitValue c)]
      ring
  simp only [ofDigits, List.foldl_append]
  exact shift rest _

@[simp] theorem ofDigits_zeros (n : Nat) : ofDigits (List.replicate n '0') = 0 := by
  induction n with
  | zero => rfl
  | succ n ih =>
    have first : ofDigits ['0'] = 0 := rfl
    rw [List.replicate_succ, ← List.singleton_append, ofDigits_append, ih, first, Nat.zero_mul]

theorem digitValue_injective {c d : Char} (left : isDigit c = true) (right : isDigit d = true)
    (same : digitValue c = digitValue d) : c = d := by
  simp only [isDigit, Bool.and_eq_true, decide_eq_true_eq] at left right
  simp only [digitValue] at same
  have codes : c.toNat = d.toNat := by omega
  rw [← Char.ofNat_toNat c, codes, Char.ofNat_toNat]

theorem digitValue_lt {c : Char} (digit : isDigit c = true) : digitValue c < 10 := by
  simp only [isDigit, Bool.and_eq_true, decide_eq_true_eq] at digit
  simp only [digitValue]
  omega

theorem ofDigits_last (cs : Text) (c : Char) :
    ofDigits (cs ++ [c]) = 10 * ofDigits cs + digitValue c := by
  simp [ofDigits]

/-- Digits without a leading zero have a positive value. -/
theorem ofDigits_pos {cs : Text} (digits : ∀ c ∈ cs, isDigit c = true) (nonempty : cs ≠ [])
    (head : cs.head? ≠ some '0') : 0 < ofDigits cs := by
  cases cs with
  | nil => exact absurd rfl nonempty
  | cons c cs =>
    have first : 0 < digitValue c := by
      apply Nat.pos_of_ne_zero
      intro zero
      apply head
      rw [List.head?_cons, digitValue_injective (digits c List.mem_cons_self) rfl
        (zero.trans (by rfl : 0 = digitValue '0'))]
    have single : ofDigits [c] = digitValue c := by simp [ofDigits]
    rw [← List.singleton_append, ofDigits_append, single]
    have power : 0 < 10 ^ cs.length := Nat.pow_pos (by omega)
    exact Nat.add_pos_left (Nat.mul_pos first power) _

/-- Two spellings of one number without leading zeros are the same. -/
theorem digits_unique {a b : Text} (left : ∀ c ∈ a, isDigit c = true)
    (right : ∀ c ∈ b, isDigit c = true) (leftHead : a.head? ≠ some '0')
    (rightHead : b.head? ≠ some '0') (same : ofDigits a = ofDigits b) : a = b := by
  induction a using List.reverseRecOn generalizing b with
  | nil =>
    by_contra nonempty
    have positive := ofDigits_pos right (Ne.symm nonempty) rightHead
    rw [← same] at positive
    exact absurd positive (by decide)
  | append_singleton a c ih =>
    cases b using List.reverseRecOn with
    | nil =>
      have positive := ofDigits_pos left (by simp) leftHead
      rw [same] at positive
      exact absurd positive (by decide)
    | append_singleton b d =>
      have c_digit := left c (by simp)
      have d_digit := right d (by simp)
      have small := digitValue_lt c_digit
      have bound := digitValue_lt d_digit
      rw [ofDigits_last, ofDigits_last] at same
      have initial : (a.head? ≠ some '0') ∧ (b.head? ≠ some '0') := by
        constructor
        · intro zero
          exact leftHead (by rw [List.head?_append, zero]; rfl)
        · intro zero
          exact rightHead (by rw [List.head?_append, zero]; rfl)
      rw [digitValue_injective c_digit d_digit (by omega),
        ih (fun c member => left c (List.mem_append_left _ member))
          (fun d member => right d (List.mem_append_left _ member)) initial.1 initial.2 (by omega)]

/-! ### Canonical decimals -/

/-- `coefficient * 10 ^ exponent`, without trailing zeros in the coefficient,
so that numerically equal decimals are the same record. -/
structure Decimal where
  coefficient : Int
  exponent : Int
  canonical : coefficient = 0 ∧ exponent = 0 ∨ coefficient % 10 ≠ 0
  deriving DecidableEq

namespace Decimal

theorem ext {a b : Decimal} (coefficients : a.coefficient = b.coefficient)
    (exponents : a.exponent = b.exponent) : a = b := by
  cases a
  cases b
  simp_all

/-- Strips the trailing zeros of a nonzero coefficient. -/
def strip : Nat → Int → Int → Int × Int
  | 0, m, e => (m, e)
  | fuel + 1, m, e => if m % 10 = 0 then strip fuel (m / 10) (e + 1) else (m, e)

theorem strip_canonical (fuel : Nat) (m e : Int) (nonzero : m ≠ 0) (enough : m.natAbs < fuel) :
    (strip fuel m e).1 % 10 ≠ 0 := by
  induction fuel generalizing m e with
  | zero => omega
  | succ fuel ih =>
    simp only [strip]
    split
    · exact ih (m / 10) (e + 1) (by omega) (by omega)
    · assumption

/-- The canonical decimal equal to `m * 10 ^ e`. -/
def normalize (m e : Int) : Decimal :=
  if h : m = 0 then ⟨0, 0, .inl ⟨rfl, rfl⟩⟩
  else ⟨(strip (m.natAbs + 1) m e).1, (strip (m.natAbs + 1) m e).2,
    .inr (strip_canonical _ m e h (Nat.lt_succ_self _))⟩

instance : Zero Decimal := ⟨⟨0, 0, .inl ⟨rfl, rfl⟩⟩⟩

theorem strip_shift (fuel : Nat) (m e : Int) (canonical : m % 10 ≠ 0) (zeros : Nat)
    (enough : zeros < fuel) : strip fuel (m * 10 ^ zeros) e = (m, e + zeros) := by
  induction zeros generalizing fuel e with
  | zero =>
    cases fuel with
    | zero => omega
    | succ fuel => simp [strip, canonical]
  | succ zeros ih =>
    cases fuel with
    | zero => omega
    | succ fuel =>
      have split : m * 10 ^ (zeros + 1) = m * 10 ^ zeros * 10 := by ring
      have divides : m * 10 ^ zeros * 10 % 10 = 0 := Int.mul_emod_left _ _
      have quotient : m * 10 ^ zeros * 10 / 10 = m * 10 ^ zeros :=
        Int.mul_ediv_cancel _ (by decide)
      simp only [strip, split, divides, if_true, quotient, ih fuel (e + 1) (by omega)]
      push_cast
      congr 1
      ring

/-- Appending zeros to the coefficient and lowering the exponent does not
change the canonical form. -/
theorem normalize_shift (d : Decimal) (zeros : Nat) :
    normalize (d.coefficient * 10 ^ zeros) (d.exponent - zeros) = d := by
  rcases d with ⟨m, e, ⟨rfl, rfl⟩ | canonical⟩
  · simp [normalize]
  · have nonzero : m ≠ 0 := by rintro rfl; simp at canonical
    have product : m * 10 ^ zeros ≠ 0 := mul_ne_zero nonzero (pow_ne_zero _ (by decide))
    have growth : zeros < (m * 10 ^ zeros).natAbs + 1 := by
      rw [Int.natAbs_mul, Int.natAbs_pow]
      have power : zeros < 10 ^ zeros := Nat.lt_pow_self (by decide)
      have positive : 0 < m.natAbs := Int.natAbs_pos.mpr nonzero
      calc zeros < 10 ^ zeros := power
        _ ≤ m.natAbs * 10 ^ zeros := Nat.le_mul_of_pos_left _ positive
        _ < m.natAbs * 10 ^ zeros + 1 := Nat.lt_succ_self _
    have stripped := strip_shift ((m * 10 ^ zeros).natAbs + 1) m (e - zeros) canonical zeros growth
    apply ext
    · simp only [normalize, dif_neg product, stripped]
    · simp only [normalize, dif_neg product, stripped]
      omega

end Decimal
end NeuralMesh.Js
