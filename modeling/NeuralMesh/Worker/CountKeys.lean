import NeuralMesh.Worker.DpEngine

/-! Counts are recognised by a derived sensitivity of 1, which other keys can have, too. -/
namespace NeuralMesh.Worker.ExactDp

open Js

variable {K : Type} [Field K] [LinearOrder K] [IsStrictOrderedRing K] [FloorRing K]

/-- A count word or a form of total. -/
def isCountForm (toLowerCase : JsString → JsString) : Option JsString → Bool
  | none | some [] => false
  | some key => isCountWord (toLowerCase key) || isTotalCount (toLowerCase key)

/-- The number after noise, with four decimals and no others, and the sign of the original. -/
def fractional (toLowerCase : JsString → JsString) (sample : Sampler K) (config : DpConfig K)
    (recordCount : Nat) (currentKey : Option JsString) (node : Decimal) (counter : Nat) : Decimal :=
  let fieldSensitivity := deriveFieldSensitivity toLowerCase currentKey config.sensitivity recordCount
  let noisy := roundPlaces 4
    ((node.value : K) + (sample (fieldSensitivity / config.epsilon) counter).1)
  if 0 ≤ node.coefficient then noisy.maxZero else noisy

/-- Under the key, every number that is not whole keeps its fraction, whatever the noise. -/
def KeepsFractions (toLowerCase : JsString → JsString) (config : DpConfig K) (recordCount : Nat)
    (currentKey : Option JsString) : Prop :=
  ∀ (sample : Sampler K) (node : Decimal) (counter : Nat), node.isInteger = false →
    (noisyNumber toLowerCase sample config recordCount currentKey node counter).1 =
      .finite (fractional toLowerCase sample config recordCount currentKey node counter)

/-- A key that is no count form has the sensitivity of a count: the configured one, divided by the
number of records for an average. -/
def Collides (toLowerCase : JsString → JsString) (sensitivity : K) (recordCount : Nat) :
    Option JsString → Prop
  | none => False
  | some [] => sensitivity = 1
  | some key =>
    if isAverage (toLowerCase key) && 0 < recordCount then sensitivity = recordCount
    else sensitivity = 1

omit [FloorRing K] in
/-- The leaf is forced to a whole number exactly under count forms and colliding keys. -/
theorem forced_iff (toLowerCase : JsString → JsString) (sensitivity : K) (recordCount : Nat)
    {currentKey : Option JsString} (other : isCountForm toLowerCase currentKey = false) :
    (currentKey.isSome && deriveFieldSensitivity toLowerCase currentKey sensitivity recordCount = 1) =
        true ↔ Collides toLowerCase sensitivity recordCount currentKey := by
  match currentKey with
  | none => simp [Collides]
  | some [] => exact decide_eq_true_iff
  | some (unit :: units) =>
    simp only [isCountForm] at other
    simp only [Option.isSome_some, Bool.true_and, decide_eq_true_eq, deriveFieldSensitivity, other,
      Bool.false_eq_true, if_false, Collides]
    split_ifs with average
    · simp only [Bool.and_eq_true, decide_eq_true_eq] at average
      have positive : (recordCount : K) ≠ 0 := by exact_mod_cast average.2.ne'
      exact div_eq_one_iff_eq positive
    · rfl

def half : Decimal := Decimal.normalize 5 (-1)

theorem half_fractional : half.isInteger = false := rfl

/-- Without noise, one half is one half after rounding to four decimals. -/
theorem roundPlaces_half : roundPlaces 4 ((half.value : K) + 0) = half := by
  have scaled : ((half.value : K) + 0) * 10 ^ 4 = (5000 : ℤ) := by
    rw [half, Decimal.value_normalize]
    push_cast
    norm_num
  rw [roundPlaces, scaled, mathRound_intCast]
  rfl

theorem Collides.rounds {toLowerCase : JsString → JsString} {config : DpConfig K} {recordCount : Nat}
    {currentKey : Option JsString} (other : isCountForm toLowerCase currentKey = false)
    (collides : Collides toLowerCase config.sensitivity recordCount currentKey) :
    ¬ KeepsFractions toLowerCase config recordCount currentKey := by
  intro keeps
  have forced := (forced_iff toLowerCase config.sensitivity recordCount other).mpr collides
  have positive : 0 ≤ half.coefficient := by decide
  have same := keeps (fun _ counter => (0, counter)) half 0 half_fractional
  simp only [noisyNumber, fractional, addLaplaceNoise, roundPlaces_half, forced, Bool.or_true,
    if_true, positive, JsNumber.finite.injEq] at same
  have whole := Decimal.maxZero_isInteger (Decimal.isInteger_ofInt (mathRound half.value))
  rw [same] at whole
  cases whole

/-- Numbers under a key that is no count form keep their fractions exactly if the key does not have
the sensitivity of a count. -/
theorem keepsFractions_iff (toLowerCase : JsString → JsString) (config : DpConfig K)
    (recordCount : Nat) (currentKey : Option JsString) :
    (isCountForm toLowerCase currentKey = false →
        KeepsFractions toLowerCase config recordCount currentKey) ↔
      (isCountForm toLowerCase currentKey = true ∨
        ¬ Collides toLowerCase config.sensitivity recordCount currentKey) := by
  cases counts : isCountForm toLowerCase currentKey with
  | true => simp
  | false =>
    simp only [forall_const, Bool.false_eq_true, false_or]
    constructor
    · exact fun keeps collides => collides.rounds counts keeps
    · intro apart sample node counter notWhole
      have unforced := Bool.eq_false_iff.mpr fun yes =>
        apart ((forced_iff toLowerCase config.sensitivity recordCount counts).mp yes)
      simp only [noisyNumber, fractional, addLaplaceNoise, notWhole, unforced, Bool.or_false,
        Bool.false_eq_true, if_false]

theorem sum_kept : KeepsFractions ignoreCase ⟨(1 : ℚ), 2, 50⟩ 20 (some (js "sum")) := by
  have other : isCountForm ignoreCase (some (js "sum")) = false := rfl
  have apart : ¬ Collides ignoreCase (2 : ℚ) 20 (some (js "sum")) :=
    show ¬ (2 : ℚ) = 1 by norm_num
  exact (keepsFractions_iff ignoreCase ⟨(1 : ℚ), 2, 50⟩ 20 (some (js "sum"))).mpr
    (.inr apart) other

/-- With the default sensitivity of 1, a sum is rounded to a whole number. -/
theorem sum_rounded : ¬ ∀ (options : DpOptions ℚ) (recordCount : Nat) (currentKey : Option JsString),
    isCountForm ignoreCase currentKey = false →
      KeepsFractions ignoreCase options.merged recordCount currentKey := by
  intro keeps
  have other : isCountForm ignoreCase (some (js "sum")) = false := rfl
  have collides : Collides ignoreCase ((⟨none, none, none⟩ : DpOptions ℚ).merged).sensitivity 20
      (some (js "sum")) := rfl
  exact collides.rounds other (keeps ⟨none, none, none⟩ 20 (some (js "sum")) other)

end NeuralMesh.Worker.ExactDp
