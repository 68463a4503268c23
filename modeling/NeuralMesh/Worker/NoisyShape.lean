import NeuralMesh.Worker.DpEngine

/-! What noise leaves of a tree: the keys, the lengths and all that is not a number, the signs of
numbers that were not negative, and the numbers that were whole as whole numbers. -/
namespace NeuralMesh.Worker.ExactDp

open Js Server

mutual

/-- The second tree has the shape of the first one. -/
inductive Noised : Node → Node → Prop
  | scalar (s : Scalar) : Noised (.scalar s) (.scalar s)
  | number {d d' : Decimal} : (0 ≤ d.value → 0 ≤ d'.value) → (d.isInteger = true → d'.isInteger = true) →
    Noised (.num (.finite d)) (.num (.finite d'))
  | branch {label label' : Option Nat} {array : Bool} {entries entries' : Entries} :
    NoisedEntries entries entries' → Noised (.branch label array entries) (.branch label' array entries')

inductive NoisedEntries : Entries → Entries → Prop
  | nil : NoisedEntries [] []
  | cons {key : JsString} {x x' : Node} {entries entries' : Entries} :
    Noised x x' → NoisedEntries entries entries' →
    NoisedEntries ((key, x) :: entries) ((key, x') :: entries')

end

theorem Noised.refl {x : Node} (tidy : Tidy x) : Noised x x := by
  suffices all : (∀ x, Tidy x → Noised x x) ∧
      ∀ entries, ∀ array, TidyEntries array entries → NoisedEntries entries entries from all.1 x tidy
  apply Node.induct
  · exact fun s _ => .scalar s
  · rintro n ⟨d, rfl⟩
    exact .number id id
  · exact fun label array entries ih tidy => .branch (ih array tidy.2)
  · exact fun _ _ => .nil
  · exact fun key x entries first rest array tidy => .cons (first tidy.2.1) (rest array tidy.2.2)

/-- Noise that keeps signs and whole numbers keeps the shape of trees. -/
theorem noised_walkAndNoise {noisy : Option JsString → Decimal → Nat → JsNumber × Nat}
    (keeps : ∀ key d counter, ∃ d', (noisy key d counter).1 = .finite d' ∧
      (0 ≤ d.value → 0 ≤ d'.value) ∧ (d.isInteger = true → d'.isInteger = true))
    {x : Node} (tidy : Tidy x) (key : Option JsString) (counter : Nat) :
    Noised x (walkAndNoise noisy key counter x).1 := by
  suffices all : (∀ x, Tidy x → ∀ key counter, Noised x (walkAndNoise noisy key counter x).1) ∧
      ∀ entries, ∀ array, TidyEntries array entries → ∀ key counter,
        NoisedEntries entries (walkEntriesAndNoise noisy key array counter entries).1 from
    all.1 x tidy key counter
  apply Node.induct
  · exact fun s _ key counter => .scalar s
  · rintro n ⟨d, rfl⟩ key counter
    obtain ⟨d', value, sign, whole⟩ := keeps key d counter
    simp only [walkAndNoise, value]
    exact .number sign whole
  · exact fun label array entries ih tidy key counter => .branch (ih array tidy.2 key counter)
  · exact fun array _ key counter => .nil
  · intro k x entries first rest array tidy key counter
    simp only [walkEntriesAndNoise, tidy.1, Bool.false_eq_true, if_false]
    exact .cons (first tidy.2.1 _ counter) (rest array tidy.2.2 key _)

section Numbers

variable {K : Type} [Field K] [LinearOrder K] [FloorRing K]

/-- Rounding, forcing and clamping, in this order, keep signs and whole numbers. -/
theorem noisyNumber_keeps (toLowerCase : JsString → JsString) (sample : Sampler K)
    (config : DpConfig K) (recordCount : Nat) (key : Option JsString) (d : Decimal) (counter : Nat) :
    ∃ d', (noisyNumber toLowerCase sample config recordCount key d counter).1 = .finite d' ∧
      (0 ≤ d.value → 0 ≤ d'.value) ∧ (d.isInteger = true → d'.isInteger = true) := by
  refine ⟨_, rfl, fun nonneg => ?_, fun whole => ?_⟩
  · rw [if_pos (Decimal.value_nonneg.mp nonneg)]
    exact Decimal.maxZero_nonneg _
  · simp only [whole, Bool.true_or, if_true]
    split_ifs
    · exact Decimal.maxZero_isInteger (Decimal.isInteger_ofInt _)
    · exact Decimal.isInteger_ofInt _

/-- Noise keeps the shape of every JSON tree, the signs and the whole numbers. -/
theorem applyDpToOutput_noised (toLowerCase : JsString → JsString) (sample : Sampler K)
    (options : DpOptions K) (recordCount : Nat) {output : Node} (tidy : Tidy output) :
    Noised output (applyDpToOutput toLowerCase sample output options recordCount) := by
  rw [applyDpToOutput]
  dsimp only
  split_ifs
  · exact .refl tidy
  · exact noised_walkAndNoise (noisyNumber_keeps toLowerCase sample _ recordCount) tidy none 0
  · exact noised_walkAndNoise (noisyNumber_keeps toLowerCase sample _ recordCount) tidy none 0

end Numbers

/-! ### A tree -/

/-- `{"count": 3, "means": [2.5, null]}` -/
def sampleOutput : Node :=
  .branch none false [(js "count", .num (.finite (Decimal.ofInt 3))),
    (js "means", .branch none true [([], .num (.finite (Decimal.normalize 25 (-1)))),
      ([], .scalar .null)])]

theorem sampleOutput_tidy : Tidy sampleOutput :=
  ⟨rfl, rfl, ⟨_, rfl⟩, rfl, ⟨rfl, rfl, ⟨_, rfl⟩, rfl, by rintro ⟨⟩, trivial⟩, trivial⟩

def sampleNoise : Sampler ℚ := fun scale counter => (-7 * scale, counter + 1)

theorem sampleOutput_noised :
    Noised sampleOutput (applyDpToOutput id sampleNoise sampleOutput ⟨some (1 / 2), none, none⟩ 20) :=
  applyDpToOutput_noised id sampleNoise _ 20 sampleOutput_tidy

end NeuralMesh.Worker.ExactDp
