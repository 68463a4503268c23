import NeuralMesh.Server.OutputSanitizer
import NeuralMesh.Worker.ZkVerifier

/-! What the worker does with the value of a run: noise for small data sets, one pass of
the sanitiser, and the hash of the serialised result. The value of a noisy number
needs logarithms and is a parameter. -/
namespace NeuralMesh.Worker

open Js Codec Server

structure DpConfig where
  epsilon : JsNumber
  sensitivity : JsNumber
  smallDatasetThreshold : JsNumber

/-- The noisy number for a finite number under a key, and the next counter of the
generator. -/
abbrev Noise := DpConfig → (recordCount : Nat) → (currentKey : Option JsString) → Decimal →
  (counter : Nat) → JsNumber × Nat

/-- `recordCount >= threshold` -/
def reaches (recordCount : Nat) : JsNumber → Bool
  | .finite d =>
    if 0 ≤ d.exponent then d.coefficient * 10 ^ d.exponent.toNat ≤ (recordCount : Int)
    else d.coefficient ≤ (recordCount * 10 ^ (-d.exponent).toNat : Int)
  | .nan => false
  | .infinite negative => negative

mutual

/-- `noisy` is the noise for the configuration and the data set. -/
def walkAndNoise (noisy : Option JsString → Decimal → Nat → JsNumber × Nat)
    (currentKey : Option JsString) (counter : Nat) : Node → Node × Nat
  | .num (.finite d) =>
    let noisyValue := noisy currentKey d counter
    (.num noisyValue.1, noisyValue.2)
  | .branch _ array entries =>
    let result := walkEntriesAndNoise noisy currentKey array counter entries
    (.branch none array result.1, result.2)
  | v => (v, counter)

/-- The items of an array inherit its key. -/
def walkEntriesAndNoise (noisy : Option JsString → Decimal → Nat → JsNumber × Nat)
    (currentKey : Option JsString) (array : Bool) (counter : Nat) : Entries → Entries × Nat
  | [] => ([], counter)
  | (key, value) :: entries =>
    let first := walkAndNoise noisy (if array then currentKey else some key) counter value
    let rest := walkEntriesAndNoise noisy currentKey array first.2 entries
    (if dropped array key then rest.1 else (key, first.1) :: rest.1, rest.2)

end

def applyDpToOutput (noise : Noise) (output : Node) (config : DpConfig) (recordCount : Nat) : Node :=
  if reaches recordCount config.smallDatasetThreshold then output
  else (walkAndNoise (noise config recordCount) none 0 output).1

mutual

/-- Some object has a property that the frozen `Object.prototype` does not let a copy
assign. -/
def hasReadOnly (readOnly : JsString → Bool) : Node → Bool
  | .branch _ array entries => entriesHaveReadOnly readOnly array entries
  | _ => false

def entriesHaveReadOnly (readOnly : JsString → Bool) (array : Bool) : Entries → Bool
  | [] => false
  | (key, value) :: entries =>
    (!array && readOnly key) || hasReadOnly readOnly value ||
      entriesHaveReadOnly readOnly array entries

end

/-- What a run is given besides the logic. -/
structure RunConfig where
  noise : Noise
  dpConfig : Option DpConfig
  recordCount : Nat
  readOnly : JsString → Bool

def withNoise (run : RunConfig) (output : Node) : Node :=
  match run.dpConfig with
  | none => output
  | some config => applyDpToOutput run.noise output config run.recordCount

structure WorkerResponse where
  output : Node
  /-- The string whose SHA-256 is the journal's `output_hash`. -/
  committed : JsString

/-- `none` is an exception of an assignment. -/
def commitOutput (run : RunConfig) (output : Node) : Option WorkerResponse :=
  if hasReadOnly run.readOnly output then none
  else
    let finalOutput := sanitizeOutput (withNoise run output)
    some ⟨finalOutput, outputString finalOutput.value⟩

/-! ### A noisy value shares nothing -/

theorem labels_walkAndNoise (noisy : Option JsString → Decimal → Nat → JsNumber × Nat) :
    (∀ x key counter, (walkAndNoise noisy key counter x).1.labels = []) ∧
    ∀ entries, ∀ key array counter,
      Node.entryLabels (walkEntriesAndNoise noisy key array counter entries).1 = [] := by
  apply Node.induct
  · intro s key counter
    rfl
  · intro n key counter
    cases n <;> rfl
  · intro label array entries ih key counter
    exact ih key array counter
  · intro key array counter
    rfl
  · intro k v entries first rest key array counter
    rw [walkEntriesAndNoise]
    generalize (if array = true then key else some k) = inherited
    dsimp only
    split_ifs with lost
    · exact rest _ _ _
    · rw [Node.entryLabels, first, rest, List.append_nil]

theorem consistent_withNoise (run : RunConfig) {output : Node} (consistent : Consistent output) :
    Consistent (withNoise run output) := by
  rw [withNoise]
  cases run.dpConfig with
  | none => exact consistent
  | some config =>
    dsimp only
    rw [applyDpToOutput]
    split_ifs
    · exact consistent
    · intro l o o' labelled _ within _
      have member := mem_labels.mpr ⟨o, labelled, within⟩
      rw [(labels_walkAndNoise _).1] at member
      cases member

/-- The value that the worker sanitises. -/
def sanitizerInput (run : RunConfig) (output : Graph) : Graph :=
  ⟨withNoise run output.root, consistent_withNoise run output.consistent⟩

end NeuralMesh.Worker
