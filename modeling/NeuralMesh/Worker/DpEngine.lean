import NeuralMesh.Js.ExactNumber
import NeuralMesh.Worker.LiteralOutput

/-! Differential privacy in exact arithmetic, over any ordered field and any samples. Sensitivities
are derived from keys, and a number under a key of sensitivity 1 is taken for a count. -/
namespace NeuralMesh.Worker.ExactDp

open Js Server

/-! ### Keys -/

/-- The `i` flag on a pattern of small letters. -/
def ignoreCase (text : JsString) : JsString :=
  text.map fun unit => if 65 ≤ unit ∧ unit ≤ 90 then unit + 32 else unit

def containsAny (words : List String) (text : JsString) : Bool :=
  words.any fun word => js word <:+: ignoreCase text

def isLineTerminator (unit : CodeUnit) : Bool := unit ∈ [10, 13, 0x2028, 0x2029]

/-- `/total.*(count|items|entries|rows|records|tickers)/i` -/
def totalOfCounts (lk : JsString) : Bool :=
  (ignoreCase lk).tails.any fun rest => js "total" <+: rest &&
    containsAny ["count", "items", "entries", "rows", "records", "tickers"]
      ((rest.drop 5).takeWhile (!isLineTerminator ·))

def isCountWord (lk : JsString) : Bool :=
  containsAny ["count", "length", "size", "num", "gainer", "loser", "positive", "negative", "nan_",
    "null_", "empty_", "finite_", "non_finite_", "instruments", "tickers", "users", "records"] lk

def isTotalCount (lk : JsString) : Bool :=
  lk ∈ ["total", "n", "total_records"].map js || js "total_" <+: lk || js "num_" <+: lk ||
    totalOfCounts lk

def isAverage (lk : JsString) : Bool :=
  containsAny ["avg", "mean", "average", "var", "variance", "std", "stddev", "ratio", "bps", "drift",
    "pct", "percent", "imbalance"] lk

/-! ### Configurations -/

section Configurations

variable (K : Type)

/-- A `Partial<DpConfig>` without its seed. -/
structure DpOptions where
  epsilon : Option K
  sensitivity : Option K
  smallDatasetThreshold : Option K

structure DpConfig where
  epsilon : K
  sensitivity : K
  smallDatasetThreshold : K

/-- `laplaceSample`: the sample for a scale from a counter on, and the next counter. -/
abbrev Sampler := (scale : K) → (counter : Nat) → K × Nat

end Configurations

variable {K : Type} [Field K] [LinearOrder K] [FloorRing K]

def DEFAULT_DP_CONFIG : DpConfig K := ⟨1, 1, 50⟩

def DpOptions.merged (options : DpOptions K) : DpConfig K where
  epsilon := options.epsilon.getD DEFAULT_DP_CONFIG.epsilon
  sensitivity := options.sensitivity.getD DEFAULT_DP_CONFIG.sensitivity
  smallDatasetThreshold :=
    options.smallDatasetThreshold.getD DEFAULT_DP_CONFIG.smallDatasetThreshold

def EPSILON_FLOOR : K := 1

def EPSILON_FLOOR_THRESHOLD : Nat := 10

/-! ### Numbers -/

section Numbers

variable (toLowerCase : JsString → JsString)

/-- An empty key counts as none. -/
def deriveFieldSensitivity (key : Option JsString) (globalSensitivity : K) (recordCount : Nat) : K :=
  match key with
  | none | some [] => globalSensitivity
  | some key =>
    let lk := toLowerCase key
    if isCountWord lk || isTotalCount lk then 1
    else if isAverage lk && 0 < recordCount then globalSensitivity / recordCount
    else globalSensitivity

def addLaplaceNoise (sample : Sampler K) (value : K) (config : DpConfig K) (counter : Nat) :
    Decimal × Nat :=
  let drawn := sample (config.sensitivity / config.epsilon) counter
  (roundPlaces 4 (value + drawn.1), drawn.2)

/-- The numeric leaf of `walkAndNoise`. -/
def noisyNumber (sample : Sampler K) (config : DpConfig K) (recordCount : Nat)
    (currentKey : Option JsString) (node : Decimal) (counter : Nat) : JsNumber × Nat :=
  let fieldSensitivity := deriveFieldSensitivity toLowerCase currentKey config.sensitivity recordCount
  let noisy :=
    addLaplaceNoise sample (node.value : K) { config with sensitivity := fieldSensitivity } counter
  let isCountKey := currentKey.isSome && fieldSensitivity = 1
  let whole := if node.isInteger || isCountKey then Decimal.ofInt (mathRound noisy.1.value) else noisy.1
  (.finite (if 0 ≤ node.coefficient then whole.maxZero else whole), noisy.2)

def applyDpToOutput (sample : Sampler K) (output : Node) (options : DpOptions K)
    (recordCount : Nat) : Node :=
  let merged := options.merged
  if merged.smallDatasetThreshold ≤ recordCount then output
  else
    let epsilon :=
      if recordCount < EPSILON_FLOOR_THRESHOLD ∧ merged.epsilon < EPSILON_FLOOR then EPSILON_FLOOR
      else merged.epsilon
    (walkAndNoise (noisyNumber toLowerCase sample { merged with epsilon := epsilon } recordCount)
      none 0 output).1

end Numbers

end NeuralMesh.Worker.ExactDp
