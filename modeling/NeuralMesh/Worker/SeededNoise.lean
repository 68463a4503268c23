import NeuralMesh.Worker.ImageId
import NeuralMesh.Worker.LogicExecution

/-! The noise of a run and the journal of its receipt. The generator is seeded with the
hash of the data set and the image id, and the journal carries both in clear. -/
namespace NeuralMesh.Worker

open Js Codec Server

/-! ### Draws -/

def readUInt32BE (digest : Bytes) : Nat :=
  (digest.take 4).foldl (fun n byte => n * 256 + byte.toNat) 0

structure PrngState where
  seed : Text
  counter : Nat

/-- The `u` of `laplaceSample` times 2^32; the division is exact. -/
def PrngState.draw (sha256 : Bytes → Bytes) (prngState : PrngState) : Int :=
  readUInt32BE (sha256 (utf8 (prngState.seed ++ ':' :: natText prngState.counter))) - 0x80000000

/-- `u` is neither 0 nor -0.5. -/
def usable (u : Int) : Bool := u ≠ 0 && u ≠ -0x80000000

/-- The loop of `laplaceSample` over the draws of all counters: from a counter, the draw
that it takes and the counter that it leaves. -/
inductive Sampled (draws : Nat → Int) : Nat → Int → Nat → Prop where
  | taken {counter : Nat} (fit : usable (draws counter) = true) :
    Sampled draws counter (draws counter) (counter + 1)
  | rejected {counter next : Nat} {u : Int} (unfit : usable (draws counter) = false)
    (later : Sampled draws (counter + 1) u next) : Sampled draws counter u next

/-- The noisy number for a draw: sensitivity, logarithm, rounding and clamping. -/
abbrev NoisyNumber := DpConfig → (recordCount : Nat) → (currentKey : Option JsString) → Decimal →
  (u : Int) → JsNumber

/-- Noise that takes every number's draw from the draws of the counters. -/
structure SeededNoise (noisyNumber : NoisyNumber) (draws : Nat → Int) where
  noise : Noise
  follows : ∀ config recordCount key d counter, ∃ u,
    Sampled draws counter u (noise config recordCount key d counter).2 ∧
      (noise config recordCount key d counter).1 = noisyNumber config recordCount key d u

theorem Sampled.unique {draws : Nat → Int} {counter next next' : Nat} {u u' : Int}
    (first : Sampled draws counter u next) (second : Sampled draws counter u' next') :
    u = u' ∧ next = next' := by
  induction first with
  | taken fit =>
    cases second with
    | taken => exact ⟨rfl, rfl⟩
    | rejected unfit => exact absurd (fit.symm.trans unfit) (by decide)
  | rejected unfit _ ih =>
    cases second with
    | taken fit => exact absurd (fit.symm.trans unfit) (by decide)
    | rejected _ later => exact ih later

/-- The draws determine the noise. -/
theorem SeededNoise.unique {noisyNumber : NoisyNumber} {draws : Nat → Int}
    (a b : SeededNoise noisyNumber draws) : a.noise = b.noise := by
  funext config recordCount key d counter
  obtain ⟨u, first, value⟩ := a.follows config recordCount key d counter
  obtain ⟨u', second, value'⟩ := b.follows config recordCount key d counter
  obtain ⟨rfl, next⟩ := first.unique second
  exact Prod.ext (value.trans value'.symm) next

/-! ### The run -/

/-- The decrypted logic, the data set, and what the sandbox and the clock return. -/
structure Execution where
  logic : Bytes
  records : List JsValue
  output : Node
  fuel : Decimal
  ts : Decimal

namespace Execution

variable (sha256 : Bytes → Bytes) (e : Execution)

def imageIdHex : Text := hexText (imageId sha256 e.logic)

def datasetHash : Text := hexText (sha256 (utf8 (jsonText (.arr e.records))))

def seed : Text := e.datasetHash sha256 ++ ':' :: e.imageIdHex sha256

/-- The draw of every counter. -/
def draws : Nat → Int := fun counter => PrngState.draw sha256 ⟨e.seed sha256, counter⟩

def journalMembers (committed : JsString) : Members :=
  [(js "image_id", .str (ofText (e.imageIdHex sha256))),
    (js "dataset_hash", .str (ofText (e.datasetHash sha256))),
    (js "output_hash", .str (hashHex sha256 committed)),
    (js "fuel", .num (.finite e.fuel)),
    (js "ts", .num (.finite e.ts))]

def journal (committed : JsString) : Bytes :=
  utf8 (jsonText (.obj (e.journalMembers sha256 committed)))

end Execution

/-- What leaves the worker: the output, and the journal that its receipt seals. -/
structure LogicResult where
  output : Node
  journal : Bytes

/-- `none` is an exception. -/
def processLogicExecution (sha256 : Bytes → Bytes) (noise : Noise) (dpConfig : Option DpConfig)
    (readOnly : JsString → Bool) (e : Execution) : Option LogicResult :=
  (commitOutput ⟨noise, dpConfig, e.records.length, readOnly⟩ e.output).map fun response =>
    ⟨response.output, e.journal sha256 response.committed⟩

/-- A run over a small data set, with the noise of its seed. -/
structure NoisyRun (sha256 : Bytes → Bytes) (noisyNumber : NoisyNumber) (config : DpConfig) where
  execution : Execution
  readOnly : JsString → Bool
  seeded : SeededNoise noisyNumber (execution.draws sha256)
  result : LogicResult
  small : reaches execution.records.length config.smallDatasetThreshold = false
  completed : processLogicExecution sha256 seeded.noise (some config) readOnly execution =
    some result

/-- No function of the journal gives the draws of every run. -/
def NoiseHidden (sha256 : Bytes → Bytes) (noisyNumber : NoisyNumber) (config : DpConfig) : Prop :=
  ¬ ∃ g : Bytes → Nat → Int, ∀ run : NoisyRun sha256 noisyNumber config,
    g run.result.journal = run.execution.draws sha256

/-! ### Reading the seed in the journal -/

/-- A string member of the journal. -/
def journalText (key : JsString) (journal : Bytes) : Text :=
  match (parse (decodeUtf8 journal)).map (member key) with
  | some (.str s) => wellFormed s
  | _ => []

def seedOf (journal : Bytes) : Text :=
  journalText (js "dataset_hash") journal ++ ':' :: journalText (js "image_id") journal

def drawsOf (sha256 : Bytes → Bytes) (journal : Bytes) : Nat → Int :=
  fun counter => PrngState.draw sha256 ⟨seedOf journal, counter⟩

theorem parse_journal (sha256 : Bytes → Bytes) (e : Execution) (committed : JsString) :
    parse (decodeUtf8 (e.journal sha256 committed)) =
      some (.obj (e.journalMembers sha256 committed)) := by
  have plain : isPlain (.obj (e.journalMembers sha256 committed)) = true := by
    simp [Execution.journalMembers, isPlain, allMembersPlain]
  have keys : ((e.journalMembers sha256 committed).map Prod.fst).Pairwise
      fun a b => precedes a b = true := by
    simp only [Execution.journalMembers, List.map_cons, List.map_nil]
    decide
  have ordered : isOrdered (.obj (e.journalMembers sha256 committed)) = true := by
    refine (isOrdered_obj _).mpr ⟨List.pairwise_map.mp keys, ?_⟩
    simp [Execution.journalMembers, isOrdered]
  rw [Execution.journal, decodeUtf8_utf8, parse_jsonText plain ordered]

theorem journalText_journal (sha256 : Bytes → Bytes) (e : Execution) (committed : JsString)
    {key : JsString} {text : Text}
    (found : property key (e.journalMembers sha256 committed) = .str (ofText text)) :
    journalText key (e.journal sha256 committed) = text := by
  rw [journalText, parse_journal, Option.map_some, member, found]
  exact wellFormed_ofText text

theorem seedOf_journal (sha256 : Bytes → Bytes) (e : Execution) (committed : JsString) :
    seedOf (e.journal sha256 committed) = e.seed sha256 := by
  have image : property (js "image_id") (e.journalMembers sha256 committed) =
      .str (ofText (e.imageIdHex sha256)) := rfl
  have dataset : property (js "dataset_hash") (e.journalMembers sha256 committed) =
      .str (ofText (e.datasetHash sha256)) := rfl
  rw [seedOf, journalText_journal sha256 e committed image,
    journalText_journal sha256 e committed dataset, Execution.seed]

variable {sha256 : Bytes → Bytes} {noisyNumber : NoisyNumber} {config : DpConfig}

/-- The journal gives the draws. -/
theorem drawsOf_journal (run : NoisyRun sha256 noisyNumber config) :
    drawsOf sha256 run.result.journal = run.execution.draws sha256 := by
  obtain ⟨response, -, same⟩ := Option.map_eq_some_iff.mp run.completed
  rw [← same]
  funext counter
  rw [drawsOf, seedOf_journal, Execution.draws]

/-- Whoever has the journal computes the noise that the released numbers carry. -/
theorem released_noise (run : NoisyRun sha256 noisyNumber config)
    (recovered : SeededNoise noisyNumber (drawsOf sha256 run.result.journal)) :
    run.result.output = sanitizeOutput (walkAndNoise
      (recovered.noise config run.execution.records.length) none 0 run.execution.output).1 := by
  have draws := drawsOf_journal run
  have same : recovered.noise = run.seeded.noise := by
    revert recovered
    rw [draws]
    exact fun recovered => recovered.unique run.seeded
  have released : run.result.output = sanitizeOutput (walkAndNoise
      (run.seeded.noise config run.execution.records.length) none 0 run.execution.output).1 := by
    obtain ⟨response, committed, result⟩ := Option.map_eq_some_iff.mp run.completed
    rw [commitOutput] at committed
    split_ifs at committed
    cases committed
    rw [← result]
    dsimp only [withNoise]
    rw [applyDpToOutput, if_neg (by simp [run.small])]
  rw [same]
  exact released

/-- For no configuration does the journal hide the noise. -/
theorem noise_not_hidden (sha256 : Bytes → Bytes) (noisyNumber : NoisyNumber) (config : DpConfig) :
    ¬ NoiseHidden sha256 noisyNumber config :=
  fun hidden => hidden ⟨drawsOf sha256, drawsOf_journal⟩

/-! ### A run without records -/

/-- The defaults of a tool's policy. -/
def defaultConfig : DpConfig where
  epsilon := .finite ⟨1, 0, .inr (by decide)⟩
  sensitivity := .finite ⟨1, 0, .inr (by decide)⟩
  smallDatasetThreshold := .finite ⟨5, 1, .inr (by decide)⟩

def shifted : NoisyNumber := fun _ _ _ d u => .finite (Decimal.normalize (d.coefficient + u) d.exponent)

def emptyExecution : Execution := ⟨utf8 "return 0".toList, [], .num (.finite 0), 0, 0⟩

/-- With the identity for the hash function, every counter gives the same draw. -/
theorem emptyExecution_draws (counter : Nat) : emptyExecution.draws id counter = -0x4A9DCA9C := by
  rfl

def emptySeeded : SeededNoise shifted (emptyExecution.draws id) where
  noise config recordCount key d counter :=
    (shifted config recordCount key d (-0x4A9DCA9C), counter + 1)
  follows config recordCount key d counter := by
    refine ⟨-0x4A9DCA9C, ?_, rfl⟩
    rw [← emptyExecution_draws counter]
    exact .taken (by rw [emptyExecution_draws]; decide)

/-- The draws of a run over an empty data set are read off its journal. -/
theorem empty_run_reveals : (∃ run : NoisyRun id shifted defaultConfig,
    run.execution = emptyExecution) ∧ ¬ NoiseHidden id shifted defaultConfig := by
  constructor
  · exact ⟨⟨emptyExecution, fun _ => false, emptySeeded, _, rfl, rfl⟩, rfl⟩
  · exact fun hidden => hidden ⟨drawsOf id, drawsOf_journal⟩

end NeuralMesh.Worker
