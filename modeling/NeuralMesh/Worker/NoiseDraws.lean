import NeuralMesh.Worker.SeededNoise
import NeuralMesh.Worker.NoisyShape

/-! What a run with a seed hashes. The numbers of the output, in the order of the walk, take the
counters from 0 on, each as many as its loop needs, and none twice. -/
namespace NeuralMesh.Worker

open Js Codec Server

/-! ### Runs -/

/-- `${prngState.seed}:${prngState.counter}` -/
def hashInput (seed : Text) (counter : Nat) : Text := seed ++ ':' :: natText counter

section Runs

variable (sha256 : Bytes → Bytes) (seed : Text)

/-- The loop of `laplaceSample` from a counter: what it hashes, the draw that it takes and the
counter that it leaves. -/
inductive Hashed : Nat → List Text → Int → Nat → Prop
  | taken {counter : Nat} (fit : usable (PrngState.draw sha256 ⟨seed, counter⟩) = true) :
    Hashed counter [hashInput seed counter] (PrngState.draw sha256 ⟨seed, counter⟩) (counter + 1)
  | rejected {counter next : Nat} {inputs : List Text} {u : Int}
    (unfit : usable (PrngState.draw sha256 ⟨seed, counter⟩) = false)
    (later : Hashed (counter + 1) inputs u next) :
    Hashed counter (hashInput seed counter :: inputs) u next

variable (noisyNumber : Option JsString → Decimal → (u : Int) → JsNumber)

mutual

/-- `walkAndNoise` with a seed: under a key and from a counter, each number with what is hashed for
it, the noisy tree and the next counter. -/
inductive NoiseRun : Option JsString → Nat → Node → List (Decimal × List Text) → Node → Nat → Prop
  | scalar {currentKey : Option JsString} {counter : Nat} (s : Scalar) :
    NoiseRun currentKey counter (.scalar s) [] (.scalar s) counter
  | other {currentKey : Option JsString} {counter : Nat} {n : JsNumber}
    (infinite : ∀ d, n ≠ .finite d) : NoiseRun currentKey counter (.num n) [] (.num n) counter
  | number {currentKey : Option JsString} {counter next : Nat} {d : Decimal} {inputs : List Text}
    {u : Int} (hashed : Hashed sha256 seed counter inputs u next) :
    NoiseRun currentKey counter (.num (.finite d)) [(d, inputs)]
      (.num (noisyNumber currentKey d u)) next
  | branch {currentKey : Option JsString} {counter next : Nat} {label : Option Nat} {array : Bool}
    {entries entries' : Entries} {leaves : List (Decimal × List Text)}
    (run : NoiseRunEntries currentKey array counter entries leaves entries' next) :
    NoiseRun currentKey counter (.branch label array entries) leaves (.branch none array entries') next

inductive NoiseRunEntries : Option JsString → Bool → Nat → Entries → List (Decimal × List Text) →
    Entries → Nat → Prop
  | nil {currentKey : Option JsString} {array : Bool} {counter : Nat} :
    NoiseRunEntries currentKey array counter [] [] [] counter
  | cons {currentKey : Option JsString} {array : Bool} {counter after next : Nat} {key : JsString}
    {x x' : Node} {entries entries' : Entries} {leaves leaves' : List (Decimal × List Text)}
    (first : NoiseRun (if array then currentKey else some key) counter x leaves x' after)
    (rest : NoiseRunEntries currentKey array after entries leaves' entries' next) :
    NoiseRunEntries currentKey array counter ((key, x) :: entries) (leaves ++ leaves')
      (if dropped array key then entries' else (key, x') :: entries') next

end

end Runs

mutual

/-- The finite numbers, in the order of the walk. -/
def numericLeaves : Node → List Decimal
  | .num (.finite d) => [d]
  | .branch _ _ entries => entryLeaves entries
  | _ => []

def entryLeaves : Entries → List Decimal
  | [] => []
  | (_, x) :: entries => numericLeaves x ++ entryLeaves entries

end

/-- Each list has the inputs of an interval of counters that begins where the last one ended. -/
inductive Consecutive (seed : Text) : Nat → List (List Text) → Nat → Prop
  | nil {counter : Nat} : Consecutive seed counter [] counter
  | cons {start stop next : Nat} {intervals : List (List Text)} (nonempty : start < stop)
    (later : Consecutive seed stop intervals next) :
    Consecutive seed start (((List.range' start (stop - start)).map (hashInput seed)) :: intervals) next

variable {sha256 : Bytes → Bytes} {seed : Text}

theorem hashInput_injective (seed : Text) : Function.Injective (hashInput seed) := by
  intro a b same
  simp only [hashInput, List.append_cancel_left_eq, List.cons.injEq, true_and] at same
  rw [← ofDigits_natText a, same, ofDigits_natText]

/-! ### Intervals -/

/-- The loop hashes the counters from the first to the last, each once. -/
theorem Hashed.interval {counter next : Nat} {inputs : List Text} {u : Int}
    (hashed : Hashed sha256 seed counter inputs u next) :
    counter < next ∧ inputs = (List.range' counter (next - counter)).map (hashInput seed) := by
  induction hashed with
  | @taken counter fit =>
    refine ⟨Nat.lt_succ_self counter, ?_⟩
    rw [Nat.add_sub_cancel_left, List.range'_one, List.map_singleton]
  | @rejected counter next inputs u unfit later ih =>
    obtain ⟨before, rfl⟩ := ih
    have length : next - counter = next - (counter + 1) + 1 := by omega
    refine ⟨by omega, ?_⟩
    rw [length, List.range'_succ, List.map_cons]

theorem Consecutive.append {start middle stop : Nat} {first rest : List (List Text)}
    (before : Consecutive seed start first middle) (after : Consecutive seed middle rest stop) :
    Consecutive seed start (first ++ rest) stop := by
  induction before with
  | nil => exact after
  | cons nonempty _ ih => exact .cons nonempty (ih after)

/-- Consecutive intervals have the inputs of all counters of the whole. -/
theorem Consecutive.flatten {start stop : Nat} {intervals : List (List Text)}
    (consecutive : Consecutive seed start intervals stop) :
    start ≤ stop ∧
      intervals.flatten = (List.range' start (stop - start)).map (hashInput seed) := by
  induction consecutive with
  | nil => simp
  | @cons start middle stop intervals nonempty later ih =>
    obtain ⟨order, rest⟩ := ih
    refine ⟨by omega, ?_⟩
    have length : stop - start = (middle - start) + (stop - middle) := by omega
    have place : middle = start + (middle - start) := by omega
    rw [List.flatten_cons, rest, ← List.map_append, length, ← List.range'_append_1, ← place]

/-- No input is in two intervals, or twice in one. -/
theorem Consecutive.nodup {start stop : Nat} {intervals : List (List Text)}
    (consecutive : Consecutive seed start intervals stop) : intervals.flatten.Nodup := by
  rw [consecutive.flatten.2]
  exact List.Nodup.map (hashInput_injective seed) List.nodup_range'

/-! ### The numbers of an output -/

variable {noisyNumber : Option JsString → Decimal → (u : Int) → JsNumber}

mutual

theorem NoiseRun.leaves {currentKey : Option JsString} {counter next : Nat} {x x' : Node}
    {leaves : List (Decimal × List Text)}
    (run : NoiseRun sha256 seed noisyNumber currentKey counter x leaves x' next) :
    leaves.map Prod.fst = numericLeaves x ∧ Consecutive seed counter (leaves.map Prod.snd) next := by
  cases run with
  | scalar s => exact ⟨rfl, .nil⟩
  | @other _ _ n infinite =>
    cases n with
    | finite d => exact absurd rfl (infinite d)
    | nan | infinite => exact ⟨rfl, .nil⟩
  | number hashed =>
    obtain ⟨nonempty, inputs⟩ := hashed.interval
    refine ⟨rfl, ?_⟩
    rw [List.map_singleton, inputs]
    exact .cons nonempty .nil
  | branch run => exact run.leaves

theorem NoiseRunEntries.leaves {currentKey : Option JsString} {array : Bool} {counter next : Nat}
    {entries entries' : Entries} {leaves : List (Decimal × List Text)}
    (run : NoiseRunEntries sha256 seed noisyNumber currentKey array counter entries leaves entries'
      next) :
    leaves.map Prod.fst = entryLeaves entries ∧
      Consecutive seed counter (leaves.map Prod.snd) next := by
  cases run with
  | nil => exact ⟨rfl, .nil⟩
  | cons first rest =>
    obtain ⟨names, before⟩ := first.leaves
    obtain ⟨names', after⟩ := rest.leaves
    rw [List.map_append, List.map_append, names, names', entryLeaves]
    exact ⟨rfl, before.append after⟩

end

/-! ### The walk of the worker -/

theorem Sampled.hashed {counter next : Nat} {u : Int}
    (sampled : Sampled (fun counter => PrngState.draw sha256 ⟨seed, counter⟩) counter u next) :
    ∃ inputs, Hashed sha256 seed counter inputs u next := by
  induction sampled with
  | taken fit => exact ⟨_, .taken fit⟩
  | rejected unfit _ ih =>
    obtain ⟨inputs, later⟩ := ih
    exact ⟨_, .rejected unfit later⟩

/-- Noise that takes its draws from the seed runs as above. -/
theorem noiseRun_walkAndNoise {noisyNumber : NoisyNumber}
    (seeded : SeededNoise noisyNumber fun counter => PrngState.draw sha256 ⟨seed, counter⟩)
    (config : DpConfig) (recordCount : Nat) :
    (∀ x currentKey counter, ∃ leaves,
      NoiseRun sha256 seed (noisyNumber config recordCount) currentKey counter x leaves
        (walkAndNoise (seeded.noise config recordCount) currentKey counter x).1
        (walkAndNoise (seeded.noise config recordCount) currentKey counter x).2) ∧
    ∀ entries currentKey array counter, ∃ leaves,
      NoiseRunEntries sha256 seed (noisyNumber config recordCount) currentKey array counter entries
        leaves
        (walkEntriesAndNoise (seeded.noise config recordCount) currentKey array counter entries).1
        (walkEntriesAndNoise (seeded.noise config recordCount) currentKey array counter entries).2 := by
  apply Node.induct
  · exact fun s currentKey counter => ⟨[], .scalar s⟩
  · intro n currentKey counter
    cases n with
    | finite d =>
      obtain ⟨u, sampled, value⟩ := seeded.follows config recordCount currentKey d counter
      obtain ⟨inputs, hashed⟩ := sampled.hashed
      refine ⟨[(d, inputs)], ?_⟩
      simp only [walkAndNoise, value]
      exact .number hashed
    | nan | infinite => exact ⟨[], .other (by rintro d ⟨⟩)⟩
  · intro label array entries ih currentKey counter
    obtain ⟨leaves, run⟩ := ih currentKey array counter
    exact ⟨leaves, .branch run⟩
  · exact fun currentKey array counter => ⟨[], .nil⟩
  · intro key x entries first rest currentKey array counter
    obtain ⟨leaves, head⟩ := first (if array then currentKey else some key) counter
    obtain ⟨leaves', tail⟩ := rest currentKey array _
    exact ⟨leaves ++ leaves', .cons head tail⟩

/-- The output of a small data set comes from such a run. -/
theorem noiseRun_applyDpToOutput {noisyNumber : NoisyNumber}
    (seeded : SeededNoise noisyNumber fun counter => PrngState.draw sha256 ⟨seed, counter⟩)
    {config : DpConfig} {recordCount : Nat}
    (small : reaches recordCount config.smallDatasetThreshold = false) (output : Node) :
    ∃ leaves next, NoiseRun sha256 seed (noisyNumber config recordCount) none 0 output leaves
      (applyDpToOutput seeded.noise output config recordCount) next := by
  rw [applyDpToOutput, if_neg (Bool.eq_false_iff.mp small)]
  obtain ⟨leaves, run⟩ := (noiseRun_walkAndNoise seeded config recordCount).1 output none 0
  exact ⟨leaves, _, run⟩

/-- The numbers of an output take consecutive intervals of counters from 0 on, none of which is
empty, and no two share an input of the hash function. -/
theorem seeded_inputs {x x' : Node} {leaves : List (Decimal × List Text)} {next : Nat}
    (run : NoiseRun sha256 seed noisyNumber none 0 x leaves x' next) :
    leaves.map Prod.fst = numericLeaves x ∧ Consecutive seed 0 (leaves.map Prod.snd) next ∧
      (leaves.map Prod.snd).flatten.Nodup := by
  obtain ⟨names, consecutive⟩ := run.leaves
  exact ⟨names, consecutive, consecutive.nodup⟩

/-! ### An output with two numbers -/

def unchanged (_currentKey : Option JsString) (d : Decimal) (_u : Int) : JsNumber := .finite d

/-- With the identity for the hash function, every counter gives a usable draw of this seed. -/
theorem seed_usable (counter : Nat) :
    usable (PrngState.draw id ⟨"seed".toList, counter⟩) = true := by
  have draw : PrngState.draw id ⟨"seed".toList, counter⟩ = -0xC9A9A9C := by rfl
  rw [draw]
  decide

/-- `{"a": 1, "b": [null, 2]}` -/
def twoNumbers : Node :=
  .branch none false [(js "a", .num (.finite (Decimal.ofInt 1))),
    (js "b", .branch none true [([], .scalar .null), ([], .num (.finite (Decimal.ofInt 2)))])]

theorem twoNumbers_run : NoiseRun id "seed".toList unchanged none 0 twoNumbers
    [(Decimal.ofInt 1, [hashInput "seed".toList 0]), (Decimal.ofInt 2, [hashInput "seed".toList 1])]
    twoNumbers 2 :=
  .branch (.cons (.number (.taken (seed_usable 0)))
    (.cons (.branch (.cons (.scalar .null) (.cons (.number (.taken (seed_usable 1))) .nil))) .nil))

theorem twoNumbers_inputs : Consecutive "seed".toList 0
      [[hashInput "seed".toList 0], [hashInput "seed".toList 1]] 2 ∧
    [hashInput "seed".toList 0, hashInput "seed".toList 1].Nodup :=
  (seeded_inputs twoNumbers_run).2

end NeuralMesh.Worker
