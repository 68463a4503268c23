import NeuralMesh.InsertionMap
import NeuralMesh.Js.ExactNumber
import NeuralMesh.Observability.Metrics

/-! Histograms of the metrics registry. The counters of a series are kept by bound and are raised
in a walk over the list of bounds, so that a bound that stands in the list twice is raised twice. -/
namespace NeuralMesh.Observability

open Js Transition

/-- `a <= b` -/
def lessEqual : JsNumber → JsNumber → Bool
  | .finite a, .finite b => a.value ≤ b.value
  | .nan, _ | _, .nan => false
  | .infinite negative, .infinite other => negative || !other
  | .infinite negative, .finite _ => negative
  | .finite _, .infinite negative => !negative

/-- The difference `a - b` is not positive. -/
def ascending (a b : JsNumber) : Bool := lessEqual a b || a == .nan || b == .nan

structure HistogramState where
  count : Nat
  sum : JsNumber
  bucketCounts : InsertionMap JsNumber Nat
  labels : Option MetricLabels

structure Histogram where
  name : JsString
  help : JsString
  buckets : List JsNumber
  observations : InsertionMap JsString HistogramState

/-- A value without labels, or labels and a value that may be left out. -/
inductive Observation where
  | value (val : JsNumber)
  | labelled (labels : MetricLabels) (maybeValue : Option JsNumber)

namespace Observation

def labels : Observation → Option MetricLabels
  | .value _ => none
  | .labelled labels _ => some labels

def val : Observation → JsNumber
  | .value val => val
  | .labelled _ maybeValue => maybeValue.getD (.finite 0)

end Observation

namespace HistogramState

def new (buckets : List JsNumber) (labels : Option MetricLabels) : HistogramState where
  count := 0
  sum := .finite 0
  bucketCounts := buckets.foldl (fun counts b => counts.set b 0) ∅
  labels := labels

def bucketCount (state : HistogramState) (bound : JsNumber) : Nat :=
  (state.bucketCounts.get? bound).getD 0

/-- The body of the loop over the bounds. -/
def raise (val : JsNumber) (counts : InsertionMap JsNumber Nat) (bound : JsNumber) :
    InsertionMap JsNumber Nat :=
  if lessEqual val bound then counts.set bound ((counts.get? bound).getD 0 + 1) else counts

/-- `plus` is the addition of numbers. -/
def record (plus : JsNumber → JsNumber → JsNumber) (buckets : List JsNumber) (val : JsNumber)
    (state : HistogramState) : HistogramState where
  count := state.count + 1
  sum := plus state.sum val
  bucketCounts := buckets.foldl (raise val) state.bucketCounts
  labels := state.labels

end HistogramState

namespace Histogram

def new (name help : JsString) (buckets : List JsNumber) : Histogram :=
  ⟨name, help, buckets.insertionSort fun a b => ascending a b, ∅⟩

def observe (localeCompare : JsString → JsString → Int) (plus : JsNumber → JsNumber → JsNumber)
    (histogram : Histogram) (observation : Observation) : Histogram :=
  let key := labelsToKey localeCompare observation.labels
  let state := (histogram.observations.get? key).getD
    (HistogramState.new histogram.buckets observation.labels)
  { histogram with
    observations := histogram.observations.set key
      (state.record plus histogram.buckets observation.val) }

/-- The buckets of a series in the exposition, each with its bound. -/
def exportedBuckets (histogram : Histogram) (state : HistogramState) : List (JsNumber × Nat) :=
  histogram.buckets.map fun bound => (bound, state.bucketCount bound)

end Histogram

/-- What the buckets of a series say about its observations. -/
structure Cumulative (exported : List (JsNumber × Nat)) (infinity : Nat) (values : List JsNumber) :
    Prop where
  counts : ∀ bucket ∈ exported, bucket.2 = values.countP (lessEqual · bucket.1)
  monotone : ∀ bucket ∈ exported, ∀ other ∈ exported, lessEqual bucket.1 other.1 = true →
    bucket.2 ≤ other.2
  bounded : ∀ bucket ∈ exported, bucket.2 ≤ infinity

theorem lessEqual_trans {a b c : JsNumber} (first : lessEqual a b = true)
    (second : lessEqual b c = true) : lessEqual a c = true := by
  cases a with
  | nan => exact absurd first (by simp [lessEqual])
  | finite a =>
    cases b with
    | nan => exact absurd first (by simp [lessEqual])
    | finite b =>
      cases c with
      | nan => exact absurd second (by simp [lessEqual])
      | finite c =>
        exact decide_eq_true ((of_decide_eq_true first).trans (of_decide_eq_true second))
      | infinite negative => exact second
    | infinite negative => cases negative <;> cases c <;> simp_all [lessEqual]
  | infinite negative =>
    cases negative with
    | true => cases b <;> cases c <;> simp_all [lessEqual]
    | false => cases b <;> cases c <;> simp_all [lessEqual]

/-! ### One observation -/

section Counting

open HistogramState

theorem bucketCount_new (buckets : List JsNumber) (labels : Option MetricLabels)
    (bound : JsNumber) : (HistogramState.new buckets labels).bucketCount bound = 0 := by
  have zero : ∀ counts : InsertionMap JsNumber Nat, (counts.get? bound).getD 0 = 0 →
      ((buckets.foldl (fun counts b => counts.set b 0) counts).get? bound).getD 0 = 0 := by
    induction buckets with
    | nil => exact fun _ none => none
    | cons b buckets ih =>
      intro counts none
      rw [List.foldl_cons]
      refine ih _ ?_
      by_cases same : bound = b
      · rw [same, InsertionMap.get?_set, Option.getD_some]
      · rw [InsertionMap.get?_set_ne same, none]
  exact zero ∅ rfl

theorem raise_get (val bound b : JsNumber) (counts : InsertionMap JsNumber Nat) :
    ((raise val counts b).get? bound).getD 0 =
      (counts.get? bound).getD 0 + if b = bound ∧ lessEqual val bound = true then 1 else 0 := by
  rw [raise]
  by_cases below : lessEqual val b = true
  · rw [if_pos below]
    by_cases same : b = bound
    · subst same
      rw [InsertionMap.get?_set, Option.getD_some, if_pos ⟨rfl, below⟩]
    · rw [InsertionMap.get?_set_ne (Ne.symm same), if_neg fun both => same both.1, Nat.add_zero]
  · have neither : ¬ (b = bound ∧ lessEqual val bound = true) := by
      rintro ⟨rfl, under⟩
      exact below under
    rw [if_neg below, if_neg neither, Nat.add_zero]

/-- A bound is raised as often as it is listed. -/
theorem raise_all (val bound : JsNumber) (buckets : List JsNumber)
    (counts : InsertionMap JsNumber Nat) :
    ((buckets.foldl (raise val) counts).get? bound).getD 0 =
      (counts.get? bound).getD 0 +
        if lessEqual val bound = true then buckets.count bound else 0 := by
  induction buckets generalizing counts with
  | nil => rw [List.foldl_nil, List.count_nil, ite_self, Nat.add_zero]
  | cons b buckets ih =>
    rw [List.foldl_cons, ih, raise_get, List.count_cons, Nat.add_assoc]
    congr 1
    by_cases below : lessEqual val bound = true
    · simp only [below, and_true, if_true, beq_iff_eq]
      exact Nat.add_comm _ _
    · simp only [below, and_false, if_false, Nat.add_zero, reduceCtorEq]

/-- What a state says about the values that were recorded in it. -/
structure Records (buckets values : List JsNumber) (state : HistogramState) : Prop where
  count : state.count = values.length
  buckets : ∀ bound, state.bucketCount bound =
    buckets.count bound * values.countP (lessEqual · bound)

theorem Records.new (buckets : List JsNumber) (labels : Option MetricLabels) :
    Records buckets [] (HistogramState.new buckets labels) :=
  ⟨rfl, fun bound => bucketCount_new buckets labels bound⟩

theorem Records.record {buckets values : List JsNumber} {state : HistogramState}
    (records : Records buckets values state) (plus : JsNumber → JsNumber → JsNumber)
    (val : JsNumber) : Records buckets (values ++ [val]) (state.record plus buckets val) := by
  constructor
  · rw [List.length_append, ← records.count]
    rfl
  · intro bound
    have raised := raise_all val bound buckets state.bucketCounts
    have before := records.buckets bound
    unfold bucketCount at before ⊢
    rw [HistogramState.record, raised, before, List.countP_append, Nat.mul_add,
      List.countP_singleton, mul_ite, Nat.mul_one, Nat.mul_zero]

end Counting

/-! ### Runs -/

section Runs

variable {localeCompare : JsString → JsString → Int} (plus : JsNumber → JsNumber → JsNumber)

/-- The values that were observed with this key. -/
def valuesOf (localeCompare : JsString → JsString → Int) (key : JsString)
    (observations : List Observation) : List JsNumber :=
  (observations.filter fun o => labelsToKey localeCompare o.labels = key).map Observation.val

/-- Each series records the values of its key; a key without a series has none. -/
def Tracks (localeCompare : JsString → JsString → Int) (histogram : Histogram)
    (history : List Observation) : Prop :=
  ∀ key, match histogram.observations.get? key with
    | none => valuesOf localeCompare key history = []
    | some state => Records histogram.buckets (valuesOf localeCompare key history) state

theorem valuesOf_append (key : JsString) (history : List Observation) (o : Observation) :
    valuesOf localeCompare key (history ++ [o]) = valuesOf localeCompare key history ++
      if labelsToKey localeCompare o.labels = key then [o.val] else [] := by
  rw [valuesOf, List.filter_append, List.map_append, List.filter_singleton]
  split_ifs with same
  · rw [decide_eq_true same]
    rfl
  · rw [decide_eq_false same]
    rfl

theorem Tracks.observe {histogram : Histogram} {history : List Observation}
    (tracks : Tracks localeCompare histogram history) (o : Observation) :
    Tracks localeCompare (histogram.observe localeCompare plus o) (history ++ [o]) := by
  intro key
  have series := tracks key
  rw [valuesOf_append]
  by_cases same : labelsToKey localeCompare o.labels = key
  · subst same
    rw [Histogram.observe, InsertionMap.get?_set, if_pos rfl]
    dsimp only
    cases found : histogram.observations.get? (labelsToKey localeCompare o.labels) with
    | none =>
      rw [found] at series
      rw [Option.getD_none, series]
      exact (Records.new histogram.buckets o.labels).record plus o.val
    | some state =>
      rw [found] at series
      rw [Option.getD_some]
      exact series.record plus o.val
  · rw [Histogram.observe, InsertionMap.get?_set_ne (Ne.symm same), if_neg same, List.append_nil]
    exact series

/-- The series of a new histogram after some observations. -/
theorem tracks_new (name help : JsString) (buckets : List JsNumber)
    (observations : List Observation) :
    Tracks localeCompare (run (Histogram.observe localeCompare plus)
      (Histogram.new name help buckets) observations) observations := by
  have initial : Tracks localeCompare (Histogram.new name help buckets) [] := fun _ => rfl
  refine @run_history _ _ _ (fun history histogram => Tracks localeCompare histogram history)
    (fun history histogram o tracks => ?_) _ [] initial observations
  exact tracks.observe plus o

theorem buckets_run (observations : List Observation) (histogram : Histogram) :
    (run (Histogram.observe localeCompare plus) histogram observations).buckets =
      histogram.buckets := by
  induction observations generalizing histogram with
  | nil => rfl
  | cons o observations ih => exact ih (histogram.observe localeCompare plus o)

/-- Sorting and observing keep how often a bound is listed. -/
theorem count_buckets_run (name help : JsString) (buckets : List JsNumber)
    (observations : List Observation) (bound : JsNumber) :
    (run (Histogram.observe localeCompare plus) (Histogram.new name help buckets)
      observations).buckets.count bound = buckets.count bound := by
  rw [buckets_run]
  exact (List.perm_insertionSort _ buckets).count_eq bound

/-! ### The exported buckets -/

/-- The bounds that are listed more than once lie below all values. -/
def RepeatedBelow (buckets values : List JsNumber) : Prop :=
  ∀ bound, 2 ≤ buckets.count bound → ∀ value ∈ values, lessEqual value bound = false

theorem cumulative_of_counts {exported : List (JsNumber × Nat)} {values : List JsNumber}
    (counts : ∀ bucket ∈ exported, bucket.2 = values.countP (lessEqual · bucket.1)) :
    Cumulative exported values.length values := by
  refine ⟨counts, fun bucket member other member' le => ?_, fun bucket member => ?_⟩
  · rw [counts bucket member, counts other member']
    exact List.countP_mono_left fun value _ below => lessEqual_trans below le
  · rw [counts bucket member]
    exact List.countP_le_length

theorem Records.cumulative_iff {histogram : Histogram} {values : List JsNumber}
    {state : HistogramState} (records : Records histogram.buckets values state) :
    Cumulative (histogram.exportedBuckets state) state.count values ↔
      RepeatedBelow histogram.buckets values := by
  constructor
  · intro cumulative bound repeated value member
    have listed : bound ∈ histogram.buckets :=
      List.count_pos_iff.mp (Nat.lt_of_lt_of_le Nat.zero_lt_two repeated)
    have count := cumulative.counts (bound, state.bucketCount bound)
      (List.mem_map.mpr ⟨bound, listed, rfl⟩)
    dsimp only at count
    rw [records.buckets] at count
    have none : values.countP (lessEqual · bound) = 0 := by nlinarith
    exact Bool.not_eq_true _ ▸ List.countP_eq_zero.mp none value member
  · intro below
    rw [records.count]
    refine cumulative_of_counts fun bucket member => ?_
    obtain ⟨bound, listed, rfl⟩ := List.mem_map.mp member
    dsimp only
    rw [records.buckets]
    by_cases repeated : 2 ≤ histogram.buckets.count bound
    · have none : values.countP (lessEqual · bound) = 0 :=
        List.countP_eq_zero.mpr fun value member => by simp [below bound repeated value member]
      rw [none, Nat.mul_zero]
    · have once := List.count_pos_iff.mpr listed
      rw [show histogram.buckets.count bound = 1 by omega, Nat.one_mul]

/-- After any observations the buckets of a series are cumulative counts of its values exactly when
every bound that is listed more than once lies below all of them. -/
theorem buckets_cumulative_iff (name help : JsString) (buckets : List JsNumber)
    (observations : List Observation) (key : JsString) :
    (∀ state, (key, state) ∈ (run (Histogram.observe localeCompare plus)
        (Histogram.new name help buckets) observations).observations.entries →
      Cumulative ((run (Histogram.observe localeCompare plus) (Histogram.new name help buckets)
        observations).exportedBuckets state) state.count
        (valuesOf localeCompare key observations)) ↔
      RepeatedBelow buckets (valuesOf localeCompare key observations) := by
  have series := @tracks_new localeCompare plus name help buckets observations key
  cases found : (run (Histogram.observe localeCompare plus) (Histogram.new name help buckets)
    observations).observations.get? key with
  | none =>
    rw [found] at series
    rw [series]
    constructor
    · exact fun _ bound _ => List.forall_mem_nil _
    · intro _ state member
      rw [← InsertionMap.get?_eq_some_iff, found] at member
      cases member
  | some state =>
    rw [found] at series
    have exact_iff := Records.cumulative_iff series
    rw [RepeatedBelow] at exact_iff
    simp only [count_buckets_run] at exact_iff
    rw [RepeatedBelow, ← exact_iff]
    constructor
    · exact fun cumulative => cumulative state (InsertionMap.get?_eq_some_iff.mp found)
    · intro cumulative other member
      rw [← InsertionMap.get?_eq_some_iff, found, Option.some.injEq] at member
      rw [← member]
      exact cumulative

end Runs

/-- A bound that is listed twice counts a value below it twice, more than `+Inf` does. -/
theorem repeatedBound_twice :
    ¬ ∃ plus, ∀ state, ([], state) ∈ (run (Histogram.observe compareUnits plus)
        (Histogram.new (js "h") (js "h") [.finite (Decimal.ofInt 10), .finite (Decimal.ofInt 10)])
        [.value (.finite (Decimal.ofInt 5))]).observations.entries →
      Cumulative ((run (Histogram.observe compareUnits plus)
        (Histogram.new (js "h") (js "h") [.finite (Decimal.ofInt 10), .finite (Decimal.ofInt 10)])
        [.value (.finite (Decimal.ofInt 5))]).exportedBuckets state) state.count
        [.finite (Decimal.ofInt 5)] := by
  rintro ⟨plus, cumulative⟩
  have below : lessEqual (.finite (Decimal.ofInt 5)) (.finite (Decimal.ofInt 10)) = true := by
    rw [lessEqual, Decimal.value_ofInt, Decimal.value_ofInt]
    norm_num
  have counted := cumulative _ (List.mem_singleton.mpr rfl)
  have records := @tracks_new compareUnits plus (js "h") (js "h")
    [.finite (Decimal.ofInt 10), .finite (Decimal.ofInt 10)] [.value (.finite (Decimal.ofInt 5))] []
  have late := (Records.cumulative_iff records).mp counted (.finite (Decimal.ofInt 10))
    (by rw [count_buckets_run]; decide) _ (List.mem_singleton.mpr rfl)
  exact absurd (below.symm.trans late) (by decide)

end NeuralMesh.Observability
