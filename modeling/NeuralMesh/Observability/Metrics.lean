import Mathlib.Data.List.AList
import Mathlib.Data.List.Sort
import NeuralMesh.Codec.FieldText
import NeuralMesh.Server.SemanticEvidence
import NeuralMesh.Transition

/-! Counters of the metrics registry. The series of a label set is found under a text of its
labels, and the marks of that text may stand in the labels: label sets share a series exactly when
their labels in the order of the names are respellings of each other. -/
namespace NeuralMesh.Observability

open Js Codec Transition

inductive LabelValue where
  | string (s : JsString)
  | number (n : JsNumber)
  deriving DecidableEq

/-- The value in a template. -/
def LabelValue.spelled : LabelValue → JsString
  | .string s => s
  | .number n => Server.numberString n

structure MetricLabels where
  entries : List (JsString × LabelValue)
  unique : UniqueKeys entries

/-- `Object.entries`; there are none without an object. -/
def labelEntries (labels : Option MetricLabels) : List (JsString × LabelValue) :=
  labels.elim [] MetricLabels.entries

/-- The same labels up to their order. -/
def SameLabels (labels other : Option MetricLabels) : Prop :=
  (labelEntries labels).Perm (labelEntries other)

instance : DecidableRel SameLabels := fun labels other =>
  inferInstanceAs (Decidable ((labelEntries labels).Perm (labelEntries other)))

structure Series (M : Type) where
  value : M
  labels : Option MetricLabels

structure Counter (M : Type) where
  values : AList fun _ : JsString => Series M

structure IncCall (M : Type) where
  labels : Option MetricLabels
  value : M

section Registry

/-! The order of names is that of the implementation. -/

variable (localeCompare : JsString → JsString → Int)

def sortedEntries (labels : Option MetricLabels) : List (JsString × LabelValue) :=
  (labelEntries labels).insertionSort fun a b => localeCompare a.1 b.1 ≤ 0

/-- The labels in the order of their names, as they are spelled. -/
def spelledLabels (labels : Option MetricLabels) : List (JsString × JsString) :=
  (sortedEntries localeCompare labels).map fun entry => (entry.1, entry.2.spelled)

def labelsToKey : Option MetricLabels → JsString
  | none => []
  | some labels => (js "|").intercalate
      ((sortedEntries localeCompare (some labels)).map fun (k, v) => k ++ js ":" ++ v.spelled)

variable {M : Type} [Zero M] [Add M] [LT M] [DecidableLT M]

namespace Counter

def empty : Counter M := ⟨∅⟩

/-- `none` is the error for a negative value. -/
def inc (counter : Counter M) (labels : Option MetricLabels) (value : M) : Option (Counter M) :=
  if value < 0 then none
  else
    let key := labelsToKey localeCompare labels
    let current := (counter.values.lookup key).getD ⟨0, labels⟩
    some ⟨counter.values.insert key { current with value := current.value + value }⟩

def get (counter : Counter M) (labels : Option MetricLabels) : M :=
  ((counter.values.lookup (labelsToKey localeCompare labels)).map Series.value).getD 0

/-- A call that throws leaves the counter as it is. -/
def onCall (counter : Counter M) (call : IncCall M) : Counter M :=
  (counter.inc localeCompare call.labels call.value).getD counter

end Counter

/-- A call that does not throw adds its value. -/
def addCall (sum : M) (call : IncCall M) : M :=
  if call.value < 0 then sum else sum + call.value

/-- The sum of the increments that were made with these labels. -/
def total (labels : Option MetricLabels) (calls : List (IncCall M)) : M :=
  (calls.filter fun call => SameLabels call.labels labels).foldl addCall 0

/-! ### Keys -/

variable {localeCompare} {counter : Counter M} {labels other : Option MetricLabels}

theorem labelsToKey_text (labels : Option MetricLabels) :
    labelsToKey localeCompare labels =
      fieldsText 0x3A 0x7C (spelledLabels localeCompare labels) := by
  cases labels with
  | none => rfl
  | some labels =>
    have marks : js "|" = [0x7C] ∧ js ":" = [0x3A] := by decide
    unfold labelsToKey fieldsText spelledLabels
    rw [marks.1, marks.2, List.map_map]
    simp only [Function.comp_def, fieldText, List.append_assoc, List.singleton_append]

/-- The label sets have one key exactly when one is a respelling of the other. -/
theorem labelsToKey_eq_iff : labelsToKey localeCompare labels = labelsToKey localeCompare other ↔
    Respelled 0x3A 0x7C (spelledLabels localeCompare labels)
      (spelledLabels localeCompare other) := by
  rw [labelsToKey_text, labelsToKey_text, respelled_iff]

/-! ### One call -/

theorem get_onCall (counter : Counter M) (call : IncCall M) (labels : Option MetricLabels) :
    (counter.onCall localeCompare call).get localeCompare labels =
      if labelsToKey localeCompare call.labels = labelsToKey localeCompare labels then
        addCall (counter.get localeCompare labels) call
      else counter.get localeCompare labels := by
  unfold Counter.onCall Counter.inc addCall
  split_ifs with refused same same
  · rfl
  · rfl
  · unfold Counter.get
    dsimp only
    rw [Option.getD_some, same, AList.lookup_insert, Option.map_some, Option.getD_some]
    cases counter.values.lookup (labelsToKey localeCompare labels) <;> rfl
  · unfold Counter.get
    dsimp only
    rw [Option.getD_some, AList.lookup_insert_ne (Ne.symm same)]

/-- Only calls with the key of the labels are summed. -/
theorem get_run (calls : List (IncCall M)) (counter : Counter M) (labels : Option MetricLabels) :
    (run (Counter.onCall localeCompare) counter calls).get localeCompare labels =
      (calls.filter fun call => labelsToKey localeCompare call.labels =
        labelsToKey localeCompare labels).foldl addCall (counter.get localeCompare labels) := by
  induction calls generalizing counter with
  | nil => rfl
  | cons call calls ih =>
    rw [run, List.foldl_cons, ← run, ih, get_onCall]
    split_ifs with same
    · rw [List.filter_cons, if_pos (decide_eq_true same), List.foldl_cons]
    · rw [List.filter_cons, if_neg (by simpa using same)]

/-! ### Label sets that are used together -/

/-- Each label set has the sum of its own increments, and none changes what another has. -/
structure Independent (M : Type) [Zero M] [Add M] [LT M] [DecidableLT M]
    (localeCompare : JsString → JsString → Int) (used : Set (Option MetricLabels)) : Prop where
  sums : ∀ calls : List (IncCall M), (∀ call ∈ calls, call.labels ∈ used) → ∀ labels ∈ used,
    (run (Counter.onCall localeCompare) Counter.empty calls).get localeCompare labels =
      total labels calls
  apart : ∀ labels ∈ used, ∀ other ∈ used, ¬ SameLabels labels other →
    ∀ (counter : Counter M) (value : M),
      (counter.onCall localeCompare ⟨labels, value⟩).get localeCompare other =
        counter.get localeCompare other

/-- The labels of two sets are the same exactly when they are respellings of each other. -/
def Separable (localeCompare : JsString → JsString → Int) (used : Set (Option MetricLabels)) :
    Prop :=
  ∀ labels ∈ used, ∀ other ∈ used, SameLabels labels other ↔
    Respelled 0x3A 0x7C (spelledLabels localeCompare labels) (spelledLabels localeCompare other)

variable {used : Set (Option MetricLabels)}

theorem Separable.independent (separable : Separable localeCompare used) :
    Independent M localeCompare used := by
  have keys {labels other : Option MetricLabels} (member : labels ∈ used) (member' : other ∈ used) :
      labelsToKey localeCompare labels = labelsToKey localeCompare other ↔
        SameLabels labels other :=
    labelsToKey_eq_iff.trans (separable labels member other member').symm
  constructor
  · intro calls within labels member
    rw [get_run, total]
    refine congrArg (List.foldl addCall 0) (List.filter_congr fun call called => ?_)
    exact decide_eq_decide.mpr (keys (within call called) member)
  · intro labels member other member' different counter value
    rw [get_onCall, if_neg fun same => different ((keys member member').mp same)]

/-- One increment shows which label sets have one key. -/
theorem Independent.separable [One M] (visible : (0 : M) + 1 ≠ 0) (positive : ¬ (1 : M) < 0)
    (independent : Independent M localeCompare used) : Separable localeCompare used := by
  intro labels member other member'
  rw [← labelsToKey_eq_iff]
  have once := independent.sums [⟨labels, 1⟩] (by simpa using member) other member'
  rw [get_run, total, List.filter_singleton, List.filter_singleton] at once
  dsimp only at once
  have shown : [(⟨labels, 1⟩ : IncCall M)].foldl addCall 0 ≠ 0 := by
    simpa [addCall, positive] using visible
  constructor
  · intro same
    by_contra different
    rw [decide_eq_false different, decide_eq_true same] at once
    exact shown once.symm
  · intro same
    by_contra different
    rw [decide_eq_true same, decide_eq_false different] at once
    exact shown once

/-- The series of label sets that are used together are independent exactly when labels are the
same whenever, in the order of their names, they are respellings of each other, and only then. -/
theorem independent_iff [One M] (visible : (0 : M) + 1 ≠ 0) (positive : ¬ (1 : M) < 0)
    (used : Set (Option MetricLabels)) :
    Independent M localeCompare used ↔ Separable localeCompare used :=
  ⟨Independent.separable visible positive, Separable.independent⟩

end Registry

/-! ### Labels of two names -/

/-- Names by their code units. -/
def compareUnits : JsString → JsString → Int
  | [], [] => 0
  | [], _ :: _ => -1
  | _ :: _, [] => 1
  | a :: as, b :: bs => if a < b then -1 else if b < a then 1 else compareUnits as bs

def statusAndTool : MetricLabels where
  entries := [(js "status", .string (js "ok")), (js "tool", .string (js "sum"))]
  unique := List.pairwise_pair.mpr (by decide)

def toolAndStatus : MetricLabels where
  entries := [(js "tool", .string (js "sum")), (js "status", .string (js "ok"))]
  unique := List.pairwise_pair.mpr (by decide)

/-- One label, whose value spells the second one of the others. -/
def statusOnly : MetricLabels where
  entries := [(js "status", .string (js "ok|tool:sum"))]
  unique := List.pairwise_singleton _ _

theorem orders_independent :
    Independent ℕ compareUnits {none, some statusAndTool, some toolAndStatus} := by
  refine (independent_iff (by decide) (by decide) _).mpr ?_
  rintro labels (rfl | rfl | rfl) other (rfl | rfl | rfl) <;> rw [← labelsToKey_eq_iff] <;>
    decide +kernel

/-- A bar in a value reaches the series of other labels. -/
theorem statusOnly_shared :
    ¬ Independent ℕ compareUnits {some statusOnly, some statusAndTool} := by
  intro independent
  have shared := independent.sums [⟨some statusOnly, 1⟩] (by simp) (some statusAndTool) (by simp)
  exact absurd shared (by decide +kernel)

end NeuralMesh.Observability
