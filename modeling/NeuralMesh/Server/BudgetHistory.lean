import NeuralMesh.Server.BudgetTables
import NeuralMesh.Transition

/-! The counts in memory over every run of queries and resets: each count is the number of
accepted queries since the last reset. -/
namespace NeuralMesh.Server

open Js

inductive BudgetCall where
  | apply (clientId toolName : JsString) (extractedFields : List JsString)
  | reset (clientId : JsString) (toolName : Option JsString)

namespace BudgetCall

/-- The analyzer extracts each field once. -/
def Distinct : BudgetCall → Prop
  | .apply _ _ extractedFields => extractedFields.Nodup
  | .reset _ _ => True

/-- The call may change the counts of this pair. -/
def Concerns (c t : JsString) : BudgetCall → Prop
  | .apply clientId toolName _ => c = clientId ∧ t = toolName
  | .reset clientId toolName => Clears clientId toolName c t

/-- The accepted queries on the field that the call is. -/
def queries (c t field : JsString) (accepted : Bool) : BudgetCall → Nat
  | .apply clientId toolName extractedFields =>
    if accepted = true ∧ (c = clientId ∧ t = toolName) ∧ field ∈ extractedFields then 1 else 0
  | .reset _ _ => 0

/-- The call names the pair in a reset. -/
def namesReset (c t : JsString) : BudgetCall → Bool
  | .apply _ _ _ => false
  | .reset clientId toolName => Clears clientId toolName c t

end BudgetCall

/-- The calls, newest first, each with whether it was accepted. -/
abbrev BudgetLog := List (BudgetCall × Bool)

/-- The accepted queries on the field since the last call that resets. -/
def acceptedSince (resets : BudgetCall → Bool → Bool) (c t field : JsString) : BudgetLog → Nat
  | [] => 0
  | (call, accepted) :: earlier =>
    if resets call accepted then 0
    else acceptedSince resets c t field earlier + call.queries c t field accepted

/-- A reset that the guard lets through. -/
def acceptedReset (c t : JsString) (call : BudgetCall) (accepted : Bool) : Bool :=
  accepted && call.namesReset c t

structure MemoryRun where
  budget : FieldQueryBudget
  log : BudgetLog

def MemoryRun.start : MemoryRun := ⟨∅, []⟩

section Runs

variable (analyzer : TaintAnalyzer) (policies : JsString → Option LogicExecutionPolicy)

/-- The limit of a field of a tool, whose policy is fixed. -/
def fieldLimitOf (toolName field : JsString) : Nat :=
  (analyzer.queryLimit (policies toolName) field).queries

def MemoryRun.step (s : MemoryRun) (call : BudgetCall) : MemoryRun :=
  match call with
  | .apply clientId toolName extractedFields =>
    let applied := s.budget.applyInMemoryBudget analyzer clientId toolName extractedFields
      (policies toolName)
    ⟨applied.2, (call, applied.1.isNone) :: s.log⟩
  | .reset clientId toolName =>
    ⟨s.budget.resetFieldBudget clientId toolName,
      (call, !refusesReset clientId toolName) :: s.log⟩

end Runs

variable {analyzer : TaintAnalyzer} {policies : JsString → Option LogicExecutionPolicy}

variable (analyzer) in
/-- What a query does: a rejected one changes no count, and an accepted one stays below each
limit and counts each of its fields once. -/
theorem applyInMemoryBudget_cases (budget : FieldQueryBudget) (clientId toolName : JsString)
    (fields : List JsString) (policy : Option LogicExecutionPolicy) :
    ((budget.applyInMemoryBudget analyzer clientId toolName fields policy).1.isNone = false ∧
      (budget.applyInMemoryBudget analyzer clientId toolName fields policy).2.count =
        budget.count) ∨
    ((budget.applyInMemoryBudget analyzer clientId toolName fields policy).1.isNone = true ∧
      (∀ field ∈ fields,
        budget.count clientId toolName field < (analyzer.queryLimit policy field).queries) ∧
      (budget.applyInMemoryBudget analyzer clientId toolName fields policy).2.count =
        charge budget.count clientId toolName fields) := by
  let budgets : BudgetState := ⟨budget.count, fun _ _ _ _ => 0⟩
  obtain ⟨reason, counts⟩ := count_applyInMemoryBudget analyzer budget budgets rfl
    clientId toolName fields policy
  rw [reason, counts, applyInMemoryBudget]
  cases passed : exhausted analyzer (fun field => some (budget.count clientId toolName field)) policy
    fields with
  | some reason => exact .inl ⟨rfl, rfl⟩
  | none => exact .inr ⟨rfl, fun field member => exhausted_none passed member rfl, rfl⟩

theorem charge_of_nodup {counts : Counts} {clientId toolName : JsString} {fields : List JsString}
    (distinct : fields.Nodup) (c t field : JsString) :
    charge counts clientId toolName fields c t field =
      counts c t field + BudgetCall.queries c t field true (.apply clientId toolName fields) := by
  rw [charge, BudgetCall.queries]
  by_cases pair : c = clientId ∧ t = toolName
  · rw [if_pos pair]
    by_cases member : field ∈ fields
    · rw [if_pos ⟨rfl, pair, member⟩, List.count_eq_one_of_mem distinct member]
    · rw [if_neg fun all => member all.2.2, List.count_eq_zero_of_not_mem member]
  · rw [if_neg pair, if_neg fun all => pair all.2.1]

namespace MemoryRun

/-- The counts are those of the log, and below the limits. -/
structure Accounted (analyzer : TaintAnalyzer) (policies : JsString → Option LogicExecutionPolicy)
    (s : MemoryRun) : Prop where
  exact : ∀ c t field, s.budget.count c t field =
    acceptedSince (acceptedReset c t) c t field s.log
  limited : ∀ c t field, s.budget.count c t field ≤ fieldLimitOf analyzer policies t field

theorem start_accounted : Accounted analyzer policies .start :=
  ⟨fun _ _ _ => rfl, fun _ _ _ => Nat.zero_le _⟩

theorem apply_accounted {s : MemoryRun} (good : s.Accounted analyzer policies)
    {clientId toolName : JsString} {fields : List JsString} (distinct : fields.Nodup) :
    (s.step analyzer policies (.apply clientId toolName fields)).Accounted analyzer policies := by
  rcases applyInMemoryBudget_cases analyzer s.budget clientId toolName fields
    (policies toolName) with ⟨rejected, same⟩ | ⟨accepted, below, charged⟩
  · constructor
    · intro c t field
      rw [step, same, rejected, acceptedSince]
      exact good.exact c t field
    · intro c t field
      rw [step, same]
      exact good.limited c t field
  · constructor
    · intro c t field
      rw [step, charged, accepted, acceptedSince, charge_of_nodup distinct, good.exact c t field]
      rfl
    · intro c t field
      rw [step, charged, charge_of_nodup distinct, BudgetCall.queries]
      split_ifs with queried
      · obtain ⟨-, ⟨rfl, rfl⟩, member⟩ := queried
        exact below field member
      · exact good.limited c t field

theorem reset_accounted {s : MemoryRun} (good : s.Accounted analyzer policies)
    (clientId : JsString) (toolName : Option JsString) :
    (s.step analyzer policies (.reset clientId toolName)).Accounted analyzer policies := by
  constructor
  · intro c t field
    rw [step, count_resetFieldBudget, acceptedSince, acceptedReset, BudgetCall.namesReset]
    by_cases clears : refusesReset clientId toolName = false ∧ Clears clientId toolName c t
    · rw [if_pos clears, clears.1, decide_eq_true clears.2]
      rfl
    · rw [if_neg clears, if_neg]
      · exact good.exact c t field
      · intro both
        rw [Bool.and_eq_true, Bool.not_eq_true', decide_eq_true_eq] at both
        exact clears both
  · intro c t field
    rw [step, count_resetFieldBudget]
    split_ifs
    · exact Nat.zero_le _
    · exact good.limited c t field

theorem step_accounted (s : MemoryRun) (call : BudgetCall) (good : s.Accounted analyzer policies)
    (distinct : call.Distinct) : (s.step analyzer policies call).Accounted analyzer policies := by
  cases call with
  | apply clientId toolName fields => exact apply_accounted good distinct
  | reset clientId toolName => exact reset_accounted good clientId toolName

/-- A call that is not accepted, and a call about another pair, change no count. -/
theorem step_unchanged (s : MemoryRun) (call : BudgetCall) (c t field : JsString)
    (idle : (s.step analyzer policies call).log = (call, false) :: s.log ∨ ¬ call.Concerns c t) :
    (s.step analyzer policies call).budget.count c t field = s.budget.count c t field := by
  cases call with
  | apply clientId toolName fields =>
    rcases applyInMemoryBudget_cases analyzer s.budget clientId toolName fields
      (policies toolName) with ⟨rejected, same⟩ | ⟨accepted, -, charged⟩
    · rw [step, same]
    · rcases idle with rejected | other
      · rw [step, accepted] at rejected
        cases rejected
      · rw [step, charged, charge, if_neg (show ¬ (c = clientId ∧ t = toolName) from other)]
        rfl
  | reset clientId toolName =>
    rw [step, count_resetFieldBudget, if_neg]
    rintro ⟨allowed, clears⟩
    rcases idle with refused | other
    · rw [step, allowed] at refused
      cases refused
    · exact other clears

/-- In every run each count is the number of accepted queries on the field since the last reset
that the guard let through, within the limit; and a further call that is rejected, or about
another pair, changes no count. -/
theorem run_accounted {calls : List BudgetCall} (distinct : ∀ call ∈ calls, call.Distinct)
    (c t field : JsString) :
    let reached := Transition.run (step analyzer policies) start calls
    reached.budget.count c t field = acceptedSince (acceptedReset c t) c t field reached.log ∧
      reached.budget.count c t field ≤ fieldLimitOf analyzer policies t field ∧
      ∀ call, (reached.step analyzer policies call).log = (call, false) :: reached.log ∨
        ¬ call.Concerns c t → (reached.step analyzer policies call).budget.count c t field =
          reached.budget.count c t field := by
  have good := Transition.run_invariant step_accounted
    (start_accounted : start.Accounted analyzer policies)
    (.of_forall (fun call member _ => distinct call member) start)
  exact ⟨good.exact c t field, good.limited c t field,
    fun call idle => step_unchanged _ call c t field idle⟩

/-- An analyzer for which every field is public. -/
def publicAnalyzer : TaintAnalyzer := ⟨fun _ _ _ => none, fun _ => [], id, [], []⟩

theorem two_queries_accounted :
    let calls := [.apply (js "c") (js "t") [js "f"], .reset (js "c") none,
      .apply (js "c") (js "t") [js "f", js "g"]]
    let reached := Transition.run (step publicAnalyzer fun _ => none) start calls
    reached.budget.count (js "c") (js "t") (js "f") = 1 := by
  have accounted := @run_accounted publicAnalyzer (fun _ => none)
    [.apply (js "c") (js "t") [js "f"], .reset (js "c") none,
      .apply (js "c") (js "t") [js "f", js "g"]]
    (by
      intro call member
      simp only [List.mem_cons, List.not_mem_nil, or_false] at member
      rcases member with rfl | rfl | rfl
      · exact List.nodup_singleton _
      · trivial
      · change List.Nodup [js "f", js "g"]
        decide)
    (js "c") (js "t") (js "f")
  exact accounted.1

/-- A reset of a client with a refused name clears nothing. -/
theorem refused_reset_keeps_count :
    let calls := [.apply (js "__proto__") (js "t") [js "f"], .reset (js "__proto__") none]
    let reached := Transition.run (step publicAnalyzer fun _ => none) start calls
    reached.budget.count (js "__proto__") (js "t") (js "f") = 1 ∧
      acceptedSince (fun call _ => call.namesReset (js "__proto__") (js "t")) (js "__proto__")
        (js "t") (js "f") reached.log = 0 := by
  decide +kernel

end MemoryRun

end NeuralMesh.Server
