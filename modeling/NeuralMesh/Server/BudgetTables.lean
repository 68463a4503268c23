import NeuralMesh.Server.QueryBudget
import Mathlib.Data.List.AList

/-! The tables in which the query budget is kept: nested maps in memory, nested objects in
the budget file. An object also finds the members that every object inherits. -/
namespace NeuralMesh.Server

open Js

/-- A `Map`, or the own properties of an object; their order is not observed. -/
abbrev Table (β : Type) := AList fun _ : JsString => β

variable {β : Type}

/-- `table[key] || {}`, and the map that is created where none is found. -/
def Table.inner (table : Table (Table β)) (key : JsString) : Table β :=
  (table.lookup key).getD ∅

@[simp] theorem inner_empty (key : JsString) : Table.inner (∅ : Table (Table β)) key = ∅ := by
  rw [Table.inner, AList.lookup_empty]
  rfl

@[simp] theorem inner_insert (table : Table (Table β)) (key : JsString) (value : Table β) :
    Table.inner (table.insert key value) key = value := by
  rw [Table.inner, AList.lookup_insert]
  rfl

theorem inner_insert_ne {key other : JsString} (differ : other ≠ key) (table : Table (Table β))
    (value : Table β) : Table.inner (table.insert key value) other = table.inner other := by
  rw [Table.inner, AList.lookup_insert_ne differ]
  rfl

@[simp] theorem inner_erase (table : Table (Table β)) (key : JsString) :
    Table.inner (table.erase key) key = ∅ := by
  rw [Table.inner, AList.lookup_erase]
  rfl

theorem inner_erase_ne {key other : JsString} (differ : other ≠ key) (table : Table (Table β)) :
    Table.inner (table.erase key) other = table.inner other := by
  rw [Table.inner, AList.lookup_erase_ne differ]
  rfl

/-- The tables of the tools of the clients. -/
abbrev Budgets (β : Type) := Table (Table (Table β))

def Budgets.tool (budgets : Budgets β) (clientId toolName : JsString) : Table β :=
  (Table.inner budgets clientId).inner toolName

/-- The table of a tool, if there is one. -/
def Budgets.entry (budgets : Budgets β) (clientId toolName : JsString) : Option (Table β) :=
  (Table.inner budgets clientId).lookup toolName

theorem tool_eq_entry (budgets : Budgets β) (clientId toolName : JsString) :
    budgets.tool clientId toolName = (budgets.entry clientId toolName).getD ∅ := rfl

def Budgets.setTool (budgets : Budgets β) (clientId toolName : JsString) (tool : Table β) :
    Budgets β :=
  budgets.insert clientId ((Table.inner budgets clientId).insert toolName tool)

@[simp] theorem entry_setTool (budgets : Budgets β) (clientId toolName : JsString)
    (tool : Table β) : (budgets.setTool clientId toolName tool).entry clientId toolName =
      some tool := by
  rw [Budgets.entry, Budgets.setTool, inner_insert, AList.lookup_insert]

theorem entry_setTool_ne {clientId toolName c t : JsString}
    (differ : ¬ (c = clientId ∧ t = toolName)) (budgets : Budgets β) (tool : Table β) :
    (budgets.setTool clientId toolName tool).entry c t = budgets.entry c t := by
  rw [Budgets.entry, Budgets.entry, Budgets.setTool]
  by_cases client : c = clientId
  · subst client
    rw [inner_insert, AList.lookup_insert_ne fun same => differ ⟨rfl, same⟩]
  · rw [inner_insert_ne client]

@[simp] theorem tool_setTool (budgets : Budgets β) (clientId toolName : JsString)
    (tool : Table β) : (budgets.setTool clientId toolName tool).tool clientId toolName = tool := by
  rw [tool_eq_entry, entry_setTool]
  rfl

theorem tool_setTool_ne {clientId toolName c t : JsString} (differ : ¬ (c = clientId ∧ t = toolName))
    (budgets : Budgets β) (tool : Table β) :
    (budgets.setTool clientId toolName tool).tool c t = budgets.tool c t := by
  rw [tool_eq_entry, tool_eq_entry, entry_setTool_ne differ]

/-- The tables that a reset of a client clears, or of one of its tools. An empty name is no
name. -/
def Budgets.clear (budgets : Budgets β) (clientId : JsString) (toolName : Option JsString) :
    Budgets β :=
  match toolName.filter (· ≠ []) with
  | some toolName =>
    match budgets.lookup clientId with
    | some clientBudget => budgets.insert clientId (clientBudget.erase toolName)
    | none => budgets
  | none => budgets.erase clientId

/-- The reset clears the table of this tool. -/
def Clears (clientId : JsString) (toolName : Option JsString) (c t : JsString) : Prop :=
  c = clientId ∧ ∀ name ∈ toolName, name ≠ [] → t = name

instance (clientId : JsString) (toolName : Option JsString) (c t : JsString) :
    Decidable (Clears clientId toolName c t) := inferInstanceAs (Decidable (_ ∧ _))

theorem entry_clear (budgets : Budgets β) (clientId : JsString) (toolName : Option JsString)
    (c t : JsString) : (budgets.clear clientId toolName).entry c t =
      if Clears clientId toolName c t then none else budgets.entry c t := by
  unfold Budgets.clear
  split
  · next name named =>
    obtain ⟨rfl, nonempty⟩ := Option.filter_eq_some_iff.mp named
    have nonempty : name ≠ [] := of_decide_eq_true nonempty
    have clears : Clears clientId (some name) c t ↔ c = clientId ∧ t = name :=
      and_congr_right fun _ => ⟨fun all => all name rfl nonempty, fun same _ member _ =>
        Option.some.inj member ▸ same⟩
    rw [if_congr clears rfl rfl]
    split
    · next clientBudget found =>
      have inner : Table.inner budgets clientId = clientBudget := by
        rw [Table.inner, found]
        rfl
      unfold Budgets.entry
      split_ifs with pair
      · obtain ⟨rfl, rfl⟩ := pair
        rw [inner_insert, AList.lookup_erase]
      · by_cases client : c = clientId
        · subst client
          rw [inner_insert, inner, AList.lookup_erase_ne fun same => pair ⟨rfl, same⟩]
        · rw [inner_insert_ne client]
    · next absent =>
      split_ifs with pair
      · obtain ⟨rfl, rfl⟩ := pair
        have inner : Table.inner budgets c = ∅ := by
          rw [Table.inner, absent]
          rfl
        rw [Budgets.entry, inner, AList.lookup_empty]
      · rfl
  · next unnamed =>
    have clears : Clears clientId toolName c t ↔ c = clientId := by
      refine and_iff_left fun name member nonempty => ?_
      rw [Option.mem_def.mp member, Option.filter_some, if_pos (decide_eq_true nonempty)] at unnamed
      cases unnamed
    rw [if_congr clears rfl rfl, Budgets.entry, Budgets.entry]
    split_ifs with client
    · subst client
      rw [inner_erase, AList.lookup_empty]
    · rw [inner_erase_ne client]

theorem tool_clear (budgets : Budgets β) (clientId : JsString) (toolName : Option JsString)
    (c t : JsString) : (budgets.clear clientId toolName).tool c t =
      if Clears clientId toolName c t then ∅ else budgets.tool c t := by
  rw [tool_eq_entry, entry_clear]
  split_ifs <;> rfl

/-- Names that a reset refuses. -/
def refusesReset (clientId : JsString) (toolName : Option JsString) : Bool :=
  clientId ∈ unsafeNames || toolName.any (· ∈ unsafeNames)

theorem refusesReset_some (clientId toolName : JsString) :
    refusesReset clientId (some toolName) = true ↔
      clientId ∈ unsafeNames ∨ toolName ∈ unsafeNames := by
  rw [refusesReset, Bool.or_eq_true, decide_eq_true_eq, Option.any_some, decide_eq_true_eq]

/-! ### In memory -/

abbrev FieldQueryBudget := Budgets Nat

def FieldQueryBudget.count (budget : FieldQueryBudget) (clientId toolName field : JsString) : Nat :=
  ((budget.tool clientId toolName).lookup field).getD 0

def increment (tool : Table Nat) (field : JsString) : Table Nat :=
  tool.insert field ((tool.lookup field).getD 0 + 1)

section Memory

variable (analyzer : TaintAnalyzer)

/-- The maps of the client and the tool are created before the check. -/
def FieldQueryBudget.applyInMemoryBudget (budget : FieldQueryBudget)
    (clientId toolName : JsString) (extractedFields : List JsString)
    (policy : Option LogicExecutionPolicy) : Option JsString × FieldQueryBudget :=
  let toolBudget := budget.tool clientId toolName
  match exhausted analyzer (fun field => some ((toolBudget.lookup field).getD 0)) policy
      extractedFields with
  | some reason => (some reason, budget.setTool clientId toolName toolBudget)
  | none => (none, budget.setTool clientId toolName (extractedFields.foldl increment toolBudget))

/-- The part of `resetFieldBudget` in memory. -/
def FieldQueryBudget.resetFieldBudget (budget : FieldQueryBudget) (clientId : JsString)
    (toolName : Option JsString) : FieldQueryBudget :=
  if refusesReset clientId toolName then budget else Budgets.clear budget clientId toolName

end Memory

variable {analyzer : TaintAnalyzer}

theorem lookup_increments (fields : List JsString) (tool : Table Nat) (field : JsString) :
    ((fields.foldl increment tool).lookup field).getD 0 =
      (tool.lookup field).getD 0 + fields.count field := by
  induction fields generalizing tool with
  | nil => rfl
  | cons f fields ih =>
    rw [List.foldl_cons, ih, List.count_cons, increment]
    by_cases same : field = f
    · subst same
      rw [AList.lookup_insert, Option.getD_some, beq_self_eq_true, if_pos rfl]
      omega
    · rw [AList.lookup_insert_ne same, if_neg fun equal => same (beq_iff_eq.mp equal).symm]
      rfl

theorem count_setTool (budget : FieldQueryBudget) (clientId toolName : JsString) (tool : Table Nat)
    (c t field : JsString) : FieldQueryBudget.count (budget.setTool clientId toolName tool) c t field =
      if c = clientId ∧ t = toolName then (tool.lookup field).getD 0 else budget.count c t field := by
  unfold FieldQueryBudget.count
  split_ifs with pair
  · obtain ⟨rfl, rfl⟩ := pair
    rw [tool_setTool]
  · rw [tool_setTool_ne pair]

variable (analyzer) in
/-- Memory keeps the counts: the maps refine the counting of accepted queries. -/
theorem count_applyInMemoryBudget (budget : FieldQueryBudget) (budgets : BudgetState)
    (same : budgets.fieldQueryBudget = budget.count) (clientId toolName : JsString)
    (fields : List JsString) (policy : Option LogicExecutionPolicy) :
    (budget.applyInMemoryBudget analyzer clientId toolName fields policy).1 =
        (applyInMemoryBudget analyzer budgets clientId toolName fields policy).1 ∧
      (budget.applyInMemoryBudget analyzer clientId toolName fields policy).2.count =
        (applyInMemoryBudget analyzer budgets clientId toolName fields policy).2.fieldQueryBudget := by
  unfold FieldQueryBudget.applyInMemoryBudget applyInMemoryBudget
  rw [same]
  have reads : (fun field => some (((budget.tool clientId toolName).lookup field).getD 0)) =
      fun field => some (budget.count clientId toolName field) := rfl
  dsimp only
  rw [reads]
  cases exhausted analyzer (fun field => some (budget.count clientId toolName field)) policy fields with
  | some reason =>
    refine ⟨rfl, ?_⟩
    funext c t field
    dsimp only
    rw [same, count_setTool]
    split_ifs with pair
    · rw [pair.1, pair.2]
      rfl
    · rfl
  | none =>
    refine ⟨rfl, ?_⟩
    funext c t field
    dsimp only
    rw [count_setTool, charge, lookup_increments]
    split_ifs with pair
    · rw [pair.1, pair.2]
      rfl
    · rfl

theorem count_resetFieldBudget (budget : FieldQueryBudget) (clientId : JsString)
    (toolName : Option JsString) (c t field : JsString) :
    (budget.resetFieldBudget clientId toolName).count c t field =
      if refusesReset clientId toolName = false ∧ Clears clientId toolName c t then 0
      else budget.count c t field := by
  unfold FieldQueryBudget.resetFieldBudget FieldQueryBudget.count
  cases refused : refusesReset clientId toolName with
  | true => rfl
  | false =>
    rw [if_neg Bool.false_ne_true, tool_clear]
    by_cases clears : Clears clientId toolName c t
    · rw [if_pos clears, if_pos ⟨rfl, clears⟩]
      rfl
    · rw [if_neg clears, if_neg fun both => clears both.2]

end NeuralMesh.Server
